import FlowLink.Facts
import FlowLink.Graph.Skeleton

/-! # Synthetic units

Units of any size with a known result, for measuring linking.  A synthetic unit has one class.
Each of its methods declares a variable, reassigns it from its previous value a number of times and
returns it, and the facts name the latest write at every read.
-/

namespace FlowLink

structure SyntheticBody where
  tree : SyntaxTree
  statements : Array TreeId
  lastWrite : TreeId
  outputs : MethodFacts

namespace SyntheticBody

def start (tree : SyntaxTree) : SyntheticBody :=
  let (declared, declaration) := tree.pushed (.variableDecl "x" none)
  ⟨declared, #[declaration], declaration, .empty⟩

def read (body : SyntheticBody) : SyntheticBody × TreeId :=
  let (tree, site) := body.tree.pushed (.identifier "x")
  let lastWrites := body.outputs.lastWrites.insert site (.ofList [body.lastWrite])
  ({ body with tree, outputs := { body.outputs with lastWrites } }, site)

/-- Adds the statement `x = x + 1`. -/
def reassign (body : SyntheticBody) : SyntheticBody :=
  let (afterRead, site) := body.read
  let (tree, one) := afterRead.tree.pushed (.literal "1")
  let (tree, sum) := tree.pushed (.binary "+" site one)
  let (tree, target) := tree.pushed (.identifier "x")
  let (tree, statement) := tree.pushAssignment target sum
  { afterRead with tree, statements := afterRead.statements.push statement, lastWrite := target }

def finish (body : SyntheticBody) : SyntheticBody × TreeId :=
  let (afterRead, site) := body.read
  let (tree, statement) := afterRead.tree.pushed (.returnStatement (some site))
  let statements := afterRead.statements.push statement
  let (tree, block) := tree.pushed (.block statements.toList)
  ({ afterRead with tree, statements }, block)

end SyntheticBody

/-- Appends a method with the given number of reassignments, and answers it with its facts. -/
def SyntaxTree.pushSyntheticMethod (tree : SyntaxTree) (name : String) (reassignments : Nat) :
    SyntaxTree × TreeId × MethodFacts :=
  let (body, block) :=
    (Nat.repeat SyntheticBody.reassign reassignments (SyntheticBody.start tree)).finish
  let (tree, method) := body.tree.pushed (.methodDecl name [] (some block))
  (tree, method, body.outputs)

def SyntaxTree.pushSyntheticMethods (tree : SyntaxTree) (methods reassignments : Nat) :
    SyntaxTree × Array (TreeId × MethodFacts) :=
  (List.range methods).foldl
    (fun (tree, pushed) number =>
      let (tree, method) := tree.pushSyntheticMethod ("m" ++ toString number) reassignments
      (tree, pushed.push method))
    (tree, #[])

/-- The tree and the analysis of the synthetic unit with this many methods, each reassigning its
variable this many times. -/
def syntheticUnit (methods reassignments : Nat) : SyntaxTree × Analysis :=
  let (tree, pushed) := SyntaxTree.empty.pushSyntheticMethods methods reassignments
  let (tree, classId) := tree.pushed (.classDecl "Bench" (pushed.toList.map Prod.fst))
  let analysis := pushed.foldl
    (fun analysis (method, outputs) => analysis.insert classId method outputs) .empty
  (tree.push (.compilationUnit [classId]), analysis)

end FlowLink
