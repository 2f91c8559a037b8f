import FlowLink.Link.Tokens
import FlowLink.Tree.Traversal

/-! # The return pass

Adds an edge from the tokens of every identifier in a returned expression to the node of the method
that returns it.
-/

namespace FlowLink

/-- The search for return statements goes below this element of a method's body.  Returns are never
entered.  Nested classes and lambdas own their returns, unless the last return is wanted wherever
it stands; a body that is itself one is entered. -/
def ReturnMode.searches (mode : ReturnMode) (body id : TreeId) : Shape → Bool
  | .returnStatement _ => false
  | .classDecl .. | .lambda .. => mode = .last || id = body
  | _ => true

namespace SyntaxTree

/-- The return statements that the search of a body finds, each with its expression. -/
def returns (tree : SyntaxTree) (mode : ReturnMode) (body : TreeId) : List (Option TreeId) :=
  (tree.walk (mode.searches body) body).filterMap fun id =>
    match tree.shape? id with
    | some (.returnStatement expression) => some expression
    | _ => none

def identifiers (tree : SyntaxTree) (expression : TreeId) : List TreeId :=
  (tree.preorder expression).filter fun id => (tree.shape? id).any Shape.isIdentifier

end SyntaxTree

def ReturnMode.select (mode : ReturnMode) (expressions : List TreeId) : List TreeId :=
  match mode with
  | all => expressions
  | last => expressions.getLast?.toList

namespace Progress

def linkIdentifier (config : LinkConfig) (methodNode : NodeId) (progress : Progress)
    (identifier : TreeId) : Progress :=
  let counted := progress.count fun stats => { stats with sitesVisited := stats.sitesVisited + 1 }
  match counted.graph.treeNode? identifier with
  | none =>
    (counted.report (.identifierWithoutNode identifier)).count fun stats =>
      { stats with missingFeatureNode := stats.missingFeatureNode + 1 }
  | some node => counted.linkTokensToNode config ⟨node, methodNode, .returnsTo⟩

/-- Links the returned identifiers of a method to its node. -/
def linkIdentifiers (config : LinkConfig) (method : TreeId) (identifiers : List TreeId)
    (progress : Progress) : Progress :=
  if identifiers.isEmpty then
    progress
  else
    match progress.graph.treeNode? method with
    | none =>
      (progress.report (.methodWithoutNode method)).count fun stats =>
        { stats with missingFeatureNode := stats.missingFeatureNode + identifiers.length }
    | some methodNode =>
      identifiers.foldl (linkIdentifier config methodNode)
        (progress.count fun stats => { stats with methodsLinked := stats.methodsLinked + 1 })

def linkMethod (tree : SyntaxTree) (config : LinkConfig) (progress : Progress)
    (declaration : TreeId × TreeId) : Progress :=
  let (method, body) := declaration
  let returns := tree.returns config.returnMode body
  let expressions := returns.filterMap id
  let selected := config.returnMode.select expressions
  linkIdentifiers config method (selected.flatMap tree.identifiers)
    (progress.count fun stats =>
      { stats with
        returnsSeen := stats.returnsSeen + returns.length
        bareReturns := stats.bareReturns + returns.count none })

end Progress

def SyntaxTree.methodBodies (tree : SyntaxTree) (start : TreeId) : List (TreeId × TreeId) :=
  (tree.preorder start).filterMap fun id =>
    ((tree.shape? id).bind Shape.methodBody?).map fun body => (id, body)

def linkReturns (tree : SyntaxTree) (config : LinkConfig) (graph : FeatureGraph) : Progress :=
  match tree.root with
  | none => (Progress.start graph).report (.unitWithoutRoot .returnsTo)
  | some root =>
    let linked := (tree.methodBodies root).foldl (Progress.linkMethod tree config) (.start graph)
    linked.report (.returnsFinished linked.stats.edgesAdded linked.stats.methodsLinked)

end FlowLink
