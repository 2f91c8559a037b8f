import Std.Data.ExtTreeSet

/-! # Trees of a compilation unit

The elements of a tree live in an arena and are addressed by their slot.  Nothing forces an arena
to hold a tree: a decoded one may share children, form cycles, leave references dangling or store
an id that differs from the slot.  `SyntaxTree.defect?` finds the last two; sharing and cycles are
legal, and the traversals cope with them.
-/

namespace FlowLink

/-- The address of a tree element: the slot it occupies in the arena. -/
structure TreeId where
  index : Nat
deriving DecidableEq, Inhabited

namespace TreeId

instance : Ord TreeId := ⟨compareOn index⟩

instance : Std.TransOrd TreeId := inferInstanceAs (Std.TransCmp (compareOn index))

instance : Std.LawfulEqOrd TreeId where
  eq_of_compare {left right} equal := by
    cases left
    cases right
    exact congrArg TreeId.mk (Std.LawfulEqOrd.eq_of_compare equal)

def render (id : TreeId) : String := "t" ++ toString id.index

end TreeId

/-- What an element is, with the ids of its parts. -/
inductive Shape where
  | compilationUnit (types : List TreeId)
  | classDecl (name : String) (members : List TreeId)
  /-- Abstract and native methods have no body. -/
  | methodDecl (name : String) (params : List TreeId) (body : Option TreeId)
  | variableDecl (name : String) (initial : Option TreeId)
  | block (statements : List TreeId)
  | expressionStatement (expression : TreeId)
  | returnStatement (expression : Option TreeId)
  | conditional (condition thenBranch : TreeId) (elseBranch : Option TreeId)
  | whileLoop (condition body : TreeId)
  | assignment (target value : TreeId)
  | binary (operator : String) (left right : TreeId)
  | unary (operator : String) (operand : TreeId)
  | methodCall (receiver : Option TreeId) (name : String) (arguments : List TreeId)
  | fieldAccess (target : TreeId) (name : String)
  | lambda (params : List TreeId) (body : TreeId)
  | identifier (name : String)
  | literal (value : String)
  /-- A construct that linking treats no differently from its parts. -/
  | other (label : String) (children : List TreeId)
deriving DecidableEq, Inhabited

namespace Shape

def children : Shape → List TreeId
  | compilationUnit types => types
  | classDecl _ members => members
  | methodDecl _ params body => params ++ body.toList
  | variableDecl _ initial => initial.toList
  | block statements => statements
  | expressionStatement expression => [expression]
  | returnStatement expression => expression.toList
  | conditional condition thenBranch elseBranch => condition :: thenBranch :: elseBranch.toList
  | whileLoop condition body => [condition, body]
  | assignment target value => [target, value]
  | binary _ left right => [left, right]
  | unary _ operand => [operand]
  | methodCall receiver _ arguments => receiver.toList ++ arguments
  | fieldAccess target _ => [target]
  | lambda params body => params ++ [body]
  | identifier _ => []
  | literal _ => []
  | other _ children => children

def label : Shape → String
  | compilationUnit _ => "COMPILATION_UNIT"
  | classDecl .. => "CLASS"
  | methodDecl .. => "METHOD"
  | variableDecl .. => "VARIABLE"
  | block _ => "BLOCK"
  | expressionStatement _ => "EXPRESSION_STATEMENT"
  | returnStatement _ => "RETURN"
  | conditional .. => "IF"
  | whileLoop .. => "WHILE_LOOP"
  | assignment .. => "ASSIGNMENT"
  | binary .. => "BINARY"
  | unary .. => "UNARY"
  | methodCall .. => "METHOD_INVOCATION"
  | fieldAccess .. => "MEMBER_SELECT"
  | lambda .. => "LAMBDA_EXPRESSION"
  | identifier _ => "IDENTIFIER"
  | literal _ => "LITERAL"
  | other label _ => label

def isIdentifier : Shape → Bool
  | identifier _ => true
  | _ => false

/-- The elements that data flows to: references to a variable and its declaration. -/
def isSite : Shape → Bool
  | identifier _ | variableDecl .. => true
  | _ => false

def methodBody? : Shape → Option TreeId
  | methodDecl _ _ body => body
  | _ => none

end Shape

/-- An arena entry: an element and the id stored with it. -/
structure Element where
  id : TreeId
  shape : Shape
deriving DecidableEq, Inhabited

/-- An arena of elements, with the compilation unit among them if there is one. -/
structure SyntaxTree where
  elements : Array Element
  root : Option TreeId
deriving DecidableEq

namespace SyntaxTree

def empty : SyntaxTree := ⟨#[], none⟩

def size (tree : SyntaxTree) : Nat := tree.elements.size

def get? (tree : SyntaxTree) (id : TreeId) : Option Element := tree.elements[id.index]?

def shape? (tree : SyntaxTree) (id : TreeId) : Option Shape := (tree.get? id).map Element.shape

/-- The direct parts of `id`; an id outside the arena has none. -/
def children (tree : SyntaxTree) (id : TreeId) : List TreeId :=
  match tree.shape? id with
  | some shape => shape.children
  | none => []

def label? (tree : SyntaxTree) (id : TreeId) : Option String := (tree.shape? id).map Shape.label

def nextId (tree : SyntaxTree) : TreeId := ⟨tree.size⟩

/-- Appends an element; a compilation unit also becomes the root. -/
def push (tree : SyntaxTree) (shape : Shape) : SyntaxTree :=
  let id := tree.nextId
  let root := match shape with
    | .compilationUnit _ => some id
    | _ => tree.root
  ⟨tree.elements.push ⟨id, shape⟩, root⟩

def pushed (tree : SyntaxTree) (shape : Shape) : SyntaxTree × TreeId :=
  let id := tree.nextId
  (tree.push shape, id)

def pushAssignment (tree : SyntaxTree) (target value : TreeId) : SyntaxTree × TreeId :=
  let (assigned, assignment) := tree.pushed (.assignment target value)
  assigned.pushed (.expressionStatement assignment)

inductive Defect where
  | misplaced (slot : Nat) (id : TreeId)
  | missingChild (parent child : TreeId)
  | missingRoot (root : TreeId)
deriving DecidableEq

def Defect.message : Defect → String
  | misplaced slot id => s!"tree element at slot {slot} has id {id.render}"
  | missingChild parent child => s!"{parent.render} references missing child {child.render}"
  | missingRoot root => s!"root {root.render} is not in the tree"

/-- The defect of the element in `slot`: a wrong id, or else its first dangling child. -/
def slotDefect? (tree : SyntaxTree) (slot : Nat) (element : Element) : Option Defect :=
  if element.id.index ≠ slot then
    some (.misplaced slot element.id)
  else
    ((tree.children element.id).find? fun child => tree.size ≤ child.index).map
      (.missingChild element.id)

def rootDefect? (tree : SyntaxTree) : Option Defect :=
  (tree.root.filter fun root => tree.size ≤ root.index).map .missingRoot

/-- The first defect, slot by slot and then at the root. -/
def defect? (tree : SyntaxTree) : Option Defect :=
  (tree.elements.toList.zipIdx.findSome? fun (element, slot) => tree.slotDefect? slot element)
    |>.or tree.rootDefect?

end SyntaxTree

end FlowLink
