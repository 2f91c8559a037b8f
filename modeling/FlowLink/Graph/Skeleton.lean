import FlowLink.Graph.Basic

/-! # Plain skeletons

The skeleton of a tree has one syntax node per element, edges from parents to children, and one
token for each named element and each literal.
-/

namespace FlowLink

/-- The token that represents an element of this shape in a plain skeleton. -/
def Shape.token? : Shape → Option (NodeType × String)
  | .identifier name | .variableDecl name _ | .methodDecl name _ _ | .classDecl name _ =>
    some (.identifierToken, name)
  | .literal value => some (.token, value)
  | _ => none

namespace FeatureGraph

/-- Registers an element under the label of the slot its id names. -/
def addElement (tree : SyntaxTree) (graph : FeatureGraph) (element : Element) : FeatureGraph :=
  (graph.createTreeNode element.id .astElement ((tree.label? element.id).getD "UNKNOWN")).1

/-- Joins a syntax node to the node of a child, if the child has one. -/
def addChild (parent : NodeId) (graph : FeatureGraph) (child : TreeId) : FeatureGraph :=
  match graph.treeNode? child with
  | some node => (graph.putEdge ⟨parent, node, .astChild⟩).1
  | none => graph

def addToken (parent : NodeId) (graph : FeatureGraph) (shape : Shape) : FeatureGraph :=
  match shape.token? with
  | some (type, contents) =>
    let (grown, token) := graph.createNode type contents
    (grown.putEdge ⟨parent, token, .associatedToken⟩).1
  | none => graph

def addStructure (tree : SyntaxTree) (graph : FeatureGraph) (element : Element) : FeatureGraph :=
  match graph.treeNode? element.id with
  | some parent =>
    ((tree.children element.id).foldl (addChild parent) graph).addToken parent element.shape
  | none => graph

/-- The plain skeleton of a tree: all elements are registered first, then joined. -/
def skeleton (tree : SyntaxTree) : FeatureGraph :=
  tree.elements.foldl (addStructure tree) (tree.elements.foldl (addElement tree) empty)

def tokenOf? (graph : FeatureGraph) (tree : TreeId) : Option NodeId :=
  (graph.treeNode? tree).bind fun node => (graph.tokens node).toList.head?

end FeatureGraph

end FlowLink
