import Std.Data.ExtTreeMap
import FlowLink.Tree.Basic

/-! # Feature graphs

A feature graph holds syntax and token nodes, typed edges between them, and the node that each
registered tree element is associated with.  Nodes live in an arena whose slot is the id, so a
graph allocates ids itself and they only grow.  A decoded graph may store other ids, or refer to
nodes it does not have; `FeatureGraph.defect?` finds the first such place.
-/

namespace FlowLink

open Std

/-- The address of a graph node: the slot it occupies. -/
structure NodeId where
  index : Nat
deriving DecidableEq, Inhabited

namespace NodeId

instance : Ord NodeId := ⟨compareOn index⟩

instance : TransOrd NodeId := inferInstanceAs (TransCmp (compareOn index))

instance : LawfulEqOrd NodeId where
  eq_of_compare {left right} equal := by
    cases left
    cases right
    exact congrArg NodeId.mk (LawfulEqOrd.eq_of_compare equal)

def render (id : NodeId) : String := "n" ++ toString id.index

end NodeId

inductive NodeType where
  | token
  | identifierToken
  | astElement
  | fakeAst
  | comment
deriving DecidableEq, Inhabited

namespace NodeType

def all : List NodeType := [token, identifierToken, astElement, fakeAst, comment]

def name : NodeType → String
  | token => "TOKEN"
  | identifierToken => "IDENTIFIER_TOKEN"
  | astElement => "AST_ELEMENT"
  | fakeAst => "FAKE_AST"
  | comment => "COMMENT"

def isToken : NodeType → Bool
  | token | identifierToken => true
  | _ => false

end NodeType

inductive EdgeKind where
  /-- Parent syntax node to child syntax node. -/
  | astChild
  /-- Syntax node to a token that represents it. -/
  | associatedToken
  /-- Token to the next token of the text. -/
  | nextToken
  /-- The latest write of a variable to a later read or assignment. -/
  | lastWrite
  /-- The latest use of a value to the site that consumes it. -/
  | lastUse
  /-- A token whose value may flow into what a method returns. -/
  | returnsTo
deriving DecidableEq, Inhabited

namespace EdgeKind

def all : List EdgeKind := [astChild, associatedToken, nextToken, lastWrite, lastUse, returnsTo]

def name : EdgeKind → String
  | astChild => "AST_CHILD"
  | associatedToken => "ASSOCIATED_TOKEN"
  | nextToken => "NEXT_TOKEN"
  | lastWrite => "LAST_WRITE"
  | lastUse => "LAST_USE"
  | returnsTo => "RETURNS_TO"

/-- The kinds that the skeleton of a graph consists of; linking adds only the others. -/
def isSkeleton : EdgeKind → Bool
  | astChild | associatedToken | nextToken => true
  | _ => false

def rank : EdgeKind → Nat
  | astChild => 0
  | associatedToken => 1
  | nextToken => 2
  | lastWrite => 3
  | lastUse => 4
  | returnsTo => 5

theorem all_rank (kind : EdgeKind) : all[kind.rank]? = some kind := by
  cases kind <;> rfl

theorem rank_injective {left right : EdgeKind} (equal : left.rank = right.rank) :
    left = right :=
  Option.some.inj ((all_rank left).symm.trans (equal ▸ all_rank right))

instance : Ord EdgeKind := ⟨compareOn rank⟩

instance : TransOrd EdgeKind := inferInstanceAs (TransCmp (compareOn rank))

instance : LawfulEqOrd EdgeKind where
  eq_of_compare equal := rank_injective (LawfulEqOrd.eq_of_compare equal)

end EdgeKind

/-- An edge as its source sees it. -/
structure Link where
  target : NodeId
  kind : EdgeKind
deriving DecidableEq, Inhabited

namespace Link

/-- Links are ordered by target, those to one target by kind. -/
instance : Ord Link := ⟨compareLex (compareOn target) (compareOn kind)⟩

instance : TransOrd Link :=
  inferInstanceAs (TransCmp (compareLex (compareOn target) (compareOn kind)))

instance : LawfulEqOrd Link where
  eq_of_compare {left right} equal := by
    obtain ⟨targets, kinds⟩ := Ordering.then_eq_eq.mp equal
    cases left
    cases right
    exact congr (congrArg Link.mk (LawfulEqOrd.eq_of_compare targets))
      (LawfulEqOrd.eq_of_compare kinds)

end Link

structure Edge where
  source : NodeId
  target : NodeId
  kind : EdgeKind
deriving DecidableEq, Inhabited

def Edge.link (edge : Edge) : Link := ⟨edge.target, edge.kind⟩

inductive NodeFilter where
  | exactly (type : NodeType)
  | anyToken
deriving DecidableEq

def NodeFilter.accepts : NodeFilter → NodeType → Bool
  | exactly wanted, type => wanted = type
  | anyToken, type => type.isToken

/-- A graph node and the id stored with it.  The contents are the text of a token, or the
syntactic category of any other node. -/
structure Node where
  id : NodeId
  type : NodeType
  contents : String
deriving DecidableEq, Inhabited

/-- Nodes by slot, the nodes associated with tree elements, and the outgoing links of each source.
A source may be listed with no link at all. -/
structure FeatureGraph where
  nodes : Array Node
  treeNodes : ExtTreeMap TreeId NodeId
  adjacency : ExtTreeMap NodeId (ExtTreeSet Link)

namespace FeatureGraph

def empty : FeatureGraph := ⟨#[], ∅, ∅⟩

def nodeCount (graph : FeatureGraph) : Nat := graph.nodes.size

def node? (graph : FeatureGraph) (id : NodeId) : Option Node := graph.nodes[id.index]?

def hasNode (graph : FeatureGraph) (id : NodeId) : Bool := id.index < graph.nodeCount

def treeNode? (graph : FeatureGraph) (id : TreeId) : Option NodeId := graph.treeNodes[id]?

def nextId (graph : FeatureGraph) : NodeId := ⟨graph.nodeCount⟩

def createNode (graph : FeatureGraph) (type : NodeType) (contents : String) :
    FeatureGraph × NodeId :=
  let id := graph.nextId
  ({ graph with nodes := graph.nodes.push ⟨id, type, contents⟩ }, id)

/-- Creates the node of a tree element.  An element that already has one keeps it. -/
def createTreeNode (graph : FeatureGraph) (tree : TreeId) (type : NodeType) (contents : String) :
    FeatureGraph × NodeId :=
  match graph.treeNode? tree with
  | some existing => (graph, existing)
  | none =>
    let (grown, id) := graph.createNode type contents
    ({ grown with treeNodes := grown.treeNodes.insert tree id }, id)

def links (graph : FeatureGraph) (source : NodeId) : ExtTreeSet Link :=
  graph.adjacency[source]?.getD ∅

def hasEdge (graph : FeatureGraph) (edge : Edge) : Bool :=
  (graph.links edge.source).contains edge.link

def hasEnds (graph : FeatureGraph) (edge : Edge) : Bool :=
  graph.hasNode edge.source && graph.hasNode edge.target

/-- Adds an edge, and answers whether it is new.  An edge that is present, or lacks an end, leaves
the graph as it is. -/
def putEdge (graph : FeatureGraph) (edge : Edge) : FeatureGraph × Bool :=
  if graph.hasEnds edge && !graph.hasEdge edge then
    let links := (graph.links edge.source).insert edge.link
    ({ graph with adjacency := graph.adjacency.insert edge.source links }, true)
  else
    (graph, false)

/-- The type of the node that a link leads to, if the node exists. -/
def targetType? (graph : FeatureGraph) (link : Link) : Option NodeType :=
  (graph.node? link.target).map Node.type

/-- The targets of the links of `node` that pass a test on the link and the type of its target. -/
def targetsWhere (graph : FeatureGraph) (node : NodeId) (test : Link → NodeType → Bool) :
    ExtTreeSet NodeId :=
  .ofList (((graph.links node).toList.filter fun link =>
    (graph.targetType? link).any (test link)).map Link.target)

/-- The successors of the asked type over edges of any kind. -/
def successors (graph : FeatureGraph) (node : NodeId) (filter : NodeFilter) : ExtTreeSet NodeId :=
  graph.targetsWhere node fun _ type => filter.accepts type

/-- The tokens that represent a node: its token successors over skeleton edges.  Edges that
linking adds are not followed, so the answer is the same before and after linking. -/
def tokens (graph : FeatureGraph) (node : NodeId) : ExtTreeSet NodeId :=
  graph.targetsWhere node fun link type => link.kind.isSkeleton && type.isToken

def predecessors (graph : FeatureGraph) (node : NodeId) (kind : EdgeKind) : ExtTreeSet NodeId :=
  .ofList ((graph.adjacency.toList.filter fun (_, links) => links.contains ⟨node, kind⟩).map
    Prod.fst)

def edges (graph : FeatureGraph) : List Edge :=
  graph.adjacency.toList.flatMap fun (source, links) =>
    links.toList.map fun link => ⟨source, link.target, link.kind⟩

def edgesOfKind (graph : FeatureGraph) (kind : EdgeKind) : List Edge :=
  graph.edges.filter fun edge => edge.kind = kind

def edgeCount (graph : FeatureGraph) : Nat :=
  graph.adjacency.foldl (fun count _ links => count + links.size) 0

/-- Counts an edge under its kind. -/
def countKind (counts : ExtTreeMap EdgeKind Nat) (edge : Edge) : ExtTreeMap EdgeKind Nat :=
  counts.insert edge.kind (counts.getD edge.kind 0 + 1)

/-- How many edges there are of each kind.  Kinds without edges are left out. -/
def edgeCounts (graph : FeatureGraph) : List (EdgeKind × Nat) :=
  (graph.edges.foldl countKind ∅).toList

inductive Defect where
  | misplaced (slot : Nat) (id : NodeId)
  | danglingAssociation (tree : TreeId) (node : NodeId)
  | danglingEdge (edge : Edge)
deriving DecidableEq

def Defect.message : Defect → String
  | misplaced slot id => s!"node at slot {slot} has id {id.render}"
  | danglingAssociation tree node => s!"{tree.render} is associated with missing node {node.render}"
  | danglingEdge edge =>
    s!"{edge.kind.name} edge {edge.source.render} -> {edge.target.render} references a missing node"

/-- The first defect: of the nodes by slot, then of the associations by tree element, then of the
edges in their order. -/
def defect? (graph : FeatureGraph) : Option Defect :=
  (graph.nodes.toList.zipIdx.findSome? fun (node, slot) =>
      if node.id.index ≠ slot then some (.misplaced slot node.id) else none)
    |>.or (graph.treeNodes.toList.findSome? fun (tree, node) =>
      if graph.hasNode node then none else some (.danglingAssociation tree node))
    |>.or (graph.edges.findSome? fun edge =>
      if graph.hasEnds edge then none else some (.danglingEdge edge))

end FeatureGraph

end FlowLink
