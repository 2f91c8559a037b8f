import FlowLink.Codec.Tree
import FlowLink.Graph.Basic

/-! # Graphs as documents -/

namespace FlowLink

open Std Dialect

namespace NodeId

def encode (id : NodeId) : Datum := .natural id.index

def decode? (dialect : Dialect) (value : Datum) : Option NodeId :=
  (dialect.index value).map NodeId.mk

end NodeId

def NodeType.decode? (dialect : Dialect) (value : Datum) : Option NodeType :=
  dialect.member NodeType.all NodeType.name value

def EdgeKind.decode? (dialect : Dialect) (value : Datum) : Option EdgeKind :=
  dialect.member EdgeKind.all EdgeKind.name value

namespace Node

def encode (node : Node) : Datum :=
  .record [("id", node.id.encode), ("node_type", .text node.type.name),
    ("contents", .text node.contents)]

def decode? (dialect : Dialect) (value : Datum) : Option Node := do
  match ← dialect.fields ["id", "node_type", "contents"] value with
  | [id, type, contents] =>
    return ⟨← required (NodeId.decode? dialect) id,
      ← required (NodeType.decode? dialect) type,
      ← required dialect.text contents⟩
  | _ => none

end Node

namespace Link

/-- A link is a pair of target and kind. -/
def encode (link : Link) : Datum := .list [link.target.encode, .text link.kind.name]

def decode? (dialect : Dialect) (value : Datum) : Option Link := do
  match ← dialect.items value with
  | [target, kind] =>
    return ⟨← NodeId.decode? dialect target, ← EdgeKind.decode? dialect kind⟩
  | _ => none

end Link

namespace FeatureGraph

def encodeLinks (links : ExtTreeSet Link) : Datum := .list (links.toList.map Link.encode)

/-- Sources and their links are written in ascending order, tree nodes in any. -/
def encode (graph : FeatureGraph) (order : FieldOrder := .ascending) : Datum :=
  .record [("nodes", .list (graph.nodes.toList.map Node.encode)),
    ("tree_nodes", order.table TreeId.index (fun _ => NodeId.encode) graph.treeNodes.toList),
    ("edges", FieldOrder.ascending.table NodeId.index (fun _ => encodeLinks)
      graph.adjacency.toList)]

def decode? (dialect : Dialect) (value : Datum) : Option FeatureGraph := do
  match ← dialect.fields ["nodes", "tree_nodes", "edges"] value with
  | [nodes, treeNodes, edges] =>
    let nodes ← required (dialect.listOf (Node.decode? dialect)) nodes
    let treeNodes ← defaulted ∅ (dialect.mapOf TreeId.mk (NodeId.decode? dialect)) treeNodes
    let adjacency ←
      defaulted ∅ (dialect.mapOf NodeId.mk (dialect.setOf (Link.decode? dialect))) edges
    return ⟨nodes.toArray, treeNodes, adjacency⟩
  | _ => none

end FeatureGraph

end FlowLink
