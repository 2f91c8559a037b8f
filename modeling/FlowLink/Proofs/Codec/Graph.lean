import FlowLink.Codec.Graph
import FlowLink.Proofs.Codec.Tree

namespace FlowLink

open Std Dialect Json

/-! # Graphs are decoded from whatever presents them -/

variable {dialect : Dialect} {levels : Nat} {value : Datum}

namespace NodeId

def Fits (id : NodeId) : Prop := id.index < wordLimit

instance (id : NodeId) : Decidable id.Fits := inferInstanceAs (Decidable (id.index < wordLimit))

variable {id : NodeId}

theorem decode?_encode (standard : dialect.Standard) (fits : id.Fits) :
    decode? dialect id.encode = some id := by
  change (dialect.id? (.natural id.index)).map NodeId.mk = some id
  rw [standard.natural _ fits]
  rfl

theorem encode_faithful (fits : id.Fits) : Faithful levels id.encode := .natural fits

end NodeId

theorem NodeType.decode?_name (standard : dialect.Standard) (type : NodeType) :
    decode? dialect (.text type.name) = some type := by
  change (dialect.string? (.ofText type.name)).bind _ = _
  rw [standard.text]
  cases type <;> decide

theorem EdgeKind.decode?_name (standard : dialect.Standard) (kind : EdgeKind) :
    decode? dialect (.text kind.name) = some kind := by
  change (dialect.string? (.ofText kind.name)).bind _ = _
  rw [standard.text]
  cases kind <;> decide

namespace Node

def parts (node : Node) : List Part :=
  [.due "id" (· = node.id.encode), .due "node_type" (· = .text node.type.name),
    .due "contents" (· = .text node.contents)]

def Presents (node : Node) : Datum → Prop := RecordOf node.parts fun _ => True

variable {node : Node}

theorem encode_faithful (fits : node.id.Fits) : Faithful (levels + 1) node.encode := by
  apply faithful_record ["id", "node_type", "contents"] rfl (by decide)
  simp [NodeId.encode_faithful fits, Faithful.text]

theorem presents_encode (node : Node) : node.Presents node.encode :=
  recordOf_record (.cons ⟨rfl, rfl⟩ (.cons ⟨rfl, rfl⟩ (.cons ⟨rfl, rfl⟩ .nil)))

theorem decode?_presented (standard : dialect.Standard) (fits : node.id.Fits)
    (presents : node.Presents value) : decode? dialect value = some node := by
  obtain ⟨values, fields, all⟩ := presents.all_fields_take dialect (by simp [parts, Part.due])
  obtain ⟨id?, type?, contents?, rfl, id, type, contents⟩ := takes_three all
  have fields : dialect.fields ["id", "node_type", "contents"] value =
      some [id?, type?, contents?] := fields
  have id := required_of_takes id (decode_of_eq (NodeId.decode?_encode standard fits))
  have type := required_of_takes type (decode_of_eq (NodeType.decode?_name standard node.type))
  have contents : required dialect.text contents? = some node.contents :=
    required_of_takes contents (decode_of_eq (standard.text node.contents))
  simp [decode?, fields, id, type, contents]

end Node

namespace Link

variable {link : Link}

theorem encode_faithful (fits : link.target.Fits) : Faithful (levels + 1) link.encode := by
  apply Faithful.list
  simp [NodeId.encode_faithful fits, Faithful.text]

theorem decode?_encode (standard : dialect.Standard) (fits : link.target.Fits) :
    decode? dialect link.encode = some link := by
  simp [decode?, encode, items, NodeId.decode?_encode standard fits,
    EdgeKind.decode?_name standard]

end Link

namespace FeatureGraph

structure IdsFit (graph : FeatureGraph) : Prop where
  nodes : ∀ node ∈ graph.nodes.toList, node.id.Fits
  elements : ∀ entry ∈ graph.treeNodes.toList, entry.1.Fits
  elementNodes : ∀ entry ∈ graph.treeNodes.toList, entry.2.Fits
  sources : ∀ entry ∈ graph.adjacency.toList, entry.1.Fits
  targets : ∀ entry ∈ graph.adjacency.toList, ∀ link ∈ entry.2.toList, link.target.Fits

instance (graph : FeatureGraph) : Decidable graph.IdsFit :=
  decidable_of_iff ((∀ node ∈ graph.nodes.toList, node.id.Fits) ∧
      (∀ entry ∈ graph.treeNodes.toList, entry.1.Fits) ∧
      (∀ entry ∈ graph.treeNodes.toList, entry.2.Fits) ∧
      (∀ entry ∈ graph.adjacency.toList, entry.1.Fits) ∧
      ∀ entry ∈ graph.adjacency.toList, ∀ link ∈ entry.2.toList, link.target.Fits)
    ⟨fun fits => ⟨fits.1, fits.2.1, fits.2.2.1, fits.2.2.2.1, fits.2.2.2.2⟩,
      fun fits => ⟨fits.nodes, fits.elements, fits.elementNodes, fits.sources, fits.targets⟩⟩

def parts (graph : FeatureGraph) : List Part :=
  [.due "nodes" (ListOf Node.Presents graph.nodes.toList),
    ⟨"tree_nodes", TableOf TreeId.index (fun _ node value => value = node.encode)
      graph.treeNodes.toList, graph.treeNodes = ∅⟩,
    ⟨"edges", TableOf NodeId.index (fun _ links value => value = encodeLinks links)
      graph.adjacency.toList, graph.adjacency = ∅⟩]

def Presents (graph : FeatureGraph) : Datum → Prop := RecordOf graph.parts fun _ => True

variable {graph : FeatureGraph}

theorem encode_faithful {order : FieldOrder} (fits : graph.IdsFit) :
    Faithful (levels + 4) (graph.encode order) := by
  have nodes : Faithful (levels + 3) (.list (graph.nodes.toList.map Node.encode)) :=
    faithful_items fun node member => Node.encode_faithful (fits.nodes node member)
  have treeNodes : Faithful (levels + 3)
      (order.table TreeId.index (fun _ => NodeId.encode) graph.treeNodes.toList) :=
    faithful_entries fits.elements fun entry member =>
      NodeId.encode_faithful (fits.elementNodes entry member)
  have edges : Faithful (levels + 3)
      (FieldOrder.ascending.table NodeId.index (fun _ => encodeLinks) graph.adjacency.toList) :=
    faithful_entries fits.sources fun entry member =>
      faithful_items fun link linked => Link.encode_faithful (fits.targets entry member link linked)
  apply faithful_record ["nodes", "tree_nodes", "edges"] rfl (by decide)
  intro field member
  simp only [List.mem_cons, List.not_mem_nil, or_false] at member
  rcases member with rfl | rfl | rfl
  · exact nodes
  · exact treeNodes
  · exact edges

theorem presents_encode (graph : FeatureGraph) (order : FieldOrder) :
    graph.Presents (graph.encode order) :=
  recordOf_record (.cons ⟨rfl, listOf_map Node.presents_encode _⟩
    (.cons ⟨rfl, tableOf_encoded _ order _⟩ (.cons ⟨rfl, tableOf_encoded _ .ascending _⟩ .nil)))

theorem decode?_presented (standard : dialect.Standard) (fits : graph.IdsFit)
    (presents : graph.Presents value) : decode? dialect value = some graph := by
  obtain ⟨values, fields, all⟩ := presents.all_fields_take dialect (by simp [parts, Part.due])
  obtain ⟨nodes?, treeNodes?, edges?, rfl, nodes, treeNodes, edges⟩ := takes_three all
  have fields : dialect.fields ["nodes", "tree_nodes", "edges"] value =
      some [nodes?, treeNodes?, edges?] := fields
  have nodes : required (dialect.listOf (Node.decode? dialect)) nodes? =
      some graph.nodes.toList :=
    required_of_takes nodes fun _ listed => listOf_presented listed fun node member _ =>
      Node.decode?_presented standard (fits.nodes node member)
  have treeNodes : defaulted ∅ (dialect.mapOf TreeId.mk (NodeId.decode? dialect)) treeNodes? =
      some graph.treeNodes :=
    defaulted_of_takes treeNodes (fun absent => absent) fun _ table =>
      mapOf_presented table (fun _ => rfl) fits.elements fun entry member =>
        decode_of_eq (NodeId.decode?_encode standard (fits.elementNodes entry member))
  have edges : defaulted ∅ (dialect.mapOf NodeId.mk (dialect.setOf (Link.decode? dialect))) edges? =
      some graph.adjacency :=
    defaulted_of_takes edges (fun absent => absent) fun _ table =>
      mapOf_presented table (fun _ => rfl) fits.sources fun entry member =>
        decode_of_eq (setOf_encode fun link linked =>
          Link.decode?_encode standard (fits.targets entry member link linked))
  simp [decode?, fields, nodes, treeNodes, edges]

theorem decode?_encode (standard : dialect.Standard) (fits : graph.IdsFit) (order : FieldOrder) :
    decode? dialect (graph.encode order) = some graph :=
  decode?_presented standard fits (graph.presents_encode order)

end FeatureGraph

end FlowLink
