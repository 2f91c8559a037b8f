import FlowLink.Codec.Bundle
import FlowLink.Proofs.Codec.Graph
import FlowLink.Proofs.Document.Yaml.Records

namespace FlowLink

open Std Dialect Yaml

/-! # Documents of records, and documents with ids for names

Trees are encoded as records throughout.  Graphs and analyses keep some of their parts in tables
whose names are ids: without any such entry they are records too, and with one they are not decoded
from what YAML reads of their JSON.  Records are decoded, whatever YAML reads of their strings, but
into others than were encoded unless it reads all strings as they are.
-/

variable {heard : Datum} {order : FieldOrder}

/-! ## Trees -/

namespace TreeId

variable {id : TreeId} {ids : List TreeId} {id? : Option TreeId}

theorem encodeOption_recorded (id? : Option TreeId) : Recorded (encodeOption id?) := by
  cases id? with
  | none => exact .scalar _
  | some id => exact .scalar _

theorem encodeList_recorded (ids : List TreeId) : Recorded (encodeList ids) :=
  recorded_items (fun _ => .scalar _) ids

theorem heard_encode_iff : Heard id.encode heard ↔ heard = id.encode :=
  heard_scalar_iff Meaning.noConfusion

theorem heard_encodeOption_iff : Heard (encodeOption id?) heard ↔ heard = encodeOption id? := by
  cases id? with
  | none => exact heard_scalar_iff Meaning.noConfusion
  | some id => exact heard_encode_iff

theorem heard_encodeList_iff : Heard (encodeList ids) heard ↔ heard = encodeList ids := by
  constructor
  · intro hears
    cases hears with
    | list inner =>
        refine congrArg Datum.list (eq_of_forall₂ ?_ inner)
        intro value member other hears
        obtain ⟨id, _, rfl⟩ := List.mem_map.mp member
        exact heard_encode_iff.mp hears
  · rintro rfl
    apply Heard.list
    rw [List.forall₂_same]
    intro value member
    obtain ⟨id, _, rfl⟩ := List.mem_map.mp member
    exact heard_encode_iff.mpr rfl

end TreeId

namespace Shape

theorem fields_recorded (shape : Shape) : ∀ field ∈ shape.fields, Recorded field.2 := by
  have text : ∀ value, Recorded (.text value) := fun _ => .scalar _
  have id : ∀ id : TreeId, Recorded id.encode := fun _ => .scalar _
  cases shape <;>
    simp [fields, text, id, TreeId.encodeOption_recorded, TreeId.encodeList_recorded]

theorem field_names_keys (shape : Shape) : (shape.fields.map Prod.fst).all isKey = true := by
  cases shape <;> simp only [fields, List.map_cons, List.map_nil] <;> decide

/-- The shape with another text in the place of the only one that it may have. -/
def respell (text : String) : Shape → Shape
  | classDecl _ members => classDecl text members
  | methodDecl _ params body => methodDecl text params body
  | variableDecl _ initial => variableDecl text initial
  | binary _ left right => binary text left right
  | unary _ operand => unary text operand
  | methodCall receiver _ arguments => methodCall receiver text arguments
  | fieldAccess target _ => fieldAccess target text
  | identifier _ => identifier text
  | literal _ => literal text
  | other _ children => other text children
  | shape => shape

theorem kind_respell (text : String) (shape : Shape) : (shape.respell text).kind = shape.kind := by
  cases shape <;> rfl

theorem children_respell (text : String) (shape : Shape) :
    (shape.respell text).children = shape.children := by
  cases shape <;> rfl

theorem kind_kept (shape : Shape) : isKept shape.kind.toList = true := by
  cases shape <;> simp only [kind] <;> decide

/-- What is heard of the fields of an element are the fields of another one of its kind. -/
theorem fields_heard {shape : Shape} {entries : List (String × Datum)}
    (all : List.Forall₂ HeardEntry shape.fields entries) :
    ∃ text, entries = (shape.respell text).fields := by
  cases shape
  all_goals
    simp only [fields, List.forall₂_cons_left_iff, List.forall₂_nil_left_iff, heardEntry_iff,
      heard_text_iff, TreeId.heard_encode_iff, TreeId.heard_encodeOption_iff,
      TreeId.heard_encodeList_iff, ↓existsAndEq, exists_eq_left, exists_and_left, and_true,
      true_and, Prod.exists, Prod.mk.injEq] at all
  case compilationUnit | block | expressionStatement | returnStatement | conditional | whileLoop |
      assignment | lambda => exact ⟨"", all⟩
  all_goals
    obtain ⟨text, _, rfl⟩ := all
    exact ⟨text, rfl⟩

end Shape

theorem Element.keys (element : Element) :
    ∀ field ∈ ("id", element.id.encode) :: ("kind", .text element.shape.kind) ::
      element.shape.fields, isKey field.1 = true := by
  have names : ("id" :: "kind" :: element.shape.fields.map Prod.fst).all isKey = true := by
    rw [List.all_cons, List.all_cons, element.shape.field_names_keys]
    decide
  intro field member
  exact List.all_eq_true.mp names field.1 (List.mem_map_of_mem (f := Prod.fst) member)

theorem Element.encode_recorded (element : Element) : Recorded element.encode := by
  apply Recorded.record element.keys
  intro field member
  rcases List.mem_cons.mp member with rfl | member
  · exact .scalar _
  · rcases List.mem_cons.mp member with rfl | member
    · exact .scalar _
    · exact element.shape.fields_recorded field member

theorem Element.settles_encode {element : Element} (fits : element.IdsFit) :
    Settles (Element.decode? yaml) element element.encode := by
  intro heard hears decoded
  obtain ⟨entries, rfl, all⟩ := hears.of_record element.keys
  simp only [List.forall₂_cons_left_iff, heardEntry_iff, heard_text_iff,
    TreeId.heard_encode_iff] at all
  obtain ⟨_, _, ⟨_, rfl, rfl⟩, ⟨_, rest, ⟨_, ⟨kind, kept, rfl⟩, rfl⟩, all, rfl⟩, rfl⟩ := all
  obtain ⟨text, rfl⟩ := Shape.fields_heard all
  have same : kind = element.shape.kind := kept.eq_of_isKept element.shape.kind_kept
  -- What was heard is another element, which is decoded as what it is.
  have other : decode? yaml (Element.encode ⟨element.id, element.shape.respell text⟩) =
      some ⟨element.id, element.shape.respell text⟩ := by
    apply decode?_presented yaml_standard _ (presents_encode _)
    exact ⟨fits.1, by rw [Shape.children_respell]; exact fits.2⟩
  rw [Element.encode, Shape.kind_respell, ← same, decoded] at other
  have shape : element.shape = element.shape.respell text :=
    congrArg Element.shape (Option.some.inj other)
  rw [← shape, same]
  rfl

theorem SyntaxTree.encode_recorded (tree : SyntaxTree) : Recorded tree.encode := by
  apply recorded_record ["nodes", "root"] rfl (by decide)
  simp [recorded_items Element.encode_recorded, TreeId.encodeOption_recorded]

theorem SyntaxTree.settles_encode {tree : SyntaxTree} (fits : tree.IdsFit) :
    Settles (SyntaxTree.decode? yaml) tree tree.encode := by
  apply settles_record ["nodes", "root"] rfl (by decide) (by decide)
  intro heard values fields decoded all
  simp only [List.map_cons, List.map_nil, List.forall₂_cons_left_iff, List.forall₂_nil_left_iff,
    TreeId.heard_encodeOption_iff] at all
  obtain ⟨nodes, _, hears, ⟨_, _, rfl, rfl, rfl⟩, rfl⟩ := all
  have fields : yaml.fields ["nodes", "root"] heard =
      some [some nodes, some (TreeId.encodeOption tree.root)] := fields
  simp only [decode?, fields, required, bind, pure, Option.bind_some, Option.bind_eq_some_iff,
    Option.some.injEq] at decoded
  obtain ⟨elements, read, root, _, rfl⟩ := decoded
  rw [settles_items (fun element member => Element.settles_encode (fits.elements element member))
    nodes hears (by simpa using read)]
  rfl

/-! ## Graphs -/

theorem Node.encode_recorded (node : Node) : Recorded node.encode := by
  apply recorded_record ["id", "node_type", "contents"] rfl (by decide)
  simp [NodeId.encode, Datum.natural, Datum.text, Recorded.scalar]

theorem NodeType.name_kept (type : NodeType) : isKept type.name.toList = true := by
  cases type <;> decide

theorem Node.settles_encode (node : Node) : Settles (Node.decode? yaml) node node.encode := by
  apply settles_record ["id", "node_type", "contents"] rfl (by decide) (by decide)
  intro heard values fields decoded all
  have id : ∀ heard, Heard node.id.encode heard ↔ heard = node.id.encode :=
    fun _ => heard_scalar_iff Meaning.noConfusion
  simp only [List.map_cons, List.map_nil, List.forall₂_cons_left_iff, List.forall₂_nil_left_iff,
    heard_text_iff, id] at all
  obtain ⟨_, _, rfl, ⟨_, _, ⟨type, kept, rfl⟩, ⟨_, _, ⟨contents, _, rfl⟩, rfl, rfl⟩, rfl⟩, rfl⟩ :=
    all
  have fields : yaml.fields ["id", "node_type", "contents"] heard =
      some [some node.id.encode, some (.text type), some (.text contents)] := fields
  simp only [decode?, fields, required, bind, pure, Option.bind_some, Option.bind_eq_some_iff,
    Option.some.injEq] at decoded
  obtain ⟨_, _, type', _, contents', read, rfl⟩ := decoded
  have same : type = type'.name := kept.eq_of_isKept type'.name_kept
  have read : contents = contents' := Option.some.inj read
  rw [same, read]
  rfl

namespace FeatureGraph

/-- Something in the graph is addressed by an id. -/
def hasEntries (graph : FeatureGraph) : Bool :=
  !(graph.treeNodes.isEmpty && graph.adjacency.isEmpty)

variable {graph : FeatureGraph}

theorem encode_bare (bare : graph.hasEntries = false) :
    graph.encode order = .record [("nodes", .list (graph.nodes.toList.map Node.encode)),
      ("tree_nodes", .table []), ("edges", .table [])] := by
  simp only [hasEntries, Bool.not_eq_false', Bool.and_eq_true, ← ExtTreeMap.isEmpty_toList,
    List.isEmpty_iff] at bare
  rw [encode, bare.1, bare.2, table_nil, table_nil]

theorem encode_recorded (bare : graph.hasEntries = false) : Recorded (graph.encode order) := by
  rw [encode_bare bare]
  apply recorded_record ["nodes", "tree_nodes", "edges"] rfl (by decide)
  simp [recorded_empty, recorded_items Node.encode_recorded]

/-- The ids of the entries are read as texts, which are none. -/
theorem decode?_heard (addressed : graph.hasEntries = true)
    (hears : Heard (graph.encode order) heard) : decode? yaml heard = none := by
  obtain ⟨values, _, fields, all⟩ :=
    fields_heard yaml ["nodes", "tree_nodes", "edges"] rfl (by decide) (by decide) hears
  simp only [List.map_cons, List.map_nil, List.forall₂_cons_left_iff,
    List.forall₂_nil_left_iff] at all
  obtain ⟨_, _, _, ⟨treeNodes, _, hearsTreeNodes, ⟨edges, _, hearsEdges, rfl, rfl⟩, rfl⟩, rfl⟩ :=
    all
  simp only [hasEntries, Bool.not_eq_true', Bool.and_eq_false_iff, ← ExtTreeMap.isEmpty_toList,
    List.isEmpty_eq_false_iff] at addressed
  rcases addressed with some | some
  · have unread : yaml.mapOf TreeId.mk (NodeId.decode? yaml) treeNodes = none :=
      mapOf_heard some hearsTreeNodes
    simp [decode?, fields, defaulted, unread]
  · have unread : yaml.mapOf NodeId.mk (yaml.setOf (Link.decode? yaml)) edges = none :=
      mapOf_heard some hearsEdges
    simp [decode?, fields, defaulted, unread]

theorem settles_encode (bare : graph.hasEntries = false) :
    Settles (decode? yaml) graph (graph.encode order) := by
  rw [encode_bare bare]
  apply settles_record ["nodes", "tree_nodes", "edges"] rfl (by decide) (by decide)
  intro heard values fields decoded all
  simp only [List.map_cons, List.map_nil, List.forall₂_cons_left_iff, List.forall₂_nil_left_iff,
    heard_empty_iff] at all
  obtain ⟨nodes, _, hears, ⟨_, _, rfl, ⟨_, _, rfl, rfl, rfl⟩, rfl⟩, rfl⟩ := all
  have fields : yaml.fields ["nodes", "tree_nodes", "edges"] heard =
      some [some nodes, some (.table []), some (.table [])] := fields
  simp only [decode?, fields, required, bind, pure, Option.bind_some, Option.bind_eq_some_iff,
    Option.some.injEq] at decoded
  obtain ⟨elements, read, _, _, _, _, rfl⟩ := decoded
  rw [settles_items (fun node _ => node.settles_encode) nodes hears (by simpa using read)]
  rfl

end FeatureGraph

/-! ## Analyses -/

namespace Analysis

variable {analysis : Analysis} {orders : Orders}

theorem encode_bare (bare : analysis.classes.isEmpty = true) :
    analysis.encode orders = .table [] := by
  rw [← ExtTreeMap.isEmpty_toList, List.isEmpty_iff] at bare
  rw [encode, bare, table_nil]

theorem decode?_heard (addressed : analysis.classes.isEmpty = false)
    (hears : Heard (analysis.encode orders) heard) : decode? yaml heard = none := by
  rw [← ExtTreeMap.isEmpty_toList, List.isEmpty_eq_false_iff] at addressed
  have unread : yaml.mapOf TreeId.mk (yaml.mapOf TreeId.mk (MethodFacts.decode? yaml)) heard =
      none := mapOf_heard addressed hears
  rw [decode?, unread]
  rfl

end Analysis

/-! ## Bundles -/

namespace Bundle

/-- Something in the bundle is addressed by an id, so an id is the name of a field. -/
def hasEntries (bundle : Bundle) : Bool :=
  bundle.graph.hasEntries || !bundle.analysis.classes.isEmpty

variable {bundle : Bundle} {orders : Orders}

theorem encode_recorded (bare : bundle.hasEntries = false) : Recorded (bundle.encode orders) := by
  simp only [hasEntries, Bool.or_eq_false_iff, Bool.not_eq_false'] at bare
  apply recorded_record ["tree", "graph", "analysis"] rfl (by decide)
  simp [SyntaxTree.encode_recorded, FeatureGraph.encode_recorded bare.1,
    Analysis.encode_bare bare.2, recorded_empty]

theorem decode?_heard (addressed : bundle.hasEntries = true)
    (hears : Heard (bundle.encode orders) heard) : decode? yaml heard = none := by
  obtain ⟨values, _, fields, all⟩ :=
    fields_heard yaml ["tree", "graph", "analysis"] rfl (by decide) (by decide) hears
  simp only [List.map_cons, List.map_nil, List.forall₂_cons_left_iff,
    List.forall₂_nil_left_iff] at all
  obtain ⟨_, _, _, ⟨graph, _, hearsGraph, ⟨analysis, _, hearsAnalysis, rfl, rfl⟩, rfl⟩, rfl⟩ := all
  simp only [hasEntries, Bool.or_eq_true, Bool.not_eq_true'] at addressed
  rcases addressed with addressed | addressed
  · have unread : FeatureGraph.decode? yaml graph = none :=
      FeatureGraph.decode?_heard addressed hearsGraph
    simp [decode?, fields, required, unread]
  · have unread : Analysis.decode? yaml analysis = none :=
      Analysis.decode?_heard addressed hearsAnalysis
    simp [decode?, fields, defaulted, unread]

theorem settles_encode (bare : bundle.hasEntries = false) (fits : bundle.tree.IdsFit) :
    Settles (decode? yaml) bundle (bundle.encode orders) := by
  simp only [hasEntries, Bool.or_eq_false_iff, Bool.not_eq_false'] at bare
  have empty : bundle.analysis.encode orders.toOrders = .table [] := Analysis.encode_bare bare.2
  apply settles_record ["tree", "graph", "analysis"] rfl (by decide) (by decide)
  intro heard values fields decoded all
  simp only [List.map_cons, List.map_nil, List.forall₂_cons_left_iff, List.forall₂_nil_left_iff,
    empty, heard_empty_iff] at all
  obtain ⟨tree, _, hearsTree, ⟨graph, _, hearsGraph, ⟨_, _, rfl, rfl, rfl⟩, rfl⟩, rfl⟩ := all
  have fields : yaml.fields ["tree", "graph", "analysis"] heard =
      some [some tree, some graph, some (.table [])] := fields
  simp only [decode?, fields, required, bind, pure, Option.bind_some, Option.bind_eq_some_iff,
    Option.some.injEq] at decoded
  obtain ⟨_, readTree, _, readGraph, _, _, rfl⟩ := decoded
  rw [SyntaxTree.settles_encode fits tree hearsTree readTree,
    FeatureGraph.settles_encode bare.1 graph hearsGraph readGraph, empty]
  rfl

end Bundle

end FlowLink
