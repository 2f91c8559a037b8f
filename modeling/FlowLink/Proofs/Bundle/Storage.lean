import FlowLink.Bundle.Storage
import FlowLink.Proofs.Codec.Facts
import FlowLink.Proofs.Codec.Graph
import FlowLink.Proofs.Document.Json.RoundTrip
import FlowLink.Proofs.Files.Writing

namespace FlowLink

open Std Dialect Json

/-! # Saved bundles are loaded again

The text of a saved bundle spells this bundle, whatever order the entries of its maps come in, and
no other file or directory is in the way of reading it back.  Nothing is asked of the bundle but
that its ids are numbers of 64 bits.
-/

def FieldOrder.descending : FieldOrder := ⟨List.reverse, List.reverse_perm⟩

namespace Bundle

/-- 64 bits hold all ids of the bundle, whether or not anything has them. -/
structure IdsFit (bundle : Bundle) : Prop where
  tree : bundle.tree.IdsFit
  graph : bundle.graph.IdsFit
  analysis : bundle.analysis.IdsFit

instance (bundle : Bundle) : Decidable bundle.IdsFit :=
  decidable_of_iff (bundle.tree.IdsFit ∧ bundle.graph.IdsFit ∧ bundle.analysis.IdsFit)
    ⟨fun fits => ⟨fits.1, fits.2.1, fits.2.2⟩,
      fun fits => ⟨fits.tree, fits.graph, fits.analysis⟩⟩

def parts (bearable : Datum → Prop) (bundle : Bundle) : List Part :=
  [.due "tree" (SyntaxTree.Presents bearable bundle.tree), .due "graph" bundle.graph.Presents,
    ⟨"analysis", bundle.analysis.Presents, bundle.analysis = .empty⟩]

/-- What a bundle may be presented as, given the values of the unknown fields of its elements. -/
def Presents (bearable : Datum → Prop) (bundle : Bundle) : Datum → Prop :=
  RecordOf (bundle.parts bearable) fun _ => True

variable {dialect : Dialect} {bundle : Bundle} {orders : Orders} {value : Datum}

theorem encode_faithful {levels : Nat} (fits : bundle.IdsFit) :
    Faithful (levels + 6) (bundle.encode orders) := by
  have tree : Faithful (levels + 5) bundle.tree.encode := SyntaxTree.encode_faithful fits.tree
  have graph : Faithful (levels + 5) (bundle.graph.encode orders.treeNodes) :=
    FeatureGraph.encode_faithful fits.graph
  have analysis : Faithful (levels + 5) (bundle.analysis.encode orders.toOrders) :=
    Analysis.encode_faithful fits.analysis
  apply faithful_record ["tree", "graph", "analysis"] rfl (by decide)
  simp [tree, graph, analysis]

theorem presents_encode (bearable : Datum → Prop) (bundle : Bundle) (orders : Orders) :
    bundle.Presents bearable (bundle.encode orders) :=
  recordOf_record (.cons ⟨rfl, bundle.tree.presents_encode⟩
    (.cons ⟨rfl, bundle.graph.presents_encode _⟩
      (.cons ⟨rfl, bundle.analysis.presents_encode _⟩ .nil)))

theorem decode?_presented (standard : dialect.Standard) (fits : bundle.IdsFit)
    (presents : bundle.Presents Takable value) : decode? dialect value = some bundle := by
  obtain ⟨values, fields, all⟩ := presents.all_fields_take dialect (by simp [parts, Part.due])
  obtain ⟨tree?, graph?, analysis?, rfl, tree, graph, analysis⟩ := takes_three all
  have fields : dialect.fields ["tree", "graph", "analysis"] value =
      some [tree?, graph?, analysis?] := fields
  have tree := required_of_takes tree fun _ => SyntaxTree.decode?_presented standard fits.tree
  have graph := required_of_takes graph fun _ => FeatureGraph.decode?_presented standard fits.graph
  have analysis := defaulted_of_takes analysis (fun absent => absent) fun _ =>
    Analysis.decode?_presented standard fits.analysis
  simp [decode?, fields, tree, graph, analysis]

theorem decode?_encode (standard : dialect.Standard) (fits : bundle.IdsFit) :
    decode? dialect (bundle.encode orders) = some bundle :=
  decode?_presented standard fits (bundle.presents_encode Takable orders)

/-- Whatever bundles are taken from texts as YAML, there is a reader to take them so. -/
theorem exists_readYaml (bundle? : String → Option Bundle)
    (fits : ∀ text bundle, bundle? text = some bundle → bundle.IdsFit) :
    ∃ readYaml, ∀ path text, isYaml path = true → ofText? path text readYaml = bundle? text := by
  refine ⟨fun text => (bundle? text).map fun bundle => bundle.encode, ?_⟩
  intro path text named
  rw [ofText?, if_pos named]
  cases taken : bundle? text with
  | none => rfl
  | some bundle => exact decode?_encode yaml_standard (fits text bundle taken)

theorem ofJson?_toJson (fits : bundle.IdsFit) : ofJson? (bundle.toJson orders) = some bundle := by
  have faithful : Faithful depthLimit (bundle.encode orders) := encode_faithful fits
  rw [ofJson?, toJson, read?_pretty faithful, Option.bind_some, decode?_encode json_standard fits]

/-- The text of a saved bundle spells the bundle.  So a valid bundle that is saved under a name for
JSON is what is loaded from there. -/
theorem json_roundTrip (bundle : Bundle) (orders : Orders) (fits : bundle.IdsFit) :
    ofJson? (bundle.toJson orders) = some bundle ∧
      ∀ (files after : Files) (path : Path) (warnings : List Event)
        (readYaml : String → Option Datum), isYaml path = false →
        files.write? path (bundle.toJson orders) = some after → bundle.validate = .ok warnings →
        load path (after.read path) readYaml = .ok (bundle, warnings) := by
  refine ⟨ofJson?_toJson fits, ?_⟩
  intro files after path warnings readYaml notYaml written valid
  have spelled : ofText? path (bundle.toJson orders) readYaml = some bundle := by
    rw [ofText?, notYaml, if_neg Bool.false_ne_true, ofJson?_toJson fits]
  rw [Files.read_of_write? written]
  simp only [load, spelled, valid]

/-- A unit with names that have to be escaped, the greatest id, and a node without links.  Two of
its maps have several entries. -/
def quoted : Bundle where
  tree :=
    { elements := #[⟨⟨0⟩, .compilationUnit [⟨1⟩, ⟨2⟩]⟩,
        ⟨⟨1⟩, .methodDecl "\"a\\b\"\n" [] none⟩, ⟨⟨2⟩, .literal "\x00\x1f\t\u2028"⟩]
      root := some ⟨0⟩ }
  graph :=
    { nodes := #[⟨⟨0⟩, .token, "\"\""⟩, ⟨⟨1⟩, .astElement, ""⟩]
      treeNodes := ((∅ : ExtTreeMap TreeId NodeId).insert ⟨1⟩ ⟨1⟩).insert ⟨2⟩ ⟨0⟩
      adjacency := ((∅ : ExtTreeMap NodeId (ExtTreeSet Link)).insert ⟨0⟩ ∅).insert ⟨1⟩
        ((∅ : ExtTreeSet Link).insert ⟨⟨0⟩, .associatedToken⟩) }
  analysis := (Analysis.empty.insert ⟨wordLimit - 1⟩ ⟨1⟩ .empty).insert ⟨1⟩ ⟨1⟩ .empty

/-- The entries of both maps are written backwards. -/
theorem quoted_json_roundTrip :
    let orders : Orders := { treeNodes := .descending, classes := .descending }
    quoted.IdsFit ∧
      (∃ nodes edges, quoted.graph.encode orders.treeNodes = .record [("nodes", nodes),
        ("tree_nodes", .table [(.ofNat 2, .natural 0), (.ofNat 1, .natural 1)]),
        ("edges", edges)]) ∧
      ofJson? (quoted.toJson orders) = some quoted ∧ isYaml ⟨"unit.json"⟩ = false ∧
      quoted.validate = .ok [.unknownElements 1] ∧
      ∃ after, Files.empty.write? ⟨"unit.json"⟩ (quoted.toJson orders) = some after ∧
        load ⟨"unit.json"⟩ (after.read ⟨"unit.json"⟩) = .ok (quoted, [.unknownElements 1]) := by
  intro orders
  have fits : quoted.IdsFit := by decide
  have json : isYaml ⟨"unit.json"⟩ = false := by decide
  have valid : quoted.validate = .ok [.unknownElements 1] := by decide
  have written : Files.empty.write? ⟨"unit.json"⟩ (quoted.toJson orders) =
      some (Files.empty.put ["unit.json"] (.text (quoted.toJson orders))) := rfl
  obtain ⟨spelled, loaded⟩ := json_roundTrip quoted orders fits
  exact ⟨fits, ⟨_, _, rfl⟩, spelled, json, valid, _, written, loaded _ _ _ _ _ json written valid⟩

end Bundle

end FlowLink
