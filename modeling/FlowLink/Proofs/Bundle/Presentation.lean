import FlowLink.Proofs.Bundle.Storage

namespace FlowLink.Bundle

open Std Dialect Json

/-! # Decoding a bundle does not depend on its presentation

The fields of all records may come in any order and with unknown ones among them, and those may be
missing that hold what a missing one stands for.  The entries of maps may come in any order as well.
Records pass over the unknown fields unread.  An
element does not: it takes up all its fields before its kind is known, so that the value of an
unknown one has to be a value that a reader can take up.
-/

/-- A bundle is what is decoded from whatever presents it, and from every text that spells that. -/
theorem json_presented (bundle : Bundle) (value : Datum) (fits : bundle.IdsFit)
    (presents : bundle.Presents Takable value) :
    decode? json value = some bundle ∧
      ∀ text, read? text = some value → ofJson? text = some bundle := by
  have decoded := decode?_presented json_standard fits presents
  refine ⟨decoded, ?_⟩
  intro text spells
  rw [ofJson?, spells, Option.bind_some, decoded]

/-- A unit with a method that has neither parameters nor a body, and no facts about it. -/
def terse : Bundle where
  tree :=
    { elements := #[⟨⟨0⟩, .compilationUnit [⟨1⟩]⟩, ⟨⟨1⟩, .methodDecl "f" [] none⟩]
      root := some ⟨0⟩ }
  graph :=
    { nodes := #[⟨⟨0⟩, .astElement, "m"⟩]
      treeNodes := ((∅ : ExtTreeMap TreeId NodeId).insert ⟨0⟩ ⟨0⟩).insert ⟨1⟩ ⟨0⟩
      adjacency := ∅ }
  analysis := Analysis.empty.insert ⟨1⟩ ⟨1⟩ .empty

def terseUnit : Datum :=
  .record [("types", .list [.natural 1]), ("kind", .text "CompilationUnit"), ("id", .natural 0)]

/-- A method does not know the field of a construct without a kind of its own. -/
def terseMethod : Datum :=
  .record [("label", .list [.null]), ("name", .text "f"), ("kind", .text "Method"),
    ("id", .natural 1)]

def terseGraph : Datum :=
  .record [("version", .natural 2),
    ("tree_nodes", .table [(.ofNat 1, .natural 0), (.ofNat 0, .natural 0)]),
    ("nodes", .list [.record [("contents", .text "m"), ("node_type", .text "AST_ELEMENT"),
      ("id", .natural 0)]])]

/-- The fields of all records and the entries of a map in reverse, with two fields that are unknown
and six that are missing. -/
def terseValue : Datum :=
  .record [("analysis", .table [(.ofNat 1, .table [(.ofNat 1, .table [])])]),
    ("graph", terseGraph),
    ("tree", .record [("root", .natural 0), ("nodes", .list [terseUnit, terseMethod])])]

theorem terse_presents : terse.Presents Takable terseValue := by
  have unit : Element.Presents Takable ⟨⟨0⟩, .compilationUnit [⟨1⟩]⟩ terseUnit :=
    recordOf_reverse [] (.given rfl (.given rfl (.given rfl .nil))) (List.forall_mem_nil _)
  have method : Element.Presents Takable ⟨⟨1⟩, .methodDecl "f" [] none⟩ terseMethod := by
    refine recordOf_reverse [(.ofText "label", .list [.null])]
      (.given rfl (.given rfl (.given rfl (.omitted ?params (.omitted ?body .nil))))) ?strange
    case params => exact List.mem_cons_self
    case body => exact List.mem_cons_of_mem _ List.mem_cons_self
    case strange => exact List.forall_mem_singleton.mpr ⟨rfl, by decide, rfl⟩
  have tree : terse.tree.Presents Takable
      (.record [("root", .natural 0), ("nodes", .list [terseUnit, terseMethod])]) :=
    recordOf_reverse [] (.given (ListOf.list (.cons unit (.cons method .nil))) (.given rfl .nil))
      (List.forall_mem_nil _)
  have node : Node.Presents ⟨⟨0⟩, .astElement, "m"⟩ (.record [("contents", .text "m"),
      ("node_type", .text "AST_ELEMENT"), ("id", .natural 0)]) :=
    recordOf_reverse [] (.given rfl (.given rfl (.given rfl .nil))) (List.forall_mem_nil _)
  have treeNodes : TableOf TreeId.index (fun _ node value => value = NodeId.encode node)
      terse.graph.treeNodes.toList (.table [(.ofNat 1, .natural 0), (.ofNat 0, .natural 0)]) :=
    .table (.cons ⟨rfl, rfl⟩ (.cons ⟨rfl, rfl⟩ .nil)) (.swap _ _ [])
  have graph : terse.graph.Presents terseGraph :=
    recordOf_reverse [(.ofText "version", .natural 2)]
      (.given (ListOf.list (.cons node .nil)) (.given treeNodes (.omitted rfl .nil)))
      (List.forall_mem_singleton.mpr ⟨rfl, by decide, trivial⟩)
  have facts : MethodFacts.Presents .empty (.table []) :=
    recordOf_reverse [] (.omitted rfl (.omitted rfl .nil)) (List.forall_mem_nil _)
  have analysis : terse.analysis.Presents
      (.table [(.ofNat 1, .table [(.ofNat 1, .table [])])]) :=
    .table (.cons ⟨rfl, .table (.cons ⟨rfl, facts⟩ .nil) (.refl _)⟩ .nil) (.refl _)
  exact recordOf_reverse [] (.given tree (.given graph (.given analysis .nil)))
    (List.forall_mem_nil _)

theorem terse_faithful : Faithful depthLimit terseValue := by
  have small : ∀ {levels number : Nat}, number < 3 → Faithful levels (.natural number) :=
    fun less => .natural (Nat.lt_trans less (by decide))
  have one : FaithfulName (.ofNat 1) := faithfulName_ofNat (by decide)
  have zero : FaithfulName (.ofNat 0) := faithfulName_ofNat (by decide)
  have list : ∀ {levels : Nat} {items : List Datum}, (∀ item ∈ items, Faithful levels item) →
      Faithful (levels + 1) (.list items) := .list
  have unit : Faithful 124 terseUnit :=
    faithful_record ["types", "kind", "id"] rfl (by decide) (by simp [Faithful.text, small, list])
  have method : Faithful 124 terseMethod :=
    faithful_record ["label", "name", "kind", "id"] rfl (by decide)
      (by simp [Faithful.text, Faithful.null, small, list])
  have tree : Faithful 126
      (.record [("root", .natural 0), ("nodes", .list [terseUnit, terseMethod])]) :=
    faithful_record ["root", "nodes"] rfl (by decide) (by simp [small, list, unit, method])
  have ids : ∀ {levels : Nat} {value : Datum}, Faithful levels value →
      Faithful (levels + 1) (.table [(.ofNat 1, value)]) := fun inner =>
    .table (List.forall_mem_singleton.mpr one) (List.forall_mem_singleton.mpr inner)
  have treeNodes : Faithful 125 (.table [(.ofNat 1, .natural 0), (.ofNat 0, .natural 0)]) :=
    .table (by simp [one, zero]) (by simp [small])
  have node : Faithful 124 (.record [("contents", .text "m"), ("node_type", .text "AST_ELEMENT"),
      ("id", .natural 0)]) :=
    faithful_record ["contents", "node_type", "id"] rfl (by decide) (by simp [Faithful.text, small])
  have graph : Faithful 126 terseGraph :=
    faithful_record ["version", "tree_nodes", "nodes"] rfl (by decide)
      (by simp [small, treeNodes, list, node])
  have facts : Faithful 124 (.table []) := .table (List.forall_mem_nil _) (List.forall_mem_nil _)
  exact faithful_record ["analysis", "graph", "tree"] rfl (by decide)
    (by simp [ids, facts, graph, tree])

theorem terse_json_presented :
    terse.IdsFit ∧ terse.Presents Takable terseValue ∧
      decode? json terseValue = some terse ∧ ofJson? (pretty terseValue) = some terse := by
  have fits : terse.IdsFit := by decide
  obtain ⟨decoded, spelled⟩ := json_presented terse terseValue fits terse_presents
  exact ⟨fits, terse_presents, decoded, spelled _ (read?_pretty terse_faithful)⟩

/-! ## Elements with unknown fields -/

/-- A list in a list, this many times. -/
def nest : Nat → Datum
  | 0 => .list []
  | depth + 1 => .list [nest depth]

theorem nest_faithful (depth : Nat) : Faithful (depth + 1) (nest depth) := by
  induction depth with
  | zero => exact .list (List.forall_mem_nil _)
  | succ depth ih => exact .list (List.forall_mem_singleton.mpr ih)

theorem not_takable_cut_nest (depth : Nat) : ¬Takable ((nest depth).cut depth) := by
  induction depth with
  | zero => exact Bool.false_ne_true
  | succ depth ih =>
      intro takable
      exact ih (Datum.allScalars_list.mp takable _ List.mem_cons_self)

def lone : Bundle where
  tree := { elements := #[⟨⟨0⟩, .identifier "x"⟩], root := none }
  graph := .empty
  analysis := .empty

def notedElement (note : Datum) : Datum :=
  .record [("id", .natural 0), ("kind", .text "Identifier"), ("name", .text "x"), ("note", note)]

/-- The encoding of `lone`, with one more field in its only element. -/
def noted (note : Datum) : Datum :=
  .record [("tree", .record [("nodes", .list [notedElement note]), ("root", .null)]),
    ("graph", lone.graph.encode), ("analysis", lone.analysis.encode)]

theorem lone_presents {bearable : Datum → Prop} {note : Datum} (bears : bearable note) :
    lone.Presents bearable (noted note) := by
  have unknown : "note" ∉ (Element.parts ⟨⟨0⟩, .identifier "x"⟩).map Part.name := by decide
  have element : Element.Presents bearable ⟨⟨0⟩, .identifier "x"⟩ (notedElement note) :=
    recordOf_append [(.ofText "note", note)] (.given rfl (.given rfl (.given rfl .nil)))
      (List.forall_mem_singleton.mpr ⟨rfl, unknown, bears⟩)
  have tree : lone.tree.Presents bearable
      (.record [("nodes", .list [notedElement note]), ("root", .null)]) :=
    recordOf_append [] (.given (ListOf.list (.cons element .nil)) (.given rfl .nil))
      (List.forall_mem_nil _)
  exact recordOf_append [] (.given tree (.given (lone.graph.presents_encode _)
    (.given (lone.analysis.presents_encode _) .nil))) (List.forall_mem_nil _)

theorem noted_faithful {levels : Nat} {note : Datum} (faithful : Faithful (levels + 3) note) :
    Faithful (levels + 7) (noted note) := by
  have graph : Faithful (levels + 6) lone.graph.encode := FeatureGraph.encode_faithful (by decide)
  have analysis : Faithful (levels + 6) lone.analysis.encode := Analysis.encode_faithful (by decide)
  have zero : Faithful (levels + 3) (.natural 0) := .natural (by decide)
  have element : Faithful (levels + 4) (notedElement note) :=
    faithful_record ["id", "kind", "name", "note"] rfl (by decide)
      (by simp [zero, Faithful.text, faithful])
  have nodes : Faithful (levels + 5) (.list [notedElement note]) :=
    .list (List.forall_mem_singleton.mpr element)
  have tree : Faithful (levels + 6)
      (.record [("nodes", .list [notedElement note]), ("root", .null)]) :=
    faithful_record ["nodes", "root"] rfl (by decide) (by simp [nodes, Faithful.null])
  exact faithful_record ["tree", "graph", "analysis"] rfl (by decide)
    (by simp [tree, graph, analysis])

theorem cut_noted (note : Datum) : (noted note).cut depthLimit = noted (note.cut 123) := rfl

theorem noted_refused {note : Datum} (untakable : ¬Takable note) :
    decode? json (noted note) = none := by
  have listed : (Scalar.ofText "note", note) ∈
      [(Scalar.ofText "id", .natural 0), (.ofText "kind", .text "Identifier"),
        (.ofText "name", .text "x"), (.ofText "note", note)] := by
    simp
  have beside : (Scalar.ofText "note").text ≠ "id" := by decide
  have element : Element.decode? json (notedElement note) = none :=
    Element.decode?_of_untakable listed beside untakable
  have tree : SyntaxTree.decode? json
      (.record [("nodes", .list [notedElement note]), ("root", .null)]) = none := by
    have fields : json.fields ["nodes", "root"]
        (.record [("nodes", .list [notedElement note]), ("root", .null)]) =
          some [some (.list [notedElement note]), some .null] :=
      fields_whole_record [("nodes", _), ("root", _)] (by simp)
    simp [SyntaxTree.decode?, fields, required, listOf, items, element]
  have fields : json.fields ["tree", "graph", "analysis"] (noted note) =
      some [some (.record [("nodes", .list [notedElement note]), ("root", .null)]),
        some lone.graph.encode, some lone.analysis.encode] :=
    fields_whole_record [("tree", _), ("graph", _), ("analysis", _)] (by simp)
  simp [decode?, fields, required, tree]

/-- A list that is nested too deeply is passed over in a record, but not in an element. -/
theorem deep_note_refused :
    lone.IdsFit ∧ lone.Presents (fun _ => True) (noted (nest 123)) ∧
      Faithful 128 (noted (nest 123)) ∧ ofJson? (pretty (noted (nest 123))) = none := by
  have fits : lone.IdsFit := by decide
  have faithful : Faithful 128 (noted (nest 123)) := noted_faithful (nest_faithful 123)
  refine ⟨fits, lone_presents trivial, faithful, ?_⟩
  rw [ofJson?, read?_pretty_eq_cut faithful, Option.bind_some, cut_noted,
    noted_refused (not_takable_cut_nest 123)]

end FlowLink.Bundle
