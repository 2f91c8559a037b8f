import FlowLink.Codec.Tree
import FlowLink.Proofs.Document.Datum
import FlowLink.Proofs.Document.Json.Writing
import FlowLink.Proofs.Document.Presentation

namespace FlowLink

open Dialect Json

/-! # Trees are decoded from whatever presents them

Records list their parts, and say which of them may be missing.  An element is decoded in two steps,
of which the first one takes up all its fields and the second one builds an element of its kind from
them.  `Shape.form_of_takes` is the second step: every kind has a form, and the form builds the
element from whatever its fields may be.  What an element or a tree was encoded as is one of its
presentations.
-/

variable {dialect : Dialect} {bearable : Datum → Prop} {value : Datum}

namespace TreeId

/-- 64 bits hold the id. -/
def Fits (id : TreeId) : Prop := id.index < wordLimit

instance (id : TreeId) : Decidable id.Fits := inferInstanceAs (Decidable (id.index < wordLimit))

def AllFit (ids : List TreeId) : Prop := ∀ id ∈ ids, id.Fits

instance (ids : List TreeId) : Decidable (AllFit ids) :=
  inferInstanceAs (Decidable (∀ id ∈ ids, id.Fits))

@[simp] theorem allFit_cons {id : TreeId} {ids : List TreeId} :
    AllFit (id :: ids) ↔ id.Fits ∧ AllFit ids := List.forall_mem_cons

@[simp] theorem allFit_append {first second : List TreeId} :
    AllFit (first ++ second) ↔ AllFit first ∧ AllFit second := List.forall_mem_append

variable {levels : Nat} {id : TreeId} {ids : List TreeId} {id? : Option TreeId}

theorem decode?_encode (standard : dialect.Standard) (fits : id.Fits) :
    decode? dialect id.encode = some id := by
  change (dialect.id? (.natural id.index)).map TreeId.mk = some id
  rw [standard.natural _ fits]
  rfl

theorem nullable_encodeOption (standard : dialect.Standard) (fits : AllFit id?.toList) :
    nullable (decode? dialect) (encodeOption id?) = some id? := by
  cases id? with
  | none => rfl
  | some id =>
      change (decode? dialect id.encode).map some = some (some id)
      rw [decode?_encode standard (fits id List.mem_cons_self)]
      rfl

theorem listOf_encodeList (standard : dialect.Standard) (fits : AllFit ids) :
    dialect.listOf (decode? dialect) (encodeList ids) = some ids :=
  listOf_encode fun id member => decode?_encode standard (fits id member)

theorem eq_none_of_encodeOption (null : encodeOption id? = .null) : id? = none := by
  cases id? with
  | none => rfl
  | some id =>
      have meaning := congrArg Scalar.meaning (Datum.scalar.inj null)
      contradiction

theorem eq_nil_of_encodeList (empty : encodeList ids = .list []) : ids = [] := by
  cases ids with
  | nil => rfl
  | cons id ids => cases empty

theorem encode_faithful (fits : id.Fits) : Faithful levels id.encode := .natural fits

theorem encodeOption_faithful (fits : AllFit id?.toList) : Faithful levels (encodeOption id?) := by
  cases id? with
  | none => exact .null
  | some id => exact encode_faithful (fits id List.mem_cons_self)

theorem encodeList_faithful (fits : AllFit ids) : Faithful (levels + 1) (encodeList ids) :=
  faithful_items fun id member => encode_faithful (fits id member)

end TreeId

namespace ShapeForm

variable {field : String} {omissible : Prop} {value? : Option Datum}

theorem name_of_takes {text : String}
    (takes : Part.Takes ⟨field, (· = .text text), omissible⟩ value?) (due : ¬omissible) :
    name value? = some text := by
  cases value? with
  | none => exact absurd takes due
  | some value =>
      cases takes
      exact neutral_standard.text text

theorem part_of_takes {id : TreeId} (takes : Part.Takes ⟨field, (· = id.encode), omissible⟩ value?)
    (due : ¬omissible) (fits : id.Fits) : part value? = some id := by
  cases value? with
  | none => exact absurd takes due
  | some value =>
      cases takes
      exact TreeId.decode?_encode neutral_standard fits

theorem part?_of_takes {id? : Option TreeId}
    (takes : Part.Takes ⟨field, (· = TreeId.encodeOption id?), omissible⟩ value?)
    (standard : omissible → TreeId.encodeOption id? = .null) (fits : TreeId.AllFit id?.toList) :
    part? value? = some id? := by
  cases value? with
  | none => rw [TreeId.eq_none_of_encodeOption (standard takes)]; rfl
  | some value =>
      cases takes
      exact TreeId.nullable_encodeOption neutral_standard fits

theorem parts_of_takes {ids : List TreeId}
    (takes : Part.Takes ⟨field, (· = TreeId.encodeList ids), omissible⟩ value?)
    (standard : omissible → TreeId.encodeList ids = .list []) (fits : TreeId.AllFit ids) :
    parts value? = some ids := by
  cases value? with
  | none => rw [TreeId.eq_nil_of_encodeList (standard takes)]; rfl
  | some value =>
      cases takes
      exact TreeId.listOf_encodeList neutral_standard fits

end ShapeForm

namespace Shape

open ShapeForm

/-- The fields of a kind that may be missing, with what they stand for then. -/
def defaults : Shape → List (String × Datum)
  | compilationUnit _ => [("types", .list [])]
  | classDecl .. => [("members", .list [])]
  | methodDecl .. => [("params", .list []), ("body", .null)]
  | variableDecl .. => [("initializer", .null)]
  | block _ => [("statements", .list [])]
  | returnStatement _ => [("expression", .null)]
  | conditional .. => [("else_branch", .null)]
  | methodCall .. => [("receiver", .null), ("arguments", .list [])]
  | lambda .. => [("params", .list [])]
  | other .. => [("children", .list [])]
  | _ => []

def parts (shape : Shape) : List Part :=
  shape.fields.map fun field => ⟨field.1, (· = field.2), field ∈ shape.defaults⟩

theorem part_names (shape : Shape) : shape.parts.map Part.name = shape.fields.map Prod.fst := by
  rw [parts, List.map_map]
  rfl

/-- The form of a kind builds an element from whatever its fields may be. -/
theorem form_of_takes {shape : Shape} (fits : TreeId.AllFit shape.children) :
    ∃ form, named? shape.kind = some form ∧ form.fields = shape.parts.map Part.name ∧
      ∀ values, List.Forall₂ Part.Takes shape.parts values → form.build values = some shape := by
  cases shape
  all_goals
    refine ⟨_, rfl, rfl, ?_⟩
    intro values takes
    simp only [children, TreeId.allFit_append, TreeId.allFit_cons] at fits
    simp only [parts, fields, defaults, List.map_cons, List.map_nil] at takes
  case compilationUnit =>
    obtain _ | ⟨types, _ | _⟩ := takes
    simp [parts_of_takes types, fits]
  case classDecl =>
    obtain _ | ⟨label, _ | ⟨members, _ | _⟩⟩ := takes
    simp [name_of_takes label, parts_of_takes members, fits]
  case methodDecl =>
    obtain _ | ⟨label, _ | ⟨params, _ | ⟨body, _ | _⟩⟩⟩ := takes
    simp [name_of_takes label, parts_of_takes params, part?_of_takes body, fits]
  case variableDecl =>
    obtain _ | ⟨label, _ | ⟨initial, _ | _⟩⟩ := takes
    simp [name_of_takes label, part?_of_takes initial, fits]
  case block =>
    obtain _ | ⟨statements, _ | _⟩ := takes
    simp [parts_of_takes statements, fits]
  case expressionStatement =>
    obtain _ | ⟨expression, _ | _⟩ := takes
    simp [part_of_takes expression, fits]
  case returnStatement =>
    obtain _ | ⟨expression, _ | _⟩ := takes
    simp [part?_of_takes expression, fits]
  case conditional =>
    obtain _ | ⟨condition, _ | ⟨thenBranch, _ | ⟨elseBranch, _ | _⟩⟩⟩ := takes
    simp [part_of_takes condition, part_of_takes thenBranch, part?_of_takes elseBranch, fits]
  case whileLoop =>
    obtain _ | ⟨condition, _ | ⟨body, _ | _⟩⟩ := takes
    simp [part_of_takes condition, part_of_takes body, fits]
  case assignment =>
    obtain _ | ⟨target, _ | ⟨value, _ | _⟩⟩ := takes
    simp [part_of_takes target, part_of_takes value, fits]
  case binary =>
    obtain _ | ⟨operator, _ | ⟨left, _ | ⟨right, _ | _⟩⟩⟩ := takes
    simp [name_of_takes operator, part_of_takes left, part_of_takes right, fits]
  case unary =>
    obtain _ | ⟨operator, _ | ⟨operand, _ | _⟩⟩ := takes
    simp [name_of_takes operator, part_of_takes operand, fits]
  case methodCall =>
    obtain _ | ⟨receiver, _ | ⟨label, _ | ⟨arguments, _ | _⟩⟩⟩ := takes
    simp [part?_of_takes receiver, name_of_takes label, parts_of_takes arguments, fits]
  case fieldAccess =>
    obtain _ | ⟨target, _ | ⟨label, _ | _⟩⟩ := takes
    simp [part_of_takes target, name_of_takes label, fits]
  case lambda =>
    obtain _ | ⟨params, _ | ⟨body, _ | _⟩⟩ := takes
    simp [parts_of_takes params, part_of_takes body, fits]
  case identifier =>
    obtain _ | ⟨label, _ | _⟩ := takes
    simp [name_of_takes label]
  case literal =>
    obtain _ | ⟨value, _ | _⟩ := takes
    simp [name_of_takes value]
  case other =>
    obtain _ | ⟨label, _ | ⟨children, _ | _⟩⟩ := takes
    simp [name_of_takes label, parts_of_takes children, fits]

theorem fields_faithful {levels : Nat} {shape : Shape} (fits : TreeId.AllFit shape.children) :
    ∀ field ∈ shape.fields, Faithful (levels + 1) field.2 := by
  cases shape
  all_goals
    simp only [children, TreeId.allFit_append, TreeId.allFit_cons] at fits
    simp [fields, Faithful.text, TreeId.encode_faithful, TreeId.encodeOption_faithful,
      TreeId.encodeList_faithful, fits]

theorem field_names_nodup (shape : Shape) :
    ("id" :: "kind" :: shape.fields.map Prod.fst).Nodup := by
  cases shape <;> simp [fields]

theorem field_names_noNumber (shape : Shape) :
    ((shape.fields.map Prod.fst).all fun name => (idName? name.toList).isNone) = true := by
  cases shape <;> simp only [fields, List.map_cons, List.map_nil] <;> decide

end Shape

/-! ## Elements -/

/-- The value has no scalar that a reader has no value for. -/
def Takable (value : Datum) : Prop := value.allScalars isTakable = true

theorem Json.FaithfulName.isTakable {name : Scalar} (faithful : FaithfulName name) :
    Dialect.isTakable name = true := by
  rw [← faithful]
  unfold fieldName
  split
  next =>
    cases number : idName? name.text.toList with
    | none => rfl
    | some value => exact decide_eq_true (idName?_lt number)
  next => rfl
  next broken =>
    unfold spelling at broken
    split at broken <;> contradiction

theorem Json.Faithful.takable {levels : Nat} (faithful : Faithful levels value) :
    Takable value := by
  induction faithful with
  | null => rfl
  | truth value => rfl
  | natural small => exact decide_eq_true small
  | text value => rfl
  | list _ ih => exact Datum.allScalars_list.mpr ih
  | table names _ ih =>
      exact Datum.allScalars_table.mpr fun field member => ⟨(names field member).isTakable,
        ih field member⟩

namespace Element

def IdsFit (element : Element) : Prop := element.id.Fits ∧ TreeId.AllFit element.shape.children

instance (element : Element) : Decidable element.IdsFit :=
  inferInstanceAs (Decidable (element.id.Fits ∧ TreeId.AllFit element.shape.children))

def parts (element : Element) : List Part :=
  .due "id" (· = element.id.encode) :: .due "kind" (· = .text element.shape.kind) ::
    element.shape.parts

/-- What an element may be presented as, given the values of its unknown fields. -/
def Presents (bearable : Datum → Prop) (element : Element) : Datum → Prop :=
  RecordOf element.parts bearable

variable {element : Element}

theorem encode_faithful {levels : Nat} (fits : element.IdsFit) :
    Faithful (levels + 2) element.encode := by
  have noNumber : ("id" :: "kind" :: element.shape.fields.map Prod.fst).all
      (fun name => (idName? name.toList).isNone) = true := by
    rw [List.all_cons, List.all_cons, element.shape.field_names_noNumber]
    decide
  apply faithful_record ("id" :: "kind" :: element.shape.fields.map Prod.fst)
  · rfl
  · exact noNumber
  · intro field member
    rcases List.mem_cons.mp member with rfl | member
    · exact TreeId.encode_faithful fits.1
    · rcases List.mem_cons.mp member with rfl | member
      · exact .text _
      · exact Shape.fields_faithful fits.2 field member

theorem part_names_nodup (element : Element) : (element.parts.map Part.name).Nodup := by
  rw [parts, List.map_cons, List.map_cons, Shape.part_names]
  exact element.shape.field_names_nodup

theorem takable_of_part (fits : element.IdsFit) {part : Part} (member : part ∈ element.parts)
    (presents : part.presents value) : Takable value := by
  have encoded : (⟨part.name, value⟩ : String × Datum) ∈
      ("id", element.id.encode) :: ("kind", .text element.shape.kind) :: element.shape.fields := by
    rcases List.mem_cons.mp member with rfl | member
    · cases presents
      exact List.mem_cons_self
    rcases List.mem_cons.mp member with rfl | member
    · cases presents
      exact List.mem_cons_of_mem _ List.mem_cons_self
    obtain ⟨field, listed, rfl⟩ := List.mem_map.mp member
    cases presents
    exact List.mem_cons_of_mem _ (List.mem_cons_of_mem _ listed)
  have whole : Takable element.encode := (encode_faithful fits : Faithful 2 _).takable
  exact (Datum.allScalars_table.mp whole _ (List.mem_map_of_mem encoded)).2

theorem isTakable_of_presents {fields : List (Scalar × Datum)} (fits : element.IdsFit)
    (presents : element.Presents Takable (.table fields)) : isTakable fields = true := by
  rw [isTakable, List.all_eq_true]
  intro field member
  rw [Bool.or_eq_true]
  rcases presents.mem member with ⟨part, listed, _, presented⟩ | strange
  · exact Or.inr (takable_of_part fits listed presented)
  · exact Or.inr strange.bearable

theorem presents_encode (element : Element) : element.Presents bearable element.encode := by
  apply recordOf_record
  refine .cons ⟨rfl, rfl⟩ (.cons ⟨rfl, rfl⟩ ?_)
  rw [Shape.parts, List.forall₂_map_left_iff, List.forall₂_same]
  intro field _
  exact ⟨rfl, rfl⟩

theorem decode?_presented (standard : dialect.Standard) (fits : element.IdsFit)
    (presents : element.Presents Takable value) : decode? dialect value = some element := by
  obtain ⟨form, named, formFields, builds⟩ := Shape.form_of_takes fits.2
  have nodup := element.part_names_nodup
  obtain ⟨heads, read, all⟩ := presents.fields_take dialect
    [.due "id" (· = element.id.encode), .due "kind" (· = .text element.shape.kind)] nodup
    (by simp [Element.parts])
  obtain ⟨id?, tag?, rfl, id, tag⟩ := takes_two all
  have id := required_of_takes id (decode_of_eq (TreeId.decode?_encode standard fits.1))
  cases eq_some_of_takes tag
  obtain ⟨values, parts, shaped⟩ := presents.fields_take neutral element.shape.parts nodup
    fun part member => List.mem_cons_of_mem _ (List.mem_cons_of_mem _ member)
  rw [← formFields] at parts
  obtain ⟨fields, rfl⟩ : ∃ fields, value = .table fields := by
    cases presents
    exact ⟨_, rfl⟩
  have takable := isTakable_of_presents fits presents
  have tag : ShapeForm.ofTag? (.text element.shape.kind) = some form := named
  have heads : dialect.fields ["id", "kind"] (.table fields) =
      some [id?, some (.text element.shape.kind)] := read
  simp [decode?, heads, takable, tag, id, ShapeForm.read?, parts, builds values shaped]

/-- Whatever else an element has, a value that cannot be taken up spoils it. -/
theorem decode?_of_untakable {fields : List (Scalar × Datum)} {field : Scalar × Datum}
    (member : field ∈ fields) (beside : field.1.text ≠ "id") (untakable : ¬Takable field.2) :
    decode? dialect (.table fields) = none := by
  have refused : isTakable fields = false := by
    rw [← Bool.not_eq_true, isTakable, List.all_eq_true]
    intro takable
    have taken := takable field member
    rw [Bool.or_eq_true, decide_eq_true_eq] at taken
    exact taken.elim beside untakable
  cases heads : dialect.fields ["id", "kind"] (.table fields) with
  | none => simp [decode?, heads]
  | some values =>
      rcases values with _ | ⟨id, _ | ⟨_ | tag, _ | _⟩⟩
      all_goals simp [decode?, heads, refused]

end Element

/-! ## Trees -/

namespace SyntaxTree

structure IdsFit (tree : SyntaxTree) : Prop where
  elements : ∀ element ∈ tree.elements.toList, element.IdsFit
  root : TreeId.AllFit tree.root.toList

instance (tree : SyntaxTree) : Decidable tree.IdsFit :=
  decidable_of_iff ((∀ element ∈ tree.elements.toList, element.IdsFit) ∧
      TreeId.AllFit tree.root.toList)
    ⟨fun fits => ⟨fits.1, fits.2⟩, fun fits => ⟨fits.elements, fits.root⟩⟩

def parts (bearable : Datum → Prop) (tree : SyntaxTree) : List Part :=
  [.due "nodes" (ListOf (Element.Presents bearable) tree.elements.toList),
    ⟨"root", (· = TreeId.encodeOption tree.root), tree.root = none⟩]

/-- What a tree may be presented as, given the values of the unknown fields of its elements. -/
def Presents (bearable : Datum → Prop) (tree : SyntaxTree) : Datum → Prop :=
  RecordOf (tree.parts bearable) fun _ => True

variable {tree : SyntaxTree}

theorem encode_faithful {levels : Nat} (fits : tree.IdsFit) :
    Faithful (levels + 4) tree.encode := by
  have elements : Faithful (levels + 3) (.list (tree.elements.toList.map Element.encode)) :=
    faithful_items fun element member => Element.encode_faithful (fits.elements element member)
  have root : Faithful (levels + 3) (TreeId.encodeOption tree.root) :=
    TreeId.encodeOption_faithful fits.root
  apply faithful_record ["nodes", "root"] rfl (by decide)
  simp [elements, root]

theorem presents_encode (tree : SyntaxTree) : tree.Presents bearable tree.encode :=
  recordOf_record (.cons ⟨rfl, listOf_map Element.presents_encode _⟩ (.cons ⟨rfl, rfl⟩ .nil))

theorem decode?_presented (standard : dialect.Standard) (fits : tree.IdsFit)
    (presents : tree.Presents Takable value) : decode? dialect value = some tree := by
  obtain ⟨values, fields, all⟩ := presents.all_fields_take dialect (by simp [parts, Part.due])
  obtain ⟨nodes?, root?, rfl, nodes, root⟩ := takes_two all
  have fields : dialect.fields ["nodes", "root"] value = some [nodes?, root?] := fields
  have nodes : required (dialect.listOf (Element.decode? dialect)) nodes? =
      some tree.elements.toList :=
    required_of_takes nodes fun _ listed => listOf_presented listed fun element member _ =>
      Element.decode?_presented standard (fits.elements element member)
  have root : defaulted none (nullable (TreeId.decode? dialect)) root? = some tree.root :=
    defaulted_of_takes root (fun absent => absent)
      (decode_of_eq (TreeId.nullable_encodeOption standard fits.root))
  simp [decode?, fields, nodes, root]

theorem decode?_encode (standard : dialect.Standard) (fits : tree.IdsFit) :
    decode? dialect tree.encode = some tree :=
  decode?_presented standard fits tree.presents_encode

end SyntaxTree

end FlowLink
