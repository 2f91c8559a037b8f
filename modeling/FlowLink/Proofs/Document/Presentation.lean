import FlowLink.Proofs.Document.Decoding
import Mathlib.Data.List.Perm.Basic

namespace FlowLink

open Std Dialect

/-! # Presentations of records

The same record may be presented in many ways.  Its fields may come in any order and with others
among them, and a field may be missing that holds what a missing one stands for.  A structure is
described by its parts here; decoding it finds every part, or finds that it is missing.
-/

/-- A field of a structure, with the values that present what it holds. -/
structure Part where
  name : String
  presents : Datum → Prop
  /-- The field holds what it stands for when it is missing. -/
  omissible : Prop

namespace Part

/-- A field that has no value when it is missing. -/
def due (name : String) (presents : Datum → Prop) : Part := ⟨name, presents, False⟩

/-- The field may have this value, or none. -/
def Takes (part : Part) : Option Datum → Prop
  | some value => part.presents value
  | none => part.omissible

end Part

/-- Fields for the parts in their order, of which some that are omissible are missing. -/
inductive Row : List Part → List (Scalar × Datum) → Prop
  | nil : Row [] []
  | given {part : Part} {parts : List Part} {value : Datum} {fields : List (Scalar × Datum)}
      (presents : part.presents value) (rest : Row parts fields) :
      Row (part :: parts) ((.ofText part.name, value) :: fields)
  | omitted {part : Part} {parts : List Part} {fields : List (Scalar × Datum)}
      (omissible : part.omissible) (rest : Row parts fields) : Row (part :: parts) fields

/-- A field with a name that a structure does not know, and a value that it puts up with. -/
structure Stranger (parts : List Part) (bearable : Datum → Prop) (field : Scalar × Datum) :
    Prop where
  named : isName field.1 = true
  unknown : field.1.text ∉ parts.map Part.name
  bearable : bearable field.2

/-- A table of fields for the parts and of unknown ones, in any order. -/
inductive RecordOf (parts : List Part) (bearable : Datum → Prop) : Datum → Prop
  | table {row strangers fields : List (Scalar × Datum)} (complete : Row parts row)
      (strange : ∀ field ∈ strangers, Stranger parts bearable field)
      (order : fields.Perm (row ++ strangers)) : RecordOf parts bearable (.table fields)

/-- A list of presentations of the items. -/
inductive ListOf {α : Type} (presents : α → Datum → Prop) (items : List α) : Datum → Prop
  | list {values : List Datum} (all : List.Forall₂ presents items values) :
      ListOf presents items (.list values)

/-- A table of presentations of the entries, under their ids and in any order. -/
inductive TableOf {α κ : Type} (index : κ → Nat) (presents : κ → α → Datum → Prop)
    (entries : List (κ × α)) : Datum → Prop
  | table {row fields : List (Scalar × Datum)}
      (all : List.Forall₂ (fun entry field =>
        field.1 = .ofNat (index entry.1) ∧ presents entry.1 entry.2 field.2) entries row)
      (order : fields.Perm row) : TableOf index presents entries (.table fields)

variable {α κ : Type} {part : Part} {parts : List Part} {bearable : Datum → Prop}
variable {value : Datum} {row fields : List (Scalar × Datum)}

/-! ## Finding the parts of a record -/

theorem valuesOf_append (name : String) (first second : List (Scalar × Datum)) :
    valuesOf name (first ++ second) = valuesOf name first ++ valuesOf name second := by
  rw [valuesOf, List.filter_append, List.map_append, valuesOf, valuesOf]

theorem valuesOf_perm {other : List (Scalar × Datum)} (order : fields.Perm other) (name : String) :
    (valuesOf name fields).Perm (valuesOf name other) :=
  (order.filter _).map _

theorem valuesOf_of_absent {name : String} (absent : ∀ field ∈ fields, field.1.text ≠ name) :
    valuesOf name fields = [] := by
  rw [valuesOf, List.map_eq_nil_iff, List.filter_eq_nil_iff]
  intro field member
  rw [decide_eq_true_eq]
  exact absent field member

namespace Row

theorem mem (complete : Row parts row) {field : Scalar × Datum} (member : field ∈ row) :
    ∃ part ∈ parts, field.1 = .ofText part.name ∧ part.presents field.2 := by
  induction complete with
  | nil => contradiction
  | given presents _ ih =>
      rcases List.mem_cons.mp member with rfl | member
      · exact ⟨_, List.mem_cons_self, rfl, presents⟩
      · obtain ⟨part, listed, found⟩ := ih member
        exact ⟨part, List.mem_cons_of_mem _ listed, found⟩
  | omitted _ _ ih =>
      obtain ⟨part, listed, found⟩ := ih member
      exact ⟨part, List.mem_cons_of_mem _ listed, found⟩

theorem absent (complete : Row parts row) {name : String} (unknown : name ∉ parts.map Part.name) :
    valuesOf name row = [] := by
  apply valuesOf_of_absent
  intro field member same
  obtain ⟨part, listed, named, _⟩ := complete.mem member
  rw [named] at same
  exact unknown (List.mem_map.mpr ⟨part, listed, same⟩)

/-- The row has one value for a part, or none. -/
theorem found (complete : Row parts row) (nodup : (parts.map Part.name).Nodup)
    (member : part ∈ parts) :
    ∃ value?, part.Takes value? ∧ valuesOf part.name row = value?.toList := by
  induction complete with
  | nil => contradiction
  | @given first parts value rest presents complete ih =>
      rw [List.map_cons, List.nodup_cons] at nodup
      rcases List.mem_cons.mp member with rfl | later
      · refine ⟨some value, presents, ?_⟩
        have others := complete.absent nodup.1
        simpa [valuesOf, Scalar.ofText] using others
      · obtain ⟨value?, takes, values⟩ := ih nodup.2 later
        have other : first.name ≠ part.name := by
          intro same
          exact nodup.1 (List.mem_map.mpr ⟨part, later, same.symm⟩)
        refine ⟨value?, takes, ?_⟩
        simpa [valuesOf, Scalar.ofText, other] using values
  | omitted omissible complete ih =>
      rw [List.map_cons, List.nodup_cons] at nodup
      rcases List.mem_cons.mp member with rfl | later
      · exact ⟨none, omissible, complete.absent nodup.1⟩
      · exact ih nodup.2 later

end Row

theorem fieldOf_of_perm {name : String} {value? : Option Datum}
    (values : (valuesOf name fields).Perm value?.toList) : fieldOf fields name = some value? := by
  cases value? with
  | none => rw [fieldOf, values.eq_nil]
  | some value => rw [fieldOf, List.perm_singleton.mp values]

namespace RecordOf

theorem mem (presents : RecordOf parts bearable (.table fields)) {field : Scalar × Datum}
    (member : field ∈ fields) :
    (∃ part ∈ parts, field.1 = .ofText part.name ∧ part.presents field.2) ∨
      Stranger parts bearable field := by
  obtain ⟨complete, strange, order⟩ := presents
  rcases List.mem_append.mp (order.mem_iff.mp member) with member | member
  · exact Or.inl (complete.mem member)
  · exact Or.inr (strange field member)

theorem isName_of_mem (presents : RecordOf parts bearable (.table fields)) :
    fields.all (fun field => isName field.1) = true := by
  rw [List.all_eq_true]
  intro field member
  rcases presents.mem member with ⟨part, _, named, _⟩ | strange
  · rw [named]
    rfl
  · exact strange.named

theorem fieldOf_part (presents : RecordOf parts bearable (.table fields))
    (nodup : (parts.map Part.name).Nodup) (member : part ∈ parts) :
    ∃ value?, fieldOf fields part.name = some value? ∧ part.Takes value? := by
  obtain ⟨complete, strange, order⟩ := presents
  obtain ⟨value?, takes, values⟩ := complete.found nodup member
  have others : valuesOf part.name _ = [] := valuesOf_of_absent fun field listed same =>
    (strange field listed).unknown (same ▸ List.mem_map_of_mem member)
  have all := valuesOf_perm order part.name
  rw [valuesOf_append, values, others, List.append_nil] at all
  exact ⟨value?, fieldOf_of_perm all, takes⟩

/-- Every part that is asked for is found, or may be missing and is. -/
theorem fields_take (dialect : Dialect) (wanted : List Part)
    (presents : RecordOf parts bearable value) (nodup : (parts.map Part.name).Nodup)
    (within : ∀ part ∈ wanted, part ∈ parts) :
    ∃ values, dialect.fields (wanted.map Part.name) value = some values ∧
      List.Forall₂ Part.Takes wanted values := by
  obtain ⟨fields, rfl⟩ : ∃ fields, value = .table fields := by
    cases presents
    exact ⟨_, rfl⟩
  have found : ∃ values, (wanted.map Part.name).mapM (fieldOf fields) = some values ∧
      List.Forall₂ Part.Takes wanted values := by
    induction wanted with
    | nil => exact ⟨[], rfl, .nil⟩
    | cons part wanted ih =>
        obtain ⟨value?, first, takes⟩ :=
          presents.fieldOf_part nodup (within part List.mem_cons_self)
        obtain ⟨values, later, all⟩ :=
          ih fun part member => within part (List.mem_cons_of_mem _ member)
        refine ⟨value? :: values, ?_, .cons takes all⟩
        rw [List.map_cons, List.mapM_cons, first, later]
        rfl
  obtain ⟨values, read, all⟩ := found
  refine ⟨values, ?_, all⟩
  simp only [Dialect.fields, Dialect.entries, Option.bind_eq_bind, Option.bind_some,
    presents.isName_of_mem, guard]
  exact read

theorem all_fields_take (dialect : Dialect) (presents : RecordOf parts bearable value)
    (nodup : (parts.map Part.name).Nodup) :
    ∃ values, dialect.fields (parts.map Part.name) value = some values ∧
      List.Forall₂ Part.Takes parts values :=
  presents.fields_take dialect parts nodup fun _ member => member

end RecordOf

theorem takes_two {first second : Part} {values : List (Option Datum)}
    (all : List.Forall₂ Part.Takes [first, second] values) :
    ∃ value? other?, values = [value?, other?] ∧ first.Takes value? ∧ second.Takes other? := by
  obtain _ | ⟨found, _ | ⟨next, _ | _⟩⟩ := all
  exact ⟨_, _, rfl, found, next⟩

theorem takes_three {first second third : Part} {values : List (Option Datum)}
    (all : List.Forall₂ Part.Takes [first, second, third] values) :
    ∃ value? other? last?, values = [value?, other?, last?] ∧ first.Takes value? ∧
      second.Takes other? ∧ third.Takes last? := by
  obtain _ | ⟨found, _ | ⟨next, _ | ⟨last, _ | _⟩⟩⟩ := all
  exact ⟨_, _, _, rfl, found, next, last⟩

/-! ## Encodings as presentations -/

theorem recordOf_append (strangers : List (Scalar × Datum)) (complete : Row parts row)
    (strange : ∀ field ∈ strangers, Stranger parts bearable field) :
    RecordOf parts bearable (.table (row ++ strangers)) :=
  .table complete strange (List.Perm.refl _)

theorem recordOf_reverse (strangers : List (Scalar × Datum)) (complete : Row parts row)
    (strange : ∀ field ∈ strangers, Stranger parts bearable field) :
    RecordOf parts bearable (.table (row ++ strangers).reverse) :=
  .table complete strange (List.reverse_perm _)

/-- A record that has all its fields, in their order, presents its parts. -/
theorem recordOf_record {fields : List (String × Datum)}
    (given : List.Forall₂ (fun part field => part.name = field.1 ∧ part.presents field.2)
      parts fields) : RecordOf parts bearable (.record fields) := by
  have complete : Row parts (fields.map fun field => (Scalar.ofText field.1, field.2)) := by
    induction given with
    | nil => exact .nil
    | cons first _ ih =>
        rw [List.map_cons, ← first.1]
        exact .given first.2 ih
  exact .table complete (List.forall_mem_nil _) (by rw [List.append_nil])

theorem listOf_map {presents : α → Datum → Prop} {encode : α → Datum}
    (presented : ∀ item, presents item (encode item)) (items : List α) :
    ListOf presents items (.list (items.map encode)) := by
  apply ListOf.list
  rw [List.forall₂_map_right_iff, List.forall₂_same]
  intro item _
  exact presented item

theorem tableOf_table {index : κ → Nat} {presents : κ → α → Datum → Prop}
    {encode : κ → α → Datum} (order : FieldOrder)
    (presented : ∀ key content, presents key content (encode key content))
    (entries : List (κ × α)) :
    TableOf index presents entries (order.table index encode entries) := by
  refine .table ?_ (order.perm _)
  rw [List.forall₂_map_right_iff, List.forall₂_same]
  intro entry _
  exact ⟨rfl, presented entry.1 entry.2⟩

theorem tableOf_encoded {index : κ → Nat} (encode : κ → α → Datum) (order : FieldOrder)
    (entries : List (κ × α)) :
    TableOf index (fun key content value => value = encode key content) entries
      (order.table index encode entries) := by
  apply tableOf_table
  intro key content
  rfl

/-! ## Decoding the parts -/

namespace Dialect

variable {dialect : Dialect} {decode : Datum → Option α}

section

variable {content : α} {name : String} {presents : Datum → Prop} {value? : Option Datum}

theorem required_of_takes (takes : (Part.due name presents).Takes value?)
    (decodes : ∀ value, presents value → decode value = some content) :
    required decode value? = some content := by
  cases value? with
  | none => exact takes.elim
  | some value => exact decodes value takes

theorem defaulted_of_takes {fallback : α} {omissible : Prop}
    (takes : (Part.mk name presents omissible).Takes value?)
    (standard : omissible → content = fallback)
    (decodes : ∀ value, presents value → decode value = some content) :
    defaulted fallback decode value? = some content := by
  cases value? with
  | none => exact congrArg some (standard takes).symm
  | some value => exact decodes value takes

theorem eq_some_of_takes {written : Datum} (takes : (Part.due name (· = written)).Takes value?) :
    value? = some written := by
  cases value? with
  | none => exact takes.elim
  | some value => exact congrArg some takes

theorem decode_of_eq {written : Datum} (decodes : decode written = some content) :
    ∀ value, value = written → decode value = some content := by
  intro value same
  rw [same, decodes]

end

variable {presents : α → Datum → Prop}

theorem mapM_of_forall₂ {β : Type} {presents : α → β → Prop} {decode : β → Option α}
    {items : List α} {values : List β} (all : List.Forall₂ presents items values)
    (decodes : ∀ item ∈ items, ∀ value, presents item value → decode value = some item) :
    values.mapM decode = some items := by
  induction all with
  | nil => rfl
  | cons first _ ih =>
      rw [List.mapM_cons, decodes _ List.mem_cons_self _ first,
        ih fun item member => decodes item (List.mem_cons_of_mem _ member)]
      rfl

theorem listOf_presented {items : List α} (list : ListOf presents items value)
    (decodes : ∀ item ∈ items, ∀ value, presents item value → decode value = some item) :
    dialect.listOf decode value = some items := by
  obtain ⟨all⟩ := list
  exact mapM_of_forall₂ all decodes

section

variable [DecidableEq κ] [Ord κ] [TransOrd κ] [LawfulEqOrd κ]
variable {key : Nat → κ} {index : κ → Nat} {map : ExtTreeMap κ α}

theorem mapOf_presented {presents : κ → α → Datum → Prop}
    (table : TableOf index presents map.toList value)
    (addressed : ∀ k, key (index k) = k) (small : ∀ entry ∈ map.toList, index entry.1 < wordLimit)
    (decodes : ∀ entry ∈ map.toList, ∀ value, presents entry.1 entry.2 value →
      decode value = some entry.2) : dialect.mapOf key decode value = some map := by
  obtain ⟨all, order⟩ := table
  rename_i row fields
  -- The fields present the entries in an order of their own, in which these are decoded.
  obtain ⟨listed, presented, entries⟩ := List.perm_comp_forall₂ order all.flip
  have read : fields.mapM (mapEntry key decode) = some listed := by
    apply mapM_of_forall₂ presented.flip
    intro entry member field named
    have member := entries.mem_iff.mp member
    rw [mapEntry, named.1, Scalar.ofNat, naturalId_of_small (small entry member),
      decodes entry member field.2 named.2]
    simp [addressed]
  rw [mapOf, Dialect.entries, Option.bind_some, read, Option.map_some, map_ofList_of_perm entries]

end

end Dialect

end FlowLink
