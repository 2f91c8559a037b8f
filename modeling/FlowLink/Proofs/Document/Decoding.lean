import FlowLink.Document.Decoding
import Mathlib.Data.Option.Basic

namespace FlowLink

open Std

/-! # Decoding what was encoded

Each decoder undoes the encoding it is for, in every dialect that takes texts for strings and
natural numbers for ids.  Lists, sets and maps are decoded if their parts are.
-/

namespace Dialect

structure Standard (dialect : Dialect) : Prop where
  text : ∀ value, dialect.string? (.ofText value) = some value
  natural : ∀ value, value < wordLimit → dialect.id? (.natural value) = some value

theorem naturalId_of_small {value : Nat} (small : value < wordLimit) :
    naturalId (.natural value) = some value := by
  simp [naturalId, small]

theorem json_standard : json.Standard := ⟨fun _ => rfl, fun _ => naturalId_of_small⟩

theorem yaml_standard : yaml.Standard := ⟨fun _ => rfl, fun _ => naturalId_of_small⟩

theorem neutral_standard : neutral.Standard := ⟨fun _ => rfl, fun _ => naturalId_of_small⟩

variable {α β γ κ : Type} {dialect : Dialect}

theorem mapM_map_of_forall {encode : α → β} {decode : β → Option γ} {result : α → γ}
    {items : List α} (decodes : ∀ item ∈ items, decode (encode item) = some (result item)) :
    (items.map encode).mapM decode = some (items.map result) := by
  induction items with
  | nil => rfl
  | cons item items ih =>
      rw [List.map_cons, List.mapM_cons, decodes item List.mem_cons_self,
        ih fun item member => decodes item (List.mem_cons_of_mem _ member)]
      rfl

theorem mapM_map_inverse {encode : α → β} {decode : β → Option α} {items : List α}
    (inverse : ∀ item ∈ items, decode (encode item) = some item) :
    (items.map encode).mapM decode = some items := by
  have decoded : (items.map encode).mapM decode = some (items.map id) :=
    mapM_map_of_forall inverse
  rwa [List.map_id] at decoded

theorem listOf_encode {encode : α → Datum} {decode : Datum → Option α} {items : List α}
    (inverse : ∀ item ∈ items, decode (encode item) = some item) :
    dialect.listOf decode (.list (items.map encode)) = some items :=
  mapM_map_inverse inverse

section

variable [DecidableEq α] [Ord α] [TransOrd α] [LawfulEqOrd α]

theorem set_ofList_toList (set : ExtTreeSet α) : ExtTreeSet.ofList set.toList = set := by
  apply ExtTreeSet.ext_mem
  intro member
  rw [ExtTreeSet.mem_ofList, List.contains_iff_mem, ExtTreeSet.mem_toList]

theorem setOf_encode {encode : α → Datum} {decode : Datum → Option α} {set : ExtTreeSet α}
    (inverse : ∀ member ∈ set.toList, decode (encode member) = some member) :
    dialect.setOf decode (.list (set.toList.map encode)) = some set := by
  rw [setOf, listOf_encode inverse, Option.map_some, set_ofList_toList]

end

section

variable [DecidableEq κ] [Ord κ] [TransOrd κ] [LawfulEqOrd κ]

/-- The entries of a map make up the map again, in whatever order they come. -/
theorem map_ofList_of_perm {map : ExtTreeMap κ α} {entries : List (κ × α)}
    (order : entries.Perm map.toList) : ExtTreeMap.ofList entries = map := by
  have distinct : entries.Pairwise fun left right => ¬compare left.1 right.1 = .eq :=
    order.symm.pairwise ExtTreeMap.distinct_keys_toList fun apart same =>
      apart (OrientedCmp.eq_symm same)
  apply ExtTreeMap.ext_getElem?
  intro key
  cases found : map[key]? with
  | some value =>
      exact ExtTreeMap.getElem?_ofList_of_mem compare_self distinct
        (order.mem_iff.mpr (ExtTreeMap.mem_toList_iff_getElem?_eq_some.mpr found))
  | none =>
      apply ExtTreeMap.getElem?_ofList_of_contains_eq_false
      rw [← Bool.not_eq_true, List.contains_iff_mem, List.mem_map]
      intro listed
      obtain ⟨⟨_, value⟩, member, rfl⟩ := listed
      rw [order.mem_iff, ExtTreeMap.mem_toList_iff_getElem?_eq_some] at member
      rw [found] at member
      contradiction

end

/-! ## Records -/

theorem valuesOf_record_of_absent {fields : List (String × Datum)} {name : String}
    (absent : name ∉ fields.map Prod.fst) :
    valuesOf name (fields.map fun field => (.ofText field.1, field.2)) = [] := by
  simp only [valuesOf, List.map_eq_nil_iff, List.filter_eq_nil_iff, List.mem_map,
    decide_eq_true_eq]
  intro written listed
  obtain ⟨field, member, rfl⟩ := listed
  intro same
  exact absent (List.mem_map.mpr ⟨field, member, same⟩)

theorem valuesOf_record {fields : List (String × Datum)} {name : String} {value : Datum}
    (nodup : (fields.map Prod.fst).Nodup) (member : (name, value) ∈ fields) :
    valuesOf name (fields.map fun field => (.ofText field.1, field.2)) = [value] := by
  induction fields with
  | nil => simp at member
  | cons field fields ih =>
      rw [List.map_cons, List.nodup_cons] at nodup
      rcases List.mem_cons.mp member with rfl | later
      · have rest := valuesOf_record_of_absent nodup.1
        simpa [valuesOf, Scalar.ofText] using rest
      · have other : field.1 ≠ name := by
          intro same
          exact nodup.1 (List.mem_map.mpr ⟨(name, value), later, same.symm⟩)
        simpa [valuesOf, Scalar.ofText, other] using ih nodup.2 later

theorem fields_whole_record (fields : List (String × Datum))
    (nodup : (fields.map Prod.fst).Nodup) :
    dialect.fields (fields.map Prod.fst) (.record fields) =
      some (fields.map fun field => some field.2) := by
  have named : (fields.map fun field => (Scalar.ofText field.1, field.2)).all
      (fun field => isName field.1) = true := by
    simp [isName, Scalar.ofText]
  have found : (fields.map Prod.fst).mapM
      (fieldOf (fields.map fun field => (Scalar.ofText field.1, field.2))) =
        some (fields.map fun field => some field.2) := by
    apply mapM_map_of_forall
    intro field member
    rw [fieldOf, valuesOf_record nodup member]
  unfold Dialect.fields Datum.record
  simp only [Dialect.entries, Option.bind_eq_bind, Option.bind_some, named, guard]
  exact found

end Dialect

end FlowLink
