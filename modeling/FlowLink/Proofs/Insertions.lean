import FlowLink.Proofs.Facts
import Mathlib.Data.List.Nodup

namespace FlowLink

open Std

/-! # Sequences of insertions

An analysis is a finite map from pairs of a class and a method, kept in two levels.  After any
sequence of insertions a pair has what was inserted for it last, or else what it had at the start,
and what was overwritten has left no trace.  A class stays listed once it is, with or without
methods, so that it counts as mentioned but not as analysed.
-/

/-- The facts of a method as they are handed to an analysis. -/
structure Insertion where
  classId : TreeId
  method : TreeId
  outputs : MethodFacts

def Insertion.isFor (insertion : Insertion) (classId method : TreeId) : Bool :=
  insertion.classId = classId ∧ insertion.method = method

/-- The outputs of the last insertion for a pair. -/
def latest? (insertions : List Insertion) (classId method : TreeId) : Option MethodFacts :=
  (insertions.filter fun insertion => insertion.isFor classId method).getLast?.map
    Insertion.outputs

variable {insertions earlier later : List Insertion} {insertion : Insertion}
  {classId method : TreeId}

theorem latest?_append :
    latest? (earlier ++ later) classId method =
      (latest? later classId method).or (latest? earlier classId method) := by
  simp only [latest?, List.filter_append, List.getLast?_append, Option.map_or]

theorem latest?_cons :
    latest? (insertion :: later) classId method =
      (latest? later classId method).or
        (if insertion.isFor classId method then some insertion.outputs else none) := by
  rw [← List.singleton_append, latest?_append]
  cases matched : insertion.isFor classId method <;> simp [latest?, matched]

theorem latest?_filter :
    latest? (insertions.filter fun insertion => insertion.isFor classId method) classId method =
      latest? insertions classId method := by
  simp only [latest?, List.filter_filter, Bool.and_self]

theorem latest?_eq_none
    (others : ∀ insertion ∈ insertions, insertion.isFor classId method = false) :
    latest? insertions classId method = none := by
  have none : (insertions.filter fun insertion => insertion.isFor classId method) = [] := by
    simpa [List.filter_eq_nil_iff] using others
  rw [latest?, none]
  rfl

theorem isSome_latest? (member : insertion ∈ insertions)
    (matched : insertion.isFor classId method = true) :
    (latest? insertions classId method).isSome = true := by
  rw [latest?, Option.isSome_map, List.getLast?_isSome]
  exact List.ne_nil_of_mem (List.mem_filter.mpr ⟨member, matched⟩)

namespace Analysis

variable {start left right : Analysis} {outputs : MethodFacts}

def insertAll (analysis : Analysis) (insertions : List Insertion) : Analysis :=
  insertions.foldl (fun analysis insertion =>
    analysis.insert insertion.classId insertion.method insertion.outputs) analysis

theorem insertAll_cons :
    start.insertAll (insertion :: later) =
      (start.insert insertion.classId insertion.method insertion.outputs).insertAll later := rfl

theorem get?_insertAll (start : Analysis) (insertions : List Insertion) (classId method : TreeId) :
    (start.insertAll insertions).get? classId method =
      (latest? insertions classId method).or (start.get? classId method) := by
  induction insertions generalizing start with
  | nil => rfl
  | cons insertion rest ih =>
      rw [insertAll_cons, ih, latest?_cons, get?_insert, Option.or_assoc]
      apply congrArg
      by_cases matched : insertion.classId = classId ∧ insertion.method = method
      · simp [Insertion.isFor, matched]
      · simp [Insertion.isFor, matched]

theorem mem_classes_insertAll :
    classId ∈ (start.insertAll insertions).classes ↔
      classId ∈ start.classes ∨ ∃ insertion ∈ insertions, insertion.classId = classId := by
  induction insertions generalizing start with
  | nil => simp [insertAll]
  | cons insertion rest ih =>
      rw [insertAll_cons, ih, insert, ExtTreeMap.mem_insert, Std.compare_eq_iff_eq]
      simp only [List.mem_cons, exists_eq_or_imp]
      tauto

/-- An analysis is the classes that it lists and what it has for each pair. -/
theorem ext_get? (classes : ∀ classId, classId ∈ left.classes ↔ classId ∈ right.classes)
    (recorded : ∀ classId method, left.get? classId method = right.get? classId method) :
    left = right := by
  have same : left.classes = right.classes := by
    apply ExtTreeMap.ext_getElem?
    intro classId
    have listed := classes classId
    have alike := recorded classId
    simp only [get?, methods] at alike
    simp only [ExtTreeMap.mem_iff_isSome_getElem?] at listed
    cases fromLeft : left.classes[classId]? with
    | none =>
        cases fromRight : right.classes[classId]? with
        | none => rfl
        | some _ => simp [fromLeft, fromRight] at listed
    | some _ =>
        cases fromRight : right.classes[classId]? with
        | none => simp [fromLeft, fromRight] at listed
        | some _ =>
            simp only [fromLeft, fromRight, Option.getD_some] at alike
            rw [ExtTreeMap.ext_getElem? alike]
  exact congrArg Analysis.mk same

/-! ## The pairs of an analysis -/

/-- The classes with their analysed methods. -/
def pairs (analysis : Analysis) : List (TreeId × TreeId) :=
  analysis.classes.toList.flatMap fun (classId, methods) =>
    methods.keys.map fun method => (classId, method)

theorem mem_pairs_iff : (classId, method) ∈ start.pairs ↔ (start.get? classId method).isSome := by
  rw [Option.isSome_iff_exists]
  simp only [get?_eq_some_iff, pairs, List.mem_flatMap, Prod.exists, List.mem_map, Prod.mk.injEq,
    ExtTreeMap.mem_toList_iff_getElem?_eq_some, ExtTreeMap.mem_keys,
    ExtTreeMap.mem_iff_isSome_getElem?, Option.isSome_iff_exists]
  constructor
  · rintro ⟨_, methods, listed, _, ⟨outputs, found⟩, rfl, rfl⟩
    exact ⟨outputs, methods, listed, found⟩
  · rintro ⟨outputs, methods, listed, found⟩
    exact ⟨classId, methods, listed, method, ⟨outputs, found⟩, rfl, rfl⟩

theorem pairs_nodup (analysis : Analysis) : analysis.pairs.Nodup := by
  rw [pairs, List.nodup_flatMap]
  constructor
  · intro entry _
    exact ExtTreeMap.nodup_keys.map fun _ _ same => (Prod.mk.inj same).2
  · apply ExtTreeMap.distinct_keys_toList.imp
    intro left right distinct pair fromLeft fromRight
    obtain ⟨_, _, rfl⟩ := List.mem_map.mp fromLeft
    obtain ⟨_, _, same⟩ := List.mem_map.mp fromRight
    exact distinct (Std.compare_eq_iff_eq.mpr (Prod.mk.inj same).1.symm)

theorem size_eq_length (analysis : Analysis) : analysis.size = analysis.pairs.length := by
  rw [size, ExtTreeMap.foldl_eq_foldl_toList, pairs, List.length_flatMap, List.sum_eq_foldl,
    List.foldl_map]
  simp only [List.length_map, ExtTreeMap.length_keys]

theorem isEmpty_iff :
    start.isEmpty = true ↔ ∀ classId method, start.get? classId method = none := by
  rw [isEmpty, decide_eq_true_iff, size_eq_length, List.length_eq_zero_iff,
    List.eq_nil_iff_forall_not_mem, Prod.forall]
  simp only [mem_pairs_iff, Option.not_isSome_iff_eq_none]

/-! ## The laws of insertion -/

/-- An insertion that a later one for the same pair overwrites might as well not have been made. -/
theorem insertAll_overwritten {old new : Insertion} {between : List Insertion}
    (sameClass : old.classId = new.classId) (sameMethod : old.method = new.method) :
    start.insertAll (earlier ++ old :: (between ++ new :: later)) =
      start.insertAll (earlier ++ (between ++ new :: later)) := by
  apply ext_get?
  · intro classId
    simp only [mem_classes_insertAll, List.mem_append, List.mem_cons]
    grind
  · intro classId method
    rw [get?_insertAll, get?_insertAll, latest?_append, latest?_append, latest?_cons]
    cases matched : old.isFor classId method with
    | false => simp
    | true =>
        have again : new.isFor classId method = true := by
          rwa [Insertion.isFor, ← sameClass, ← sameMethod]
        have known : (latest? (between ++ new :: later) classId method).isSome = true :=
          isSome_latest? (by simp) again
        obtain ⟨outputs, found⟩ := Option.isSome_iff_exists.mp known
        simp [found]

/-- What may be relied on after a sequence of insertions, whatever they are. -/
structure Overlaid (start : Analysis) (insertions : List Insertion) (final : Analysis) : Prop where
  last : ∀ earlier insertion later, insertions = earlier ++ insertion :: later →
    (∀ other ∈ later, other.isFor insertion.classId insertion.method = false) →
      final.get? insertion.classId insertion.method = some insertion.outputs
  kept : ∀ classId method,
    (∀ insertion ∈ insertions, insertion.isFor classId method = false) →
      final.get? classId method = start.get? classId method
  /-- Only the insertions for a pair have a part in what it has. -/
  apart : ∀ classId method, final.get? classId method =
    (start.insertAll (insertions.filter fun insertion =>
      insertion.isFor classId method)).get? classId method
  counted : final.size = final.pairs.length ∧ final.pairs.Nodup ∧
    ∀ classId method, (classId, method) ∈ final.pairs ↔ (final.get? classId method).isSome
  vacant : final.isEmpty = true ↔ ∀ classId method, final.get? classId method = none
  mentioned : ∀ id, id ∈ final.mentioned ↔ final.Mentions id
  /-- A class stays listed, even if it never had a method. -/
  listed : ∀ classId, classId ∈ final.classes ↔
    classId ∈ start.classes ∨ ∃ insertion ∈ insertions, insertion.classId = classId
  /-- What was overwritten leaves no trace, also not among the mentioned ids. -/
  overwritten : ∀ earlier old between new later,
    insertions = earlier ++ old :: (between ++ new :: later) →
      old.classId = new.classId → old.method = new.method →
        final = start.insertAll (earlier ++ (between ++ new :: later))

/-- From any analysis, insertions in any order and number make it the finite map that has the last
outputs inserted for each pair, or else those of the start. -/
theorem insertAll_overlaid (start : Analysis) (insertions : List Insertion) :
    start.Overlaid insertions (start.insertAll insertions) where
  last earlier insertion later split others := by
    have matched : insertion.isFor insertion.classId insertion.method = true := by
      simp [Insertion.isFor]
    rw [get?_insertAll, split, latest?_append, latest?_cons, latest?_eq_none others, matched,
      if_pos rfl, Option.none_or, Option.some_or, Option.some_or]
  kept classId method others := by
    rw [get?_insertAll, latest?_eq_none others, Option.none_or]
  apart classId method := by
    rw [get?_insertAll, get?_insertAll, latest?_filter]
  counted := ⟨size_eq_length _, pairs_nodup _, fun _ _ => mem_pairs_iff⟩
  vacant := isEmpty_iff
  mentioned _ := mem_mentioned_iff
  listed _ := mem_classes_insertAll
  overwritten earlier old between new later split sameClass sameMethod := by
    rw [split, insertAll_overwritten sameClass sameMethod]

/-- The first outputs are overwritten, and with them goes the only mention of their candidate. -/
example :
    let candidates : List TreeId := [⟨9⟩]
    let points : List (TreeId × CandidateSet) := [(⟨3⟩, ∅), (⟨4⟩, .ofList candidates)]
    let early : MethodFacts := ⟨.ofList points, ∅⟩
    let late : MethodFacts := ⟨∅, .ofList (points.take 1)⟩
    let final := empty.insertAll [⟨⟨1⟩, ⟨2⟩, early⟩, ⟨⟨2⟩, ⟨1⟩, late⟩, ⟨⟨1⟩, ⟨2⟩, late⟩]
    final.mentioned.toList = [⟨1⟩, ⟨2⟩, ⟨3⟩] ∧ final.size = 2 := by
  decide

end Analysis

end FlowLink
