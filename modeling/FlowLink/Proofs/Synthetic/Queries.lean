import FlowLink.Proofs.Facts
import FlowLink.Proofs.Synthetic.Traversal
import Mathlib.Data.List.ProdSigma

namespace FlowLink.Synthetic

open Std SyntaxTree FeatureGraph

/-! # What the facts of synthetic units say

The facts name one element for each read, which is the declaration or what was assigned last.  They
say nothing else, so every other question that a site puts to them is without an answer.
-/

variable {methods steps number other step first : Nat} {id outer : TreeId} {known : MethodFacts}
  {candidates : CandidateSet} {naming : Naming} {query : Query}

/-! ## Facts -/

theorem getElem?_facts {count : Nat} :
    (facts first count)[id]? = some candidates ↔
      ∃ step < count, id = ⟨first + 6 * step + 1⟩ ∧
        candidates = .ofList [TreeId.mk (written first step)] := by
  induction count with
  | zero => simp [facts]
  | succ count ih =>
      simp only [facts, ExtTreeMap.getElem?_insert, Std.compare_eq_iff_eq]
      split
      next here =>
        subst here
        constructor
        · intro recorded
          cases recorded
          exact ⟨count, Nat.lt_succ_self _, rfl, rfl⟩
        · intro recorded
          obtain ⟨step, _, same, rfl⟩ := recorded
          have sameStep : count = step := by
            have places : first + 6 * count + 1 = first + 6 * step + 1 := congrArg TreeId.index same
            omega
          rw [sameStep]
      next elsewhere =>
        rw [ih]
        constructor
        · intro recorded
          obtain ⟨step, bound, rest⟩ := recorded
          exact ⟨step, Nat.lt_succ_of_lt bound, rest⟩
        · intro recorded
          obtain ⟨step, bound, rfl, rest⟩ := recorded
          rcases Nat.lt_succ_iff_lt_or_eq.mp bound with earlier | rfl
          · exact ⟨step, earlier, rfl, rest⟩
          · exact absurd rfl elsewhere

theorem get?_recorded {unitClass : TreeId} :
    (recorded unitClass steps methods).get? outer id = some known ↔
      outer = unitClass ∧ ∃ number < methods, id = method steps number ∧
        known = outputs steps number := by
  induction methods with
  | zero => simp [recorded, Analysis.empty, Analysis.get?, Analysis.methods]
  | succ methods ih =>
      rw [recorded, Analysis.get?_insert]
      split
      next here =>
        obtain ⟨rfl, rfl⟩ := here
        constructor
        · intro recorded
          cases recorded
          exact ⟨rfl, methods, Nat.lt_succ_self _, rfl, rfl⟩
        · intro recorded
          obtain ⟨_, number, _, same, rfl⟩ := recorded
          rw [method_injective same]
      next elsewhere =>
        rw [ih]
        constructor
        · intro recorded
          obtain ⟨isClass, number, bound, rest⟩ := recorded
          exact ⟨isClass, number, Nat.lt_succ_of_lt bound, rest⟩
        · intro recorded
          obtain ⟨rfl, number, bound, rfl, rest⟩ := recorded
          rcases Nat.lt_succ_iff_lt_or_eq.mp bound with earlier | rfl
          · exact ⟨rfl, number, earlier, rfl, rest⟩
          · exact absurd ⟨rfl, rfl⟩ elsewhere

/-- The latest write that the facts name for the read of a step. -/
def chained (steps number step : Nat) : Naming :=
  ⟨⟨start steps number + 6 * step + 1⟩, .lastWrite, ⟨written (start steps number) step⟩⟩

theorem candidates?_outputs {kind : FactKind} :
    (outputs steps number).candidates? kind id = some candidates ↔
      kind = .lastWrite ∧ ∃ step ≤ steps, id = ⟨start steps number + 6 * step + 1⟩ ∧
        candidates = .ofList [TreeId.mk (written (start steps number) step)] := by
  cases kind with
  | lastWrite =>
      refine getElem?_facts.trans ?_
      simp only [true_and, Nat.lt_succ_iff]
  | lastUse =>
      have unrecorded : (outputs steps number).candidates? .lastUse id = none :=
        ExtTreeMap.getElem?_empty
      simp [unrecorded]

/-! ## Questions and answers -/

theorem mem_namings_tree_iff :
    naming ∈ (tree methods steps).namings (analysis methods steps) (unitId methods steps) ↔
      ∃ number < methods, ∃ step ≤ steps, naming = chained steps number step := by
  rw [mem_namings_iff_processes (root_tree methods steps)]
  simp only [mem_getD_iff, get?_recorded]
  constructor
  · intro named
    obtain ⟨_, _, _, _, ⟨_, number, declared, _, rfl⟩, candidates, recorded, member⟩ := named
    obtain ⟨isWrite, step, within, isRead, rfl⟩ := candidates?_outputs.mp recorded
    obtain ⟨site, kind, candidate⟩ := naming
    cases isWrite
    cases isRead
    cases mem_singleton_ofList.mp member
    exact ⟨number, declared, step, within, rfl⟩
  · intro named
    obtain ⟨number, declared, step, within, rfl⟩ := named
    exact ⟨_, _, _, processes_read declared within, ⟨rfl, number, declared, rfl, rfl⟩, _,
      candidates?_outputs.mpr ⟨rfl, step, within, rfl, rfl⟩, mem_singleton_ofList.mpr rfl⟩

/-- The latest writes of all reads. -/
def chains (methods steps : Nat) : List Naming :=
  (List.range methods ×ˢ List.range (steps + 1)).map fun (number, step) => chained steps number step

theorem mem_chains_iff :
    naming ∈ chains methods steps ↔
      ∃ number < methods, ∃ step ≤ steps, naming = chained steps number step := by
  simp only [chains, List.mem_map, List.mem_product, List.mem_range, Nat.lt_succ_iff, Prod.exists]
  constructor
  · intro listed
    obtain ⟨number, step, ⟨declared, within⟩, rfl⟩ := listed
    exact ⟨number, declared, step, within, rfl⟩
  · intro listed
    obtain ⟨number, declared, step, within, rfl⟩ := listed
    exact ⟨number, step, ⟨declared, within⟩, rfl⟩

theorem chained_injective {later : Nat} (within : step ≤ steps) (within' : later ≤ steps)
    (same : (chained steps number step).site = (chained steps other later).site) :
    number = other ∧ step = later := by
  have equal : start steps number + 6 * step + 1 = start steps other + 6 * later + 1 :=
    congrArg TreeId.index same
  have first : start steps number ≤ start steps number + 6 * step := Nat.le_add_right _ _
  have sameMethod : number = other := number_unique first (by omega) (by omega) (by omega)
  subst sameMethod
  exact ⟨rfl, by omega⟩

theorem chains_nodup (methods steps : Nat) : (chains methods steps).Nodup := by
  apply List.Nodup.map_on _ (List.nodup_range.product List.nodup_range)
  rintro ⟨number, step⟩ listed ⟨other, later⟩ listed' same
  simp only [List.mem_product, List.mem_range] at listed listed'
  obtain ⟨rfl, rfl⟩ := chained_injective (Nat.le_of_lt_succ listed.2)
    (Nat.le_of_lt_succ listed'.2) (congrArg Naming.site same)
  rfl

theorem length_chains (methods steps : Nat) :
    (chains methods steps).length = methods * (steps + 1) := by
  rw [chains, List.length_map, List.length_product, List.length_range, List.length_range]

theorem namings_perm (methods steps : Nat) :
    ((tree methods steps).namings (analysis methods steps) (unitId methods steps)).Perm
      (chains methods steps) := by
  apply (List.perm_ext_iff_of_nodup namings_nodup (chains_nodup methods steps)).mpr
  intro naming
  rw [mem_namings_tree_iff, mem_chains_iff]

theorem outputs?_of_site {scope : Scope}
    (visited : (id, scope) ∈ (tree methods steps).sites (unitId methods steps)) :
    ∃ number, scope.outputs? (analysis methods steps) = some (outputs steps number) := by
  obtain ⟨number, declared, enclosed⟩ := enclosed_of_site visited
  refine ⟨number, ?_⟩
  rw [Scope.outputs?, enclosed]
  exact get?_recorded.mpr ⟨rfl, number, declared, rfl, rfl⟩

theorem length_queries (methods steps : Nat) :
    ((tree methods steps).queries (analysis methods steps) (unitId methods steps)).length =
      methods * (2 * steps + 2) * 2 := by
  have both : ∀ visit ∈ (tree methods steps).sites (unitId methods steps),
      (siteQueries (analysis methods steps) visit).length = 2 := by
    rintro ⟨id, scope⟩ visited
    obtain ⟨number, analysed⟩ := outputs?_of_site visited
    rw [siteQueries, analysed]
    rfl
  rw [queries, List.length_flatMap, List.map_congr_left both, List.map_const',
    List.sum_replicate_nat, length_sites]

/-- A question is answered with one candidate, if at all. -/
theorem length_namings_of_query
    (asked : query ∈ (tree methods steps).queries (analysis methods steps) (unitId methods steps)) :
    query.namings.length = query.entry.isSome.toNat := by
  obtain ⟨_, _, _, _, _, _, analysed, answers⟩ := mem_queries_iff.mp asked
  obtain ⟨_, number, _, _, rfl⟩ := get?_recorded.mp analysed
  rw [Query.namings]
  cases entry : query.entry with
  | none => rfl
  | some candidates =>
      rw [entry] at answers
      obtain ⟨_, _, _, _, rfl⟩ := candidates?_outputs.mp answers.symm
      rfl

theorem countP_unanswered (methods steps : Nat) :
    ((tree methods steps).queries (analysis methods steps) (unitId methods steps)).countP
      (fun query => query.entry.isNone) = methods * (3 * steps + 3) := by
  have asked := length_queries methods steps
  have named := (namings_perm methods steps).length_eq
  rw [length_chains, SyntaxTree.namings, List.length_flatMap,
    List.map_congr_left fun _ asked => length_namings_of_query asked, ← countP_eq_sum,
    ← List.length_filterMap_eq_countP] at named
  rw [length_eq_countP_isNone_add Query.entry, named] at asked
  grind

end FlowLink.Synthetic
