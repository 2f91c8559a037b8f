import FlowLink.Facts

namespace FlowLink

open Std

/-! # Recorded facts

An analysis is spoken of through `get?`: what it records for the method of a class.
-/

theorem FactKind.mem_all (kind : FactKind) : kind ∈ FactKind.all := by
  cases kind <;> decide

theorem FactMap.mem_mentioned_iff {facts : FactMap} {id : TreeId} :
    id ∈ facts.mentioned ↔
      ∃ point candidates, facts[point]? = some candidates ∧ (id = point ∨ id ∈ candidates) := by
  simp only [FactMap.mentioned, List.mem_flatMap, Prod.exists,
    ExtTreeMap.mem_toList_iff_getElem?_eq_some, List.mem_cons, ExtTreeSet.mem_toList]

namespace Analysis

variable {analysis : Analysis} {classId otherClass method otherMethod : TreeId}
  {outputs : MethodFacts}

theorem methods_insert :
    (analysis.insert classId method outputs).methods otherClass =
      if classId = otherClass then (analysis.methods classId).insert method outputs
      else analysis.methods otherClass := by
  simp only [methods, insert, ExtTreeMap.getElem?_insert, Std.compare_eq_iff_eq]
  split <;> simp

/-- Recording the facts of a method affects no other method. -/
theorem get?_insert :
    (analysis.insert classId method outputs).get? otherClass otherMethod =
      if classId = otherClass ∧ method = otherMethod then some outputs
      else analysis.get? otherClass otherMethod := by
  rw [get?, methods_insert]
  by_cases sameClass : classId = otherClass
  · subst otherClass
    simp only [if_true, ExtTreeMap.getElem?_insert, Std.compare_eq_iff_eq, true_and]
    rfl
  · rw [if_neg sameClass, if_neg fun same => sameClass same.1]
    rfl

/-! ## What an analysis mentions -/

/-- An id is mentioned as a class, even one without methods, as an analysed method, as a program
point of one of its facts, even one without candidates, or as a candidate. -/
inductive Mentions (analysis : Analysis) : TreeId → Prop where
  | classId {classId : TreeId} {methods : ExtTreeMap TreeId MethodFacts}
      (listed : analysis.classes[classId]? = some methods) : Mentions analysis classId
  | method {classId method : TreeId} {outputs : MethodFacts}
      (analysed : analysis.get? classId method = some outputs) : Mentions analysis method
  | point {classId method point : TreeId} {outputs : MethodFacts} {kind : FactKind}
      {candidates : CandidateSet} (analysed : analysis.get? classId method = some outputs)
      (fact : outputs.candidates? kind point = some candidates) : Mentions analysis point
  | candidate {classId method point candidate : TreeId} {outputs : MethodFacts} {kind : FactKind}
      {candidates : CandidateSet} (analysed : analysis.get? classId method = some outputs)
      (fact : outputs.candidates? kind point = some candidates)
      (member : candidate ∈ candidates) : Mentions analysis candidate

theorem get?_eq_some_iff :
    analysis.get? classId method = some outputs ↔
      ∃ methods, analysis.classes[classId]? = some methods ∧ methods[method]? = some outputs := by
  unfold get? methods
  cases analysis.classes[classId]? with
  | none => simp
  | some methods => simp

theorem mem_mentioned_iff {id : TreeId} : id ∈ analysis.mentioned ↔ analysis.Mentions id := by
  simp only [mentioned, ExtTreeSet.mem_ofList, List.contains_iff_mem, List.mem_flatMap,
    Prod.exists, ExtTreeMap.mem_toList_iff_getElem?_eq_some, List.mem_cons,
    FactMap.mem_mentioned_iff]
  constructor
  · rintro ⟨classId, methods, listed, rfl | ⟨method, outputs, found, named⟩⟩
    · exact .classId listed
    have analysed := get?_eq_some_iff.mpr ⟨methods, listed, found⟩
    rcases named with rfl | ⟨kind, -, point, candidates, fact, rfl | member⟩
    · exact .method analysed
    · exact .point analysed fact
    · exact .candidate analysed fact member
  · intro mentions
    cases mentions with
    | classId listed => exact ⟨_, _, listed, .inl rfl⟩
    | method analysed =>
        obtain ⟨methods, listed, analysed⟩ := get?_eq_some_iff.mp analysed
        exact ⟨_, methods, listed, .inr ⟨_, _, analysed, .inl rfl⟩⟩
    | point analysed fact =>
        obtain ⟨methods, listed, analysed⟩ := get?_eq_some_iff.mp analysed
        exact ⟨_, methods, listed, .inr ⟨_, _, analysed, .inr
          ⟨_, FactKind.mem_all _, _, _, fact, .inl rfl⟩⟩⟩
    | candidate analysed fact member =>
        obtain ⟨methods, listed, analysed⟩ := get?_eq_some_iff.mp analysed
        exact ⟨_, methods, listed, .inr ⟨_, _, analysed, .inr
          ⟨_, FactKind.mem_all _, _, _, fact, .inr member⟩⟩⟩

end Analysis

end FlowLink
