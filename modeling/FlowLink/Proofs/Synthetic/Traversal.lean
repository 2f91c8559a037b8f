import FlowLink.Proofs.Graph.Representation
import FlowLink.Proofs.Link.SkeletonDegrees
import FlowLink.Proofs.Synthetic.Layout

namespace FlowLink.Synthetic

open Std SyntaxTree FeatureGraph

/-! # Walking synthetic units

Every element of a synthetic unit stands before the one that it is a part of, and in the same method
unless it is the method itself or the class.  So everything is reached from the last element, which
is the unit, and what is found inside a method is found in the scope of this method.
-/

variable {methods steps number other place step : Nat} {shape : Shape} {child id target : TreeId}
  {scope : Scope} {descend : TreeId → Shape → Bool}

/-! ## Parts -/

theorem mem_assignedStatements {first : Nat} :
    child ∈ assignedStatements first steps ↔
      child = ⟨first⟩ ∨ ∃ step < steps, child = ⟨first + 6 * step + 6⟩ := by
  simp only [assignedStatements, List.mem_cons, List.mem_map, List.mem_range, eq_comm]

/-- A part stands before the whole, both in one method, unless it is a method or the class. -/
theorem part_cases (lays : Lays methods steps place shape) (isPart : child ∈ shape.children) :
    (∃ number < methods, start steps number ≤ child.index ∧ child.index < place ∧
        place ≤ start steps number + 6 * steps + 4) ∨
      (place = start steps methods ∧ ∃ number < methods, child = method steps number) ∨
      (place = start steps methods + 1 ∧ child = classId methods steps) := by
  cases lays with
  | classDecl =>
      obtain ⟨number, listed, rfl⟩ := List.mem_map.mp isPart
      exact .inr (.inl ⟨rfl, number, List.mem_range.mp listed, rfl⟩)
  | compilationUnit =>
      cases List.mem_singleton.mp isPart
      exact .inr (.inr ⟨rfl, rfl⟩)
  | declaration | read | one | target => contradiction
  | block declared =>
      refine .inl ⟨_, declared, ?_⟩
      rcases List.mem_append.mp isPart with assigned | last
      · rcases mem_assignedStatements.mp assigned with rfl | ⟨step, within, rfl⟩ <;> grind
      · cases List.mem_singleton.mp last
        grind
  | sum declared within | assignment declared within | statement declared within
  | returning declared | method declared =>
      refine .inl ⟨_, declared, ?_⟩
      simp only [Shape.children, List.mem_cons, List.not_mem_nil, or_false,
        Option.mem_toList, List.nil_append] at isPart
      grind

theorem method_lt_start (steps : Nat) (declared : number < methods) :
    (method steps number).index < start steps methods := by
  have next := start_add_le steps declared
  simp only [method]
  omega

theorem part_before (lays : Lays methods steps place shape) (isPart : child ∈ shape.children) :
    child.index < place := by
  rcases part_cases lays isPart with
    ⟨_, _, _, before, _⟩ | ⟨rfl, number, declared, rfl⟩ | ⟨rfl, rfl⟩
  · exact before
  · exact method_lt_start steps declared
  · exact Nat.lt_succ_self _

/-- Every element but the unit is a part of one behind it. -/
theorem exists_whole (lays : Lays methods steps place shape) :
    place = start steps methods + 1 ∨ ∃ whole outer, Lays methods steps whole outer ∧
      place < whole ∧ ⟨place⟩ ∈ outer.children := by
  cases lays with
  | declaration declared =>
      exact .inr ⟨_, _, .block declared, by omega, List.mem_append_left _ List.mem_cons_self⟩
  | @read _ step declared within =>
      rcases Nat.lt_or_eq_of_le within with earlier | rfl
      · exact .inr ⟨_, _, .sum declared earlier, by omega, List.mem_cons_self⟩
      · exact .inr ⟨_, _, .returning declared, by omega, List.mem_cons_self⟩
  | one declared within =>
      exact .inr ⟨_, _, .sum declared within, by omega, by simp [Shape.children]⟩
  | sum declared within =>
      exact .inr ⟨_, _, .assignment declared within, by omega, by simp [Shape.children]⟩
  | target declared within =>
      exact .inr ⟨_, _, .assignment declared within, by omega, List.mem_cons_self⟩
  | assignment declared within =>
      exact .inr ⟨_, _, .statement declared within, by omega, List.mem_cons_self⟩
  | statement declared within =>
      exact .inr ⟨_, _, .block declared, by omega,
        List.mem_append_left _ (mem_assignedStatements.mpr (.inr ⟨_, within, rfl⟩))⟩
  | returning declared =>
      exact .inr ⟨_, _, .block declared, by omega, List.mem_append_right _ List.mem_cons_self⟩
  | block declared => exact .inr ⟨_, _, .method declared, by omega, List.mem_cons_self⟩
  | method declared =>
      exact .inr ⟨_, _, .classDecl, method_lt_start steps declared,
        List.mem_map.mpr ⟨_, List.mem_range.mpr declared, rfl⟩⟩
  | classDecl => exact .inr ⟨_, _, .compilationUnit, Nat.lt_succ_self _, List.mem_cons_self⟩
  | compilationUnit => exact .inl rfl

/-! ## The whole unit -/

theorem size_eq_start (methods steps : Nat) :
    (tree methods steps).size = start steps methods + 2 := size_tree methods steps

theorem tree_sound (methods steps : Nat) : (tree methods steps).Sound where
  placed := numbered_empty.pushAll (unitRow methods steps)
  closed := by
    intro slot element stored child isPart
    have found : (tree methods steps).shape? ⟨slot⟩ = some element.shape := by
      rw [shape?, get?, stored]
      rfl
    have lays := shape?_tree_iff.mp found
    rw [size_eq_start]
    exact (part_before lays isPart).trans lays.lt_size
  rooted := by
    intro root rooted
    rw [root_tree] at rooted
    cases rooted
    rw [size_eq_start]
    exact Nat.lt_succ_self _

theorem leads (lays : Lays methods steps place shape) :
    (tree methods steps).Leads (unitId methods steps) ⟨place⟩ := by
  induction distance : start steps methods + 1 - place using Nat.strongRecOn
    generalizing place shape with
  | ind distance ih =>
      rcases exists_whole lays with rfl | ⟨whole, outer, laysWhole, before, isPart⟩
      · exact .here (shape?_tree_iff.mpr lays)
      · have bound := laysWhole.lt_size
        exact (ih _ (by omega) laysWhole rfl).trans
          (.through (shape?_tree_iff.mpr laysWhole) rfl isPart (.here (shape?_tree_iff.mpr lays)))

theorem leads_iff :
    (tree methods steps).Leads (unitId methods steps) id ↔
      ∃ shape, Lays methods steps id.index shape := by
  constructor
  · intro reached
    obtain ⟨shape, found⟩ := reached.target_in_arena
    exact ⟨shape, shape?_tree_iff.mp found⟩
  · intro laid
    obtain ⟨shape, lays⟩ := laid
    exact leads lays

theorem preorder_perm (methods steps : Nat) :
    ((tree methods steps).preorder (unitId methods steps)).Perm
      ((List.range (start steps methods + 2)).map TreeId.mk) := by
  have distinct : ((List.range (start steps methods + 2)).map TreeId.mk).Nodup :=
    List.nodup_range.map fun _ _ same => congrArg TreeId.index same
  apply (List.perm_ext_iff_of_nodup walk_nodup distinct).mpr
  intro id
  change id ∈ (tree methods steps).preorder _ ↔ _
  rw [mem_preorder_iff, leads_iff, List.mem_map]
  constructor
  · intro laid
    obtain ⟨_, lays⟩ := laid
    exact ⟨id.index, List.mem_range.mpr lays.lt_size, rfl⟩
  · intro listed
    obtain ⟨place, inside, rfl⟩ := listed
    exact exists_lays (List.mem_range.mp inside)

/-! ## Counting elements -/

/-- Rows on end hold as many items that pass a test as each of them does, times their number. -/
theorem countP_flatMap_range {α : Type} {test : α → Bool} {rows : Nat → List α} {each : Nat}
    (alike : ∀ number, (rows number).countP test = each) (count : Nat) :
    ((List.range count).flatMap rows).countP test = count * each := by
  have same : List.countP test ∘ rows = fun _ => each := funext alike
  rw [List.countP_flatMap, same, List.map_const', List.sum_replicate_nat, List.length_range]

theorem countP_methodRow {test : Shape → Bool} {each : Nat} (start number : Nat)
    (assignments : ∀ step, (assignmentRow start step).countP test = each) :
    (methodRow start steps number).countP test =
      steps * each + (closingRow start steps number).countP test +
        (test (.variableDecl "x" none)).toNat := by
  rw [methodRow, assignedRow, List.countP_append, List.countP_cons,
    countP_flatMap_range assignments, Nat.add_right_comm]
  cases test (.variableDecl "x" none) <;> rfl

theorem sites_unitRow (methods steps : Nat) :
    (unitRow methods steps).countP Shape.isSite = methods * (2 * steps + 2) := by
  have alike : ∀ number, (methodRow (start steps number) steps number).countP Shape.isSite =
      2 * steps + 2 := by
    intro number
    rw [countP_methodRow _ _ fun _ => rfl]
    exact congrArg (· + 2) (Nat.mul_comm _ _)
  rw [unitRow, List.countP_append, methodRows, countP_flatMap_range alike]
  rfl

theorem spelled_unitRow (methods steps : Nat) :
    (unitRow methods steps).countP Shape.isSpelled = methods * (3 * steps + 3) + 1 := by
  have alike : ∀ number, (methodRow (start steps number) steps number).countP Shape.isSpelled =
      3 * steps + 3 := by
    intro number
    rw [countP_methodRow _ _ fun _ => rfl]
    exact congrArg (· + 3) (Nat.mul_comm _ _)
  rw [unitRow, List.countP_append, methodRows, countP_flatMap_range alike]
  rfl

/-- Going through the places of a row is going through the row. -/
theorem countP_range_getElem? {α : Type} (test : α → Bool) (items : List α) :
    (List.range items.length).countP (fun place => items[place]?.any test) = items.countP test := by
  induction items with
  | nil => rfl
  | cons item rest ih =>
      rw [List.length_cons, List.range_succ_eq_map, List.countP_cons, List.countP_map]
      simp only [Function.comp_def, List.getElem?_cons_succ, List.getElem?_cons_zero, ih]
      rw [List.countP_cons]
      rfl

theorem nodeCount_skeleton_tree (methods steps : Nat) :
    (skeleton (tree methods steps)).nodeCount = methods * (9 * steps + 8) + 3 := by
  have spelled : (tokenTexts (tree methods steps).elements.toList).length =
      methods * (3 * steps + 3) + 1 := by
    rw [← spelled_unitRow, ← shapes_tree, shapes, List.countP_map, length_tokenTexts]
    exact List.countP_congr fun element _ => by rw [← Shape.isSpelled_eq]; rfl
  rw [(skeleton_joins (tree_sound methods steps)).nodeCount, spelled, size_tree]
  grind

theorem length_sites (methods steps : Nat) :
    ((tree methods steps).sites (unitId methods steps)).length = methods * (2 * steps + 2) := by
  have found : ∀ place, (tree methods steps).shape? ⟨place⟩ = (unitRow methods steps)[place]? := by
    intro place
    rw [shape?_eq_getElem?, shapes_tree]
  have visited : ((tree methods steps).sites (unitId methods steps)).map Prod.fst =
      ((tree methods steps).preorder (unitId methods steps)).filter fun id =>
        ((tree methods steps).shape? id).any Shape.isSite := sites_map_fst
  have count := congrArg List.length visited
  rw [List.length_map, ← List.countP_eq_length_filter, (preorder_perm methods steps).countP_eq,
    List.countP_map] at count
  rw [count, ← sites_unitRow, ← countP_range_getElem? _ (unitRow methods steps), length_unitRow]
  simp only [Function.comp_def, found]
  rfl

/-! ## Inside a method -/

/-- Nothing inside a method leads out of it. -/
theorem inside_of_reaches (reached : (tree methods steps).Reaches descend id target)
    (declared : number < methods) (first : start steps number ≤ id.index)
    (last : id.index ≤ start steps number + 6 * steps + 4) :
    start steps number ≤ target.index ∧ target.index ≤ id.index := by
  have inside := method_lt_start steps declared
  simp only [method] at inside
  induction reached with
  | here => exact ⟨first, Nat.le_refl _⟩
  | through found _ isPart _ ih =>
      rcases part_cases (shape?_tree_iff.mp found) isPart with
        ⟨_, _, first', before, last'⟩ | ⟨isClass, _⟩ | ⟨isUnit, _⟩
      · cases number_unique first last (by omega) last'
        have onward := ih first' (by omega)
        omega
      · omega
      · omega

theorem scope_of_method (declared : number < methods)
    (placed : (method steps number, scope) ∈
      (tree methods steps).scopes (unitId methods steps)) :
    scope = ⟨some (classId methods steps), none⟩ := by
  have inside := method_lt_start steps declared
  obtain ⟨above, shape, outer, _, found, isPart, _, rfl⟩ := scope_of_parent placed (by grind)
  have lays := shape?_tree_iff.mp found
  rcases part_cases lays isPart with
    ⟨other, _, first, before, last⟩ | ⟨isClass, _⟩ | ⟨_, same⟩
  · simp only [method] at first before
    have same : number = other := number_unique (by omega) (Nat.le_refl _) first (by omega)
    subst same
    omega
  · rw [isClass] at lays
    cases lays.unique .classDecl
    have here : above = classId methods steps := congrArg TreeId.mk isClass
    rw [here]
    rfl
  · rw [same] at inside
    exact absurd inside (Nat.lt_irrefl _)

/-- Everything inside a method is found in its scope. -/
theorem scope_of_inside (declared : number < methods) (first : start steps number ≤ place)
    (last : place < start steps number + 6 * steps + 4)
    (placed : (⟨place⟩, scope) ∈ (tree methods steps).scopes (unitId methods steps)) :
    scope = ⟨some (classId methods steps), some (method steps number)⟩ := by
  have inside := method_lt_start steps declared
  simp only [method] at inside
  induction distance : start steps methods - place using Nat.strongRecOn
    generalizing place scope with
  | ind distance ih =>
      obtain ⟨⟨whole⟩, shape, outer, _, found, isPart, placedWhole, rfl⟩ :=
        scope_of_parent placed (by grind)
      have lays : Lays methods steps whole shape := shape?_tree_iff.mp found
      have after : place < whole := part_before lays isPart
      rcases part_cases lays isPart with
        ⟨other, _, first', _, last'⟩ | ⟨_, other, _, same⟩ | ⟨_, same⟩
      · have same : number = other := number_unique first (by omega) first' (after.le.trans last')
        subst same
        rcases Nat.lt_or_eq_of_le last' with deeper | rfl
        · -- Only methods and classes do not pass their own scope on.
          have passed : outer.enter ⟨whole⟩ shape = outer := by
            cases lays with
            | @method other declared' =>
                have same : number = other := number_unique (by omega) last' (by omega) le_rfl
                subst same
                exact absurd deeper (Nat.lt_irrefl _)
            | classDecl => omega
            | _ => rfl
          rw [passed]
          exact ih _ (by omega) (first.trans after.le) deeper placedWhole rfl
        · cases lays.unique (.method declared)
          cases scope_of_method declared placedWhole
          rfl
      · cases same
        have same : number = other := number_unique first last.le (by omega) le_rfl
        subst same
        exact absurd last (Nat.lt_irrefl _)
      · cases same
        omega

theorem exists_scope (lays : Lays methods steps place shape) :
    ∃ scope, (⟨place⟩, scope) ∈ (tree methods steps).scopes (unitId methods steps) := by
  have listed : ⟨place⟩ ∈ (tree methods steps).preorder (unitId methods steps) :=
    mem_preorder_iff.mpr (leads lays)
  rw [← scopes_map_fst] at listed
  obtain ⟨⟨_, scope⟩, placed, rfl⟩ := List.mem_map.mp listed
  exact ⟨scope, placed⟩

theorem inside_of_isSite (lays : Lays methods steps place shape) (isSite : shape.isSite = true) :
    ∃ number < methods, start steps number ≤ place ∧
      place < start steps number + 6 * steps + 4 := by
  cases lays with
  | declaration declared | read declared _ | target declared _ => exact ⟨_, declared, by omega⟩
  | _ => contradiction

/-- Every site is visited in the scope of a method. -/
theorem enclosed_of_site
    (visited : (id, scope) ∈ (tree methods steps).sites (unitId methods steps)) :
    ∃ number < methods, scope.enclosing = some (classId methods steps, method steps number) := by
  obtain ⟨placed, isSite⟩ := List.mem_filter.mp visited
  obtain ⟨shape, found, isSite⟩ := (Option.any_eq_true _ _).mp isSite
  obtain ⟨number, declared, first, last⟩ := inside_of_isSite (shape?_tree_iff.mp found) isSite
  cases scope_of_inside declared first last placed
  exact ⟨number, declared, rfl⟩

theorem processes_read (declared : number < methods) (within : step ≤ steps) :
    (tree methods steps).Processes ⟨start steps number + 6 * step + 1⟩ (classId methods steps)
      (method steps number) := by
  have lays : Lays methods steps _ _ := .read declared within
  obtain ⟨scope, placed⟩ := exists_scope lays
  cases scope_of_inside declared (by omega) (by omega) placed
  refine .intro (.intro (root_tree methods steps) (List.mem_filter.mpr ⟨placed, ?_⟩)) rfl
  rw [Option.any_eq_true]
  exact ⟨_, shape?_tree_iff.mpr lays, rfl⟩

/-! ## Returns -/

theorem method_injective (same : method steps number = method steps other) : number = other := by
  simp only [method, TreeId.mk.injEq] at same
  have equal : start steps number = start steps other := by omega
  exact number_unique le_rfl (by omega) equal.ge (by omega)

theorem eq_singleton {α : Type} {items : List α} {item : α} (nodup : items.Nodup)
    (only : ∀ other, other ∈ items ↔ other = item) : items = [item] := by
  rw [← List.perm_singleton, List.perm_ext_iff_of_nodup nodup (List.nodup_singleton item)]
  simpa using only

theorem methodBodies_perm (methods steps : Nat) :
    ((tree methods steps).methodBodies (unitId methods steps)).Perm
      ((List.range methods).map fun number =>
        (method steps number, ⟨start steps number + 6 * steps + 3⟩)) := by
  have distinct : ((List.range methods).map fun number =>
      (method steps number, TreeId.mk (start steps number + 6 * steps + 3))).Nodup := by
    apply List.nodup_range.map
    intro number other same
    have equal : method steps number = method steps other := (Prod.mk.inj same).1
    exact method_injective equal
  apply (List.perm_ext_iff_of_nodup methodBodies_nodup.of_map distinct).mpr
  rintro ⟨⟨place⟩, body⟩
  rw [mem_methodBodies_iff, leads_iff, List.mem_map]
  constructor
  · intro declared
    obtain ⟨_, shape, found, hasBody⟩ := declared
    have lays : Lays methods steps place shape := shape?_tree_iff.mp found
    cases lays with
    | method declared =>
        cases hasBody
        exact ⟨_, List.mem_range.mpr declared, rfl⟩
    | _ => contradiction
  · intro listed
    obtain ⟨number, listed, same⟩ := listed
    cases same
    have lays : Lays methods steps _ _ := .method (List.mem_range.mp listed)
    exact ⟨⟨_, lays⟩, _, shape?_tree_iff.mpr lays, rfl⟩

theorem statements_block (declared : number < methods) :
    (tree methods steps).statements .all ⟨start steps number + 6 * steps + 3⟩ =
      [⟨start steps number + 6 * steps + 2⟩] := by
  apply eq_singleton statements_nodup
  rintro ⟨place⟩
  rw [mem_statements_iff]
  constructor
  · intro returned
    obtain ⟨reached, expression, found⟩ := returned
    obtain ⟨first, last⟩ := inside_of_reaches reached declared (by grind) (by grind)
    have lays : Lays methods steps place _ := shape?_tree_iff.mp found
    cases lays with
    | @returning other _ =>
        simp only at first last
        have same : number = other := number_unique first (by omega) (by omega) (by omega)
        rw [same]
  · intro isReturn
    cases isReturn
    have lays : Lays methods steps _ _ := .returning declared
    refine ⟨?_, _, shape?_tree_iff.mpr lays⟩
    exact .through (shape?_tree_iff.mpr (.block declared)) rfl
      (List.mem_append_right _ List.mem_cons_self) (.here (shape?_tree_iff.mpr lays))

theorem identifiers_read (declared : number < methods) (within : step ≤ steps) :
    (tree methods steps).identifiers ⟨start steps number + 6 * step + 1⟩ =
      [⟨start steps number + 6 * step + 1⟩] := by
  have lays : Lays methods steps _ _ := .read declared within
  have found := shape?_tree_iff.mpr lays
  apply eq_singleton (walk_nodup.filter _)
  intro identifier
  change identifier ∈ (tree methods steps).identifiers _ ↔ _
  rw [mem_identifiers_iff]
  constructor
  · intro contained
    obtain ⟨reached, _⟩ := contained
    by_contra apart
    obtain ⟨_, _, isPart, _⟩ := reached.down apart found
    contradiction
  · rintro rfl
    exact ⟨.here found, _, found, rfl⟩

theorem returnedIdentifiers_block (declared : number < methods) :
    (tree methods steps).returnedIdentifiers .all ⟨start steps number + 6 * steps + 3⟩ =
      [⟨start steps number + 6 * steps + 1⟩] := by
  have returned : (tree methods steps).returned? ⟨start steps number + 6 * steps + 2⟩ =
      some ⟨start steps number + 6 * steps + 1⟩ :=
    returned?_eq_some_iff.mpr (shape?_tree_iff.mpr (.returning declared))
  rw [returnedIdentifiers, returns_eq_map, statements_block declared, List.map_singleton, returned]
  exact (List.append_nil _).trans (identifiers_read declared le_rfl)

end FlowLink.Synthetic
