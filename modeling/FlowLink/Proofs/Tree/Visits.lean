import FlowLink.Proofs.Tree.DepthFirst

namespace FlowLink.SyntaxTree

/-! # Walking by recursion

A walk keeps pending elements on a stack, where an id may stand many times, and marks an element
when it takes it from there.  `Visits` needs no stack: an element is marked and emitted, then its
children are visited one after the other, and then its later siblings, each with the marks that the
earlier ones left.  Answers may depend on what was asked before, so what `descend` remembers is
handed on along with the marks.
-/

variable {σ : Type}

/-- With some ids marked, visiting a row of ids from left to right emits some ids, which are marked
from then on. -/
inductive Visits (tree : SyntaxTree) (descend : TreeId → Shape → σ → Bool × σ) :
    List TreeId → σ → List TreeId → List TreeId → σ → Prop
  | done {marked : List TreeId} {state : σ} : Visits tree descend marked state [] [] state
  | skip {marked rest emitted : List TreeId} {state final : σ} {id : TreeId}
      (skipped : tree.shape? id = none ∨ id ∈ marked)
      (onward : Visits tree descend marked state rest emitted final) :
      Visits tree descend marked state (id :: rest) emitted final
  | take {marked rest inside later : List TreeId} {state next between final : σ} {id : TreeId}
      {shape : Shape} {enters : Bool} (found : tree.shape? id = some shape) (fresh : id ∉ marked)
      (answer : descend id shape state = (enters, next))
      (below : Visits tree descend (marked ++ [id]) next
        (if enters then shape.children else []) inside between)
      (onward : Visits tree descend (marked ++ id :: inside) between rest later final) :
      Visits tree descend marked state (id :: rest) (id :: inside ++ later) final

variable {tree : SyntaxTree} {descend : TreeId → Shape → σ → Bool × σ}
  {marked emitted other row : List TreeId} {state final last : σ} {id start : TreeId}

theorem not_skipped {shape : Shape} (found : tree.shape? id = some shape) (fresh : id ∉ marked) :
    ¬ (tree.shape? id = none ∨ id ∈ marked) := by
  rintro (outside | known)
  · exact Option.some_ne_none shape (found.symm.trans outside)
  · exact fresh known

/-- The recursion has one result. -/
theorem Visits.unique (visits : Visits tree descend marked state row emitted final)
    (again : Visits tree descend marked state row other last) :
    emitted = other ∧ final = last := by
  induction visits generalizing other last with
  | done =>
      cases again
      exact ⟨rfl, rfl⟩
  | skip skipped _ ih =>
      cases again with
      | skip _ onward => exact ih onward
      | take found fresh _ _ _ => exact absurd skipped (not_skipped found fresh)
  | take found fresh answer _ _ belowIH onwardIH =>
      cases again with
      | skip skipped _ => exact absurd skipped (not_skipped found fresh)
      | take found' _ answer' below onward =>
          cases found.symm.trans found'
          cases answer.symm.trans answer'
          obtain ⟨rfl, rfl⟩ := belowIH below
          obtain ⟨rfl, rfl⟩ := onwardIH onward
          exact ⟨rfl, rfl⟩

/-- A row of ids is visited part by part. -/
theorem Visits.split {first second : List TreeId}
    (visits : Visits tree descend marked state (first ++ second) emitted final) :
    ∃ early late between, emitted = early ++ late ∧
      Visits tree descend marked state first early between ∧
      Visits tree descend (marked ++ early) between second late final := by
  induction first generalizing marked state emitted with
  | nil =>
      refine ⟨[], emitted, state, rfl, .done, ?_⟩
      rw [List.append_nil]
      exact visits
  | cons id rest ih =>
      cases visits with
      | skip skipped onward =>
          obtain ⟨early, late, between, split, before, after⟩ := ih onward
          exact ⟨early, late, between, split, .skip skipped before, after⟩
      | take found fresh answer below onward =>
          obtain ⟨early, late, between, rfl, before, after⟩ := ih onward
          refine ⟨_, late, between, (List.append_assoc _ _ _).symm,
            .take found fresh answer below before, ?_⟩
          rw [List.append_assoc] at after
          exact after

/-! ## The stack goes by the recursion -/

/-- What a walk does with an element that it takes from its stack. -/
def walkStep (descend : TreeId → Shape → σ → Bool × σ) (id : TreeId) (shape : Shape) (_ : Unit)
    (progress : Array TreeId × σ) : Option Unit × (Array TreeId × σ) :=
  let (enters, next) := descend id shape progress.2
  (if enters then some () else none, progress.1.push id, next)

theorem walkStep_eq {shape : Shape} {context : Unit} {progress next : Array TreeId × σ}
    {below : Option Unit} (steps : walkStep descend id shape context progress = (below, next)) :
    next.1 = progress.1.push id ∧ descend id shape progress.2 = (below.isSome, next.2) := by
  obtain ⟨rfl, rfl⟩ := Prod.mk.inj steps
  cases answer : descend id shape progress.2 with
  | mk enters after => cases enters <;> exact ⟨rfl, rfl⟩

/-- Whatever is pending, the stack takes it as the recursion visits it. -/
theorem traverseFrom_visits (descend : TreeId → Shape → σ → Bool × σ)
    (pending : List (TreeId × Unit)) (progress : Array TreeId × σ) {marks : Marks}
    (record : marks.Record tree.size marked) :
    ∃ emitted, (tree.traverseFrom (walkStep descend) marks pending progress).1.toList =
        progress.1.toList ++ emitted ∧
      Visits tree descend marked progress.2 (pending.map Prod.fst) emitted
        (tree.traverseFrom (walkStep descend) marks pending progress).2 := by
  fun_induction traverseFrom tree (walkStep descend) marks pending progress
    generalizing marked with
  | case1 marks progress => exact ⟨[], (List.append_nil _).symm, .done⟩
  | case2 marks progress id context rest outside ih =>
      obtain ⟨emitted, reached, onward⟩ := ih record
      exact ⟨emitted, reached, .skip (.inl outside) onward⟩
  | case3 marks progress id context rest shape found unvisited next result ih =>
      obtain ⟨_, fresh⟩ := (record id).mp unvisited
      obtain ⟨pushed, answer⟩ := walkStep_eq result
      obtain ⟨emitted, reached, onward⟩ := ih (record.mark id)
      refine ⟨id :: emitted, ?_, .take found fresh answer .done onward⟩
      rw [reached, pushed, Array.toList_push, List.append_assoc]
      rfl
  | case4 marks progress id context rest shape found unvisited below next result ih =>
      obtain ⟨_, fresh⟩ := (record id).mp unvisited
      obtain ⟨pushed, answer⟩ := walkStep_eq result
      obtain ⟨emitted, reached, onward⟩ := ih (record.mark id)
      -- The children stand on the stack in front of what was pending: they are visited first.
      have children : (shape.children.map fun child => (child, below)).map Prod.fst =
          shape.children := by
        rw [List.map_map]
        exact List.map_id shape.children
      rw [List.map_append, children] at onward
      obtain ⟨early, late, between, rfl, inside, after⟩ := onward.split
      rw [List.append_assoc] at after
      refine ⟨id :: early ++ late, ?_, .take found fresh answer inside after⟩
      rw [reached, pushed, Array.toList_push, List.append_assoc]
      rfl
  | case5 marks progress id context rest shape found visited ih =>
      have known : id ∈ marked := by
        by_contra fresh
        exact visited ((record id).mpr ⟨index_lt_size_of_shape? found, fresh⟩)
      obtain ⟨emitted, reached, onward⟩ := ih record
      exact ⟨emitted, reached, .skip (.inr known) onward⟩

theorem walkWith_visits (tree : SyntaxTree) (descend : TreeId → Shape → σ → Bool × σ)
    (start : TreeId) (state : σ) :
    Visits tree descend [] state [start] (tree.walkWith descend start state).1
      (tree.walkWith descend start state).2 := by
  obtain ⟨emitted, reached, visits⟩ :=
    traverseFrom_visits descend [(start, ())] (#[], state) (Marks.fresh_record tree.size)
  have walked : (tree.walkWith descend start state).1 = emitted := reached
  rw [walked]
  exact visits

theorem walkWith_eq_iff_visits :
    tree.walkWith descend start state = (emitted, final) ↔
      Visits tree descend [] state [start] emitted final := by
  have walked := tree.walkWith_visits descend start state
  constructor
  · intro equal
    rw [equal] at walked
    exact walked
  · intro visits
    obtain ⟨reached, left⟩ := walked.unique visits
    exact Prod.ext reached left

/-- A predicate that remembers nothing of what it was asked. -/
def stateless (descend : TreeId → Shape → Bool) (id : TreeId) (shape : Shape) (_ : Unit) :
    Bool × Unit :=
  (descend id shape, ())

theorem walk_visits (tree : SyntaxTree) (descend : TreeId → Shape → Bool) (start : TreeId) :
    Visits tree (stateless descend) [] () [start] (tree.walk descend start) () :=
  tree.walkWith_visits (stateless descend) start ()

/-- On every arena, a walk returns exactly what the recursion emits from its start, and leaves the
predicate as the recursion leaves it. -/
theorem walk_eq_iff_visits (tree : SyntaxTree) (start : TreeId) (emitted : List TreeId) :
    (∀ descend, tree.walk descend start = emitted ↔
        Visits tree (stateless descend) [] () [start] emitted ()) ∧
      ∀ (descend : TreeId → Shape → σ → Bool × σ) (state final : σ),
        tree.walkWith descend start state = (emitted, final) ↔
          Visits tree descend [] state [start] emitted final := by
  refine ⟨?_, fun _ _ _ => walkWith_eq_iff_visits⟩
  intro descend
  constructor
  · rintro rfl
    exact tree.walk_visits descend start
  · intro visits
    exact ((tree.walk_visits descend start).unique visits).1

end FlowLink.SyntaxTree
