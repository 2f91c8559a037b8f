import FlowLink.Proofs.Tree.Reachability
import FlowLink.Proofs.Tree.Visits

namespace FlowLink.SyntaxTree

/-! # What a walk returns

A walk returns what is reached from its start, each element once and behind one that refers to it,
and asks about each of them in this order.  That nothing is lost to early marks is
`mem_walk_iff`.  The rest is read off the recursion: whatever it emits for a row of ids is in this
row, or below something that it emitted before.
-/

/-- An element is a child of another one that is accepted. -/
def Refers (tree : SyntaxTree) (descend : TreeId → Shape → Bool) (parent child : TreeId) : Prop :=
  ∃ shape, tree.shape? parent = some shape ∧ descend parent shape = true ∧ child ∈ shape.children

/-- A predicate that remembers in order what it was asked. -/
def recording (descend : TreeId → Shape → Bool) (id : TreeId) (shape : Shape)
    (asked : List (TreeId × Shape)) : Bool × List (TreeId × Shape) :=
  (descend id shape, asked ++ [(id, shape)])

/-- An entry of two rows on end stands in the first, or in the second behind all of the first. -/
theorem split_append {α : Type} {first second before after : List α} {entry : α}
    (split : first ++ second = before ++ entry :: after) :
    (∃ others, first = before ++ entry :: others) ∨
      ∃ between, before = first ++ between ∧ second = between ++ entry :: after := by
  rcases List.append_eq_append_iff.mp split with ⟨between, behind, rest⟩ | ⟨others, ahead, rest⟩
  · exact .inr ⟨between, behind, rest⟩
  · cases others with
    | nil => exact .inr ⟨[], by simpa using ahead.symm, rest.symm⟩
    | cons head others =>
        cases rest
        exact .inl ⟨others, ahead⟩

variable {tree : SyntaxTree} {descend : TreeId → Shape → Bool}
  {marked emitted row before after : List TreeId} {early late : Unit} {id start : TreeId}

theorem Visits.head_of_single
    (visits : Visits tree (stateless descend) marked early [start] emitted late) :
    ∀ first ∈ emitted.head?, first = start := by
  cases visits with
  | skip _ onward =>
      cases onward
      simp
  | take => simp

theorem Visits.behind_parent
    (visits : Visits tree (stateless descend) marked early row emitted late)
    (split : emitted = before ++ id :: after) :
    id ∈ row ∨ ∃ parent ∈ before, tree.Refers descend parent id := by
  induction visits generalizing before after with
  | done => simp at split
  | skip _ _ ih =>
      rcases ih split with listed | placed
      · exact .inl (List.mem_cons_of_mem _ listed)
      · exact .inr placed
  | @take _ rest inside _ _ _ _ _ first shape enters found _ answer _ _ belowIH onwardIH =>
      cases before with
      | nil =>
          cases split
          exact .inl List.mem_cons_self
      | cons _ before =>
          rw [List.cons_append, List.cons_append, List.cons.injEq] at split
          obtain ⟨rfl, below⟩ := split
          rcases split_append below with ⟨others, isInside⟩ | ⟨between, rfl, isLater⟩
          · rcases belowIH isInside with isChild | ⟨parent, earlier, refers⟩
            · have accepted : descend first shape = enters := congrArg Prod.fst answer
              cases enters with
              | false => simp at isChild
              | true => exact .inr ⟨first, List.mem_cons_self, shape, found, accepted, isChild⟩
            · exact .inr ⟨parent, List.mem_cons_of_mem _ earlier, refers⟩
          · rcases onwardIH isLater with listed | ⟨parent, earlier, refers⟩
            · exact .inl (List.mem_cons_of_mem _ listed)
            · exact .inr ⟨parent, by simp [earlier], refers⟩

/-- Remembering the questions changes none of the answers. -/
theorem Visits.recorded (visits : Visits tree (stateless descend) marked early row emitted late)
    (asked : List (TreeId × Shape)) :
    ∃ calls, Visits tree (recording descend) marked asked row emitted (asked ++ calls) ∧
      calls.map Prod.fst = emitted ∧ ∀ call ∈ calls, tree.shape? call.1 = some call.2 := by
  induction visits generalizing asked with
  | done => exact ⟨[], by rw [List.append_nil]; exact .done, rfl, by simp⟩
  | skip skipped _ ih =>
      obtain ⟨calls, onward, listed, placed⟩ := ih asked
      exact ⟨calls, .skip skipped onward, listed, placed⟩
  | @take _ _ _ _ _ _ _ _ id shape _ found fresh answer _ _ belowIH onwardIH =>
      obtain ⟨inner, below, rfl, innerPlaced⟩ := belowIH (asked ++ [(id, shape)])
      obtain ⟨outer, onward, rfl, outerPlaced⟩ := onwardIH (asked ++ [(id, shape)] ++ inner)
      have accepted := congrArg Prod.fst answer
      refine ⟨(id, shape) :: inner ++ outer, ?_, by simp, ?_⟩
      · have visits : Visits tree (recording descend) _ asked _ _ _ :=
          .take found fresh (Prod.ext accepted rfl) below onward
        simpa using visits
      · intro call listed
        simp only [List.cons_append, List.mem_cons, List.mem_append] at listed
        rcases listed with rfl | inside | outside
        · exact found
        · exact innerPlaced call inside
        · exact outerPlaced call outside

theorem walk_nodup : (tree.walk descend start).Nodup := by
  rw [walk_eq_recursiveWalk]
  exact foundIds_nodup.1

theorem walk_eq_nil_iff : tree.walk descend start = [] ↔ tree.shape? start = none := by
  rw [List.eq_nil_iff_forall_not_mem, Option.eq_none_iff_forall_ne_some]
  simp only [mem_walk_iff]
  constructor
  · intro unreached shape found
    exact unreached start (.here found)
  · intro outside id reached
    obtain ⟨shape, found⟩ := reached.source_in_arena
    exact outside shape found

/-- The first element of a walk is its start, and each later one is a child of an accepted element
before it. -/
theorem walk_behind_parent (split : tree.walk descend start = before ++ id :: after) :
    (before = [] ∧ id = start) ∨ ∃ parent ∈ before, tree.Refers descend parent id := by
  have visits := tree.walk_visits descend start
  rw [split] at visits
  rcases visits.behind_parent rfl with listed | placed
  · have again : id = start := List.mem_singleton.mp listed
    cases before with
    | nil => exact .inl ⟨rfl, again⟩
    | cons head before =>
        have isStart : head = start := visits.head_of_single head rfl
        have nodup : (head :: before ++ id :: after).Nodup := split ▸ walk_nodup
        simp [isStart, again] at nodup
  · exact .inr placed

/-- A walk returns each reached element once, every one but its start behind an accepted parent, and
asks about each of them in this order. -/
theorem walk_reaches_once (tree : SyntaxTree) (descend : TreeId → Shape → Bool) (start : TreeId) :
    (tree.walk descend start).Nodup ∧
      (∀ id, id ∈ tree.walk descend start ↔ tree.Reaches descend start id) ∧
      (∀ before id after, tree.walk descend start = before ++ id :: after →
        (before = [] ∧ id = start) ∨ ∃ parent ∈ before, tree.Refers descend parent id) ∧
      (∃ asked, tree.walkWith (recording descend) start [] = (tree.walk descend start, asked) ∧
        asked.map Prod.fst = tree.walk descend start ∧
        ∀ call ∈ asked, tree.shape? call.1 = some call.2) ∧
      (tree.walk descend start = [] ↔ tree.shape? start = none) := by
  obtain ⟨asked, visits, listed, placed⟩ := (tree.walk_visits descend start).recorded []
  have walked : tree.walkWith (recording descend) start [] = (tree.walk descend start, asked) :=
    walkWith_eq_iff_visits.mpr visits
  exact ⟨walk_nodup, fun _ => mem_walk_iff, fun _ _ _ => walk_behind_parent,
    ⟨asked, walked, listed, placed⟩, walk_eq_nil_iff⟩

/-- An arena with shared, repeated, cyclic and dangling references. -/
def knot : SyntaxTree where
  elements := #[⟨⟨0⟩, .block [⟨1⟩, ⟨2⟩, ⟨1⟩]⟩, ⟨⟨1⟩, .lambda [] ⟨3⟩⟩,
    ⟨⟨2⟩, .other "loop" [⟨0⟩, ⟨3⟩, ⟨9⟩]⟩, ⟨⟨3⟩, .identifier "x"⟩]
  root := none

def knotDescend (id : TreeId) (_ : Shape) : Bool := id ≠ ⟨1⟩

/-- The last element is met below one that is not accepted, and is found behind another one. -/
theorem knot_walk_reaches_once :
    knot.walk knotDescend ⟨0⟩ = [⟨0⟩, ⟨1⟩, ⟨2⟩] ++ [⟨3⟩] ∧
      ∃ parent ∈ [⟨0⟩, ⟨1⟩, ⟨2⟩], knot.Refers knotDescend parent ⟨3⟩ := by
  have walked : knot.walk knotDescend ⟨0⟩ = [⟨0⟩, ⟨1⟩, ⟨2⟩] ++ [⟨3⟩] := by cbv
  obtain ⟨_, _, behind, _⟩ := walk_reaches_once knot knotDescend ⟨0⟩
  rcases behind _ _ _ walked with ⟨first, _⟩ | placed
  · contradiction
  · exact ⟨walked, placed⟩

end FlowLink.SyntaxTree
