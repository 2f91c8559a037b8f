import FlowLink.Proofs.Tree.Ancestry
import FlowLink.Proofs.Tree.Walks
import Mathlib.Algebra.Order.BigOperators.Group.List
import Mathlib.Algebra.Order.Group.Nat

namespace FlowLink.SyntaxTree

/-! # Walked subtrees

Where no element is reached on two routes, the marks of a traversal suppress nothing.  A walk is
then its start followed by the walks of the children, and the pre-order is a walk with the subtree
of every element below which the walk did not go put in its place.
-/

variable {κ : Type} {tree : SyntaxTree} {descend : TreeId → Shape → Bool}
  {enter : TreeId → Shape → κ → Option κ} {start target id : TreeId} {shape : Shape}
  {row : List TreeId}

/-- Only the marks on what is reached have a part in a traversal. -/
theorem depthFirst_congr {seen : List TreeId} {pending : List (TreeId × κ)}
    (goes : ∀ id shape context inner,
      enter id shape context = some inner → descend id shape = true) :
    ∀ others : List TreeId,
      (∀ entry ∈ pending, ∀ target, tree.Reaches descend entry.1 target →
        (target ∈ seen ↔ target ∈ others)) →
      tree.depthFirst enter seen pending = tree.depthFirst enter others pending := by
  fun_induction depthFirst tree enter seen pending with
  | case1 seen =>
      intro others _
      rw [depthFirst_nil]
  | case2 seen id context rest outside ih =>
      intro others alike
      rw [depthFirst_outside outside]
      exact ih others fun entry member => alike entry (List.mem_cons_of_mem _ member)
  | case3 seen id context rest shape found known ih =>
      intro others alike
      rw [depthFirst_known ((alike _ List.mem_cons_self _ (.here found)).mp known)]
      exact ih others fun entry member => alike entry (List.mem_cons_of_mem _ member)
  | case4 seen id context rest shape found fresh below belowIH restIH =>
      intro others alike
      have fresh' : id ∉ others := fun known =>
        fresh ((alike _ List.mem_cons_self _ (.here found)).mpr known)
      have inside : below = tree.depthFirst enter (others ++ [id])
          (handDown shape (enter id shape context)) := by
        apply belowIH
        intro entry handed target reached
        obtain ⟨isChild, enters⟩ := mem_handDown.mp handed
        have fromHere := Reaches.through found (goes _ _ _ _ enters) isChild reached
        simp only [List.mem_append, alike _ List.mem_cons_self _ fromHere]
      rw [depthFirst_fresh found fresh', ← inside]
      apply congrArg
      apply restIH
      intro entry member target reached
      simp only [List.mem_append, alike entry (List.mem_cons_of_mem _ member) _ reached]

/-! ## Rows of subtrees -/

/-- No element is reached from this row of elements on two routes. -/
structure Branches (tree : SyntaxTree) (descend : TreeId → Shape → Bool) (row : List TreeId) :
    Prop where
  unshared : ∀ id ∈ row, tree.Unshared descend id
  apart : row.Pairwise fun left right =>
    ∀ target, tree.Reaches descend left target → ¬ tree.Reaches descend right target

theorem Unshared.branches (unshared : tree.Unshared descend start)
    (found : tree.shape? start = some shape) (accepted : descend start shape = true) :
    tree.Branches descend shape.children where
  unshared id isChild := by
    intro positions others above beyond target route again
    obtain ⟨position, isChild⟩ := List.mem_iff_getElem?.mp isChild
    exact (List.cons.inj (unshared _ _ _ _ _ (.down found accepted isChild route)
      (.down found accepted isChild again))).2
  apart := by
    rw [List.pairwise_iff_getElem]
    intro first second bound bound' before target fromLeft fromRight
    have same := unshared.position_unique found accepted (List.getElem?_eq_getElem bound)
      (List.getElem?_eq_getElem bound') fromLeft fromRight
    omega

theorem goes_of_passing (id : TreeId) (shape : Shape) (context inner : κ)
    (enters : passing descend id shape context = some inner) : descend id shape = true := by
  by_contra refused
  rw [passing, if_neg refused] at enters
  contradiction

theorem mem_recursiveWalk_iff :
    target ∈ tree.recursiveWalk descend start ↔ tree.Reaches descend start target := by
  rw [← walk_eq_recursiveWalk, mem_walk_iff]

/-- A row of subtrees is traversed as each of them would be by itself. -/
theorem Branches.foundIds (branches : tree.Branches descend row) :
    tree.foundIds (passing descend) [] (row.map fun id => (id, ())) =
      row.flatMap (tree.walk descend) := by
  induction row with
  | nil => rw [SyntaxTree.foundIds, List.map_nil, depthFirst_nil, List.flatMap_nil, List.map_nil]
  | cons id rest ih =>
      obtain ⟨apart, restApart⟩ := List.pairwise_cons.mp branches.apart
      have later : tree.depthFirst (passing descend) (tree.recursiveWalk descend id)
            (rest.map fun id => (id, ())) =
          tree.depthFirst (passing descend) [] (rest.map fun id => (id, ())) := by
        apply depthFirst_congr goes_of_passing _
        intro entry pending target reached
        obtain ⟨other, member, rfl⟩ := List.mem_map.mp pending
        rw [mem_recursiveWalk_iff]
        simp only [List.not_mem_nil, iff_false]
        exact fun fromHere => apart other member target fromHere reached
      have onward := ih ⟨fun other member => branches.unshared other
        (List.mem_cons_of_mem _ member), restApart⟩
      have split : tree.depthFirst (passing descend) [] ((id :: rest).map fun id => (id, ())) =
          _ ++ tree.depthFirst (passing descend) (tree.recursiveWalk descend id) _ :=
        depthFirst_append [(id, ())] (rest.map fun id => (id, ()))
      rw [List.flatMap_cons, ← onward, walk_eq_recursiveWalk, SyntaxTree.foundIds, split, later,
        List.map_append]
      rfl

/-- A walk is its start, and then the walks of the children if it goes below its start. -/
theorem Unshared.walk_eq (unshared : tree.Unshared descend start)
    (found : tree.shape? start = some shape) :
    tree.walk descend start =
      start :: if descend start shape then shape.children.flatMap (tree.walk descend) else [] := by
  rw [walk_eq_recursiveWalk, recursiveWalk, SyntaxTree.foundIds,
    depthFirst_fresh found List.not_mem_nil, depthFirst_nil, List.append_nil, List.map_cons,
    List.cons.injEq]
  refine ⟨rfl, ?_⟩
  cases accepted : descend start shape with
  | false =>
      rw [passing, accepted, if_neg Bool.false_ne_true, handDown, depthFirst_nil,
        if_neg Bool.false_ne_true, List.map_nil]
  | true =>
      rw [if_pos rfl, ← (unshared.branches found accepted).foundIds, SyntaxTree.foundIds, passing,
        accepted, if_pos rfl]
      apply congrArg (List.map Prod.fst)
      apply depthFirst_congr goes_of_passing _
      intro entry handed target reached
      obtain ⟨isChild, _⟩ := mem_handDown.mp handed
      simp only [List.nil_append, List.mem_singleton, List.not_mem_nil, iff_false]
      rintro rfl
      exact unshared.acyclic found accepted isChild reached

theorem Unshared.preorder_eq (unshared : tree.Unshared everywhere start)
    (found : tree.shape? start = some shape) :
    tree.preorder start = start :: shape.children.flatMap tree.preorder := by
  rw [preorder, unshared.walk_eq found, if_pos rfl]
  rfl

theorem preorder_of_outside (outside : tree.shape? start = none) : tree.preorder start = [] :=
  walk_eq_nil_iff.mpr outside

/-! ## Walks within the pre-order -/

/-- What stands in the pre-order where a walk has this element: the element alone if the walk goes
below it, and otherwise its subtree. -/
def unfolded (tree : SyntaxTree) (descend : TreeId → Shape → Bool) (id : TreeId) : List TreeId :=
  if (tree.shape? id).any (descend id) then [id] else tree.preorder id

theorem unfolded_of_refused (found : tree.shape? id = some shape)
    (refused : descend id shape = false) : tree.unfolded descend id = tree.preorder id := by
  rw [unfolded, found, Option.any_some, refused, if_neg Bool.false_ne_true]

theorem Unshared.preorder_eq_unfolded (unshared : tree.Unshared everywhere start) :
    tree.preorder start = (tree.walk descend start).flatMap (tree.unfolded descend) := by
  -- The pre-order of a child is shorter, so this goes by the length of the pre-order.
  induction length : (tree.preorder start).length using Nat.strongRecOn generalizing start with
  | ind size ih =>
      cases found : tree.shape? start with
      | none =>
          rw [walk_eq_nil_iff.mpr found, preorder_of_outside found, List.flatMap_nil]
      | some shape =>
          have whole := unshared.preorder_eq found
          rw [(unshared.narrow fun _ _ _ => rfl).walk_eq found, List.flatMap_cons]
          cases accepted : descend start shape with
          | false =>
              rw [unfolded_of_refused found accepted, if_neg Bool.false_ne_true, List.flatMap_nil,
                List.append_nil]
          | true =>
              rw [unfolded, found, Option.any_some, accepted, if_pos rfl, if_pos rfl,
                List.flatMap_assoc, whole, List.singleton_append, List.cons.injEq]
              refine ⟨rfl, List.flatMap_congr ?_⟩
              intro child isChild
              apply ih _ _ ((unshared.branches found rfl).unshared child isChild) rfl
              rw [← length, whole, List.length_cons, List.length_flatMap, Nat.lt_succ_iff]
              exact List.le_sum_of_mem (List.mem_map_of_mem isChild)

end FlowLink.SyntaxTree
