import FlowLink.Proofs.Tree.Discovery

namespace FlowLink.SyntaxTree

/-! # Routes

A route says how child references lead from one element to another: by the position of the child
that is taken at each element.  A reference that is repeated in one parent gives two routes.  Where
there is one route only to each element, nothing depends on the order of a traversal.
-/

/-- Taking the children at these positions, from `start` on and below accepted elements, leads
through the elements above `target` to `target`. -/
inductive Route (tree : SyntaxTree) (descend : TreeId → Shape → Bool) :
    TreeId → List Nat → List TreeId → TreeId → Prop
  | here {id : TreeId} {shape : Shape} (found : tree.shape? id = some shape) :
      Route tree descend id [] [] id
  | down {id child target : TreeId} {shape : Shape} {position : Nat} {positions : List Nat}
      {above : List TreeId} (found : tree.shape? id = some shape)
      (accepted : descend id shape = true) (isChild : shape.children[position]? = some child)
      (onward : Route tree descend child positions above target) :
      Route tree descend id (position :: positions) (id :: above) target

/-- No element is reached from `start` on two routes. -/
def Unshared (tree : SyntaxTree) (descend : TreeId → Shape → Bool) (start : TreeId) : Prop :=
  ∀ positions others above beyond target, tree.Route descend start positions above target →
    tree.Route descend start others beyond target → positions = others

variable {κ : Type} {tree : SyntaxTree} {descend : TreeId → Shape → Bool}
  {start id child target other : TreeId} {shape : Shape} {position : Nat}
  {positions : List Nat} {above beyond : List TreeId}

theorem Route.determined (route : tree.Route descend start positions above target)
    (again : tree.Route descend start positions beyond other) :
    above = beyond ∧ target = other := by
  induction route generalizing beyond with
  | here =>
      cases again
      exact ⟨rfl, rfl⟩
  | down found _ isChild onward ih =>
      cases again with
      | down found' _ isChild' onward' =>
          cases found.symm.trans found'
          cases isChild.symm.trans isChild'
          obtain ⟨rfl, rfl⟩ := ih onward'
          exact ⟨rfl, rfl⟩

theorem reaches_iff_route :
    tree.Reaches descend start target ↔
      ∃ positions above, tree.Route descend start positions above target := by
  constructor
  · intro reached
    induction reached with
    | here found => exact ⟨[], [], .here found⟩
    | through found accepted member onward ih =>
        obtain ⟨positions, above, route⟩ := ih
        obtain ⟨position, isChild⟩ := List.mem_iff_getElem?.mp member
        exact ⟨position :: positions, _ :: above, .down found accepted isChild route⟩
  · intro routed
    obtain ⟨positions, above, route⟩ := routed
    induction route with
    | here found => exact .here found
    | down found accepted isChild onward ih =>
        exact .through found accepted (List.mem_of_getElem? isChild) ih

/-- What a depth-first traversal finds, it finds along a route from a pending element. -/
theorem depthFirst_route {seen : List TreeId} {pending : List (TreeId × List TreeId)}
    (found : (target, above) ∈
      tree.depthFirst (fun id _ above => some (above ++ [id])) seen pending) :
    ∃ entry ∈ pending, ∃ positions below,
      tree.Route (fun _ _ => true) entry.1 positions below target ∧ above = entry.2 ++ below := by
  fun_induction depthFirst tree (fun id _ above => some (above ++ [id])) seen pending with
  | case1 seen => simp at found
  | case2 seen id context rest outside ih =>
      obtain ⟨entry, member, route⟩ := ih found
      exact ⟨entry, List.mem_cons_of_mem _ member, route⟩
  | case3 seen id context rest shape _ known ih =>
      obtain ⟨entry, member, route⟩ := ih found
      exact ⟨entry, List.mem_cons_of_mem _ member, route⟩
  | case4 seen id context rest shape isHere fresh below belowIH restIH =>
      simp only [List.cons_append, List.mem_cons, List.mem_append, Prod.mk.injEq] at found
      rcases found with ⟨rfl, rfl⟩ | found | found
      · exact ⟨_, List.mem_cons_self, [], [], .here isHere, (List.append_nil _).symm⟩
      · obtain ⟨entry, member, positions, below, route, rfl⟩ := belowIH found
        obtain ⟨isChild, handed⟩ := mem_handDown.mp member
        obtain ⟨position, isChild⟩ := List.mem_iff_getElem?.mp isChild
        refine ⟨_, List.mem_cons_self, position :: positions, id :: below,
          .down isHere rfl isChild route, ?_⟩
        rw [← Option.some.inj handed]
        simp
      · obtain ⟨entry, member, route⟩ := restIH found
        exact ⟨entry, List.mem_cons_of_mem _ member, route⟩

theorem discoveries_route (discovered : (target, above) ∈ tree.discoveries start) :
    ∃ positions, tree.Route (fun _ _ => true) start positions above target := by
  obtain ⟨entry, isStart, positions, below, route, rfl⟩ := depthFirst_route discovered
  cases List.mem_singleton.mp isStart
  exact ⟨positions, route⟩

/-- The only route to an element is the one on which it is found. -/
theorem mem_discoveries_iff_of_unshared (unshared : tree.Unshared (fun _ _ => true) start)
    (route : tree.Route (fun _ _ => true) start positions above target) :
    (target, beyond) ∈ tree.discoveries start ↔ beyond = above := by
  have found : ∀ beyond, (target, beyond) ∈ tree.discoveries start → beyond = above := by
    intro beyond discovered
    obtain ⟨others, again⟩ := discoveries_route discovered
    obtain rfl := unshared _ _ _ _ _ again route
    exact (again.determined route).1
  constructor
  · exact found beyond
  · rintro rfl
    obtain ⟨beyond, discovered⟩ :=
      leads_iff_discovered.mp (reaches_iff_route.mpr ⟨positions, _, route⟩)
    cases found beyond discovered
    exact discovered

/-! ## Arenas without shared references -/

def references (tree : SyntaxTree) : List TreeId :=
  tree.elements.toList.flatMap fun element => element.shape.children

theorem Route.parent (route : tree.Route descend start (positions ++ [position]) above target) :
    ∃ parent before shape, tree.Route descend start positions before parent ∧
      tree.shape? parent = some shape ∧ shape.children[position]? = some target := by
  induction positions generalizing start above with
  | nil =>
      cases route with
      | down found _ isChild onward =>
          cases onward
          exact ⟨start, [], _, .here found, found, isChild⟩
  | cons first rest ih =>
      cases route with
      | down found accepted isChild onward =>
          obtain ⟨parent, before, shape, route, isParent, isLast⟩ := ih onward
          exact ⟨parent, start :: before, shape, .down found accepted isChild route, isParent,
            isLast⟩

theorem shape?_eq_some_iff :
    tree.shape? id = some shape ↔
      ∃ element, tree.elements.toList[id.index]? = some element ∧ element.shape = shape := by
  simp only [shape?, get?, Option.map_eq_some_iff, Array.getElem?_toList]

theorem mem_references (found : tree.shape? id = some shape) (isChild : child ∈ shape.children) :
    child ∈ tree.references := by
  obtain ⟨element, listed, rfl⟩ := shape?_eq_some_iff.mp found
  exact List.mem_flatMap.mpr ⟨element, List.mem_of_getElem? listed, isChild⟩

/-- An element that is referenced once has one parent and one position. -/
theorem parent_unique {left right : TreeId} {leftShape rightShape : Shape} {first second : Nat}
    (nodup : tree.references.Nodup) (fromLeft : tree.shape? left = some leftShape)
    (fromRight : tree.shape? right = some rightShape)
    (leftChild : leftShape.children[first]? = some child)
    (rightChild : rightShape.children[second]? = some child) : left = right ∧ first = second := by
  obtain ⟨leftElement, leftListed, rfl⟩ := shape?_eq_some_iff.mp fromLeft
  obtain ⟨rightElement, rightListed, rfl⟩ := shape?_eq_some_iff.mp fromRight
  obtain ⟨eachNodup, disjoint⟩ := List.nodup_flatMap.mp nodup
  obtain ⟨leftBound, leftAt⟩ := List.getElem?_eq_some_iff.mp leftListed
  obtain ⟨rightBound, rightAt⟩ := List.getElem?_eq_some_iff.mp rightListed
  have inLeft := List.mem_of_getElem? leftChild
  have inRight := List.mem_of_getElem? rightChild
  have apart := List.pairwise_iff_getElem.mp disjoint
  rcases Nat.lt_trichotomy left.index right.index with less | same | more
  · have clash := apart _ _ leftBound rightBound less
    rw [leftAt, rightAt] at clash
    exact absurd inRight (clash inLeft)
  · have sameId : left = right := congrArg TreeId.mk same
    subst right
    cases leftListed.symm.trans rightListed
    have bound := (List.getElem?_eq_some_iff.mp leftChild).1
    refine ⟨rfl, ?_⟩
    exact (List.getElem?_inj bound (eachNodup _ (List.mem_of_getElem? leftListed))).mp
      (leftChild.trans rightChild.symm)
  · have clash := apart _ _ rightBound leftBound more
    rw [leftAt, rightAt] at clash
    exact absurd inLeft (clash inRight)

/-- If no reference occurs twice in the whole arena and none leads back to the start, each element
has one route at most. -/
theorem unshared_of_nodup (nodup : tree.references.Nodup) (top : start ∉ tree.references)
    (descend : TreeId → Shape → Bool) : tree.Unshared descend start := by
  intro positions others above beyond target route again
  -- The routes are compared from their ends: both come from the only parent of the target.
  induction positions using List.reverseRecOn generalizing others above beyond target with
  | nil =>
      cases route
      cases others using List.reverseRecOn with
      | nil => rfl
      | append_singleton others position =>
          obtain ⟨_, _, _, _, isParent, isChild⟩ := again.parent
          exact absurd (mem_references isParent (List.mem_of_getElem? isChild)) top
  | append_singleton positions position ih =>
      obtain ⟨parent, before, shape, shorter, isParent, isChild⟩ := route.parent
      cases others using List.reverseRecOn with
      | nil =>
          cases again
          exact absurd (mem_references isParent (List.mem_of_getElem? isChild)) top
      | append_singleton others second =>
          obtain ⟨parent', before', shape', shorter', isParent', isChild'⟩ := again.parent
          obtain ⟨rfl, rfl⟩ := parent_unique nodup isParent isParent' isChild isChild'
          rw [ih others before before' parent shorter shorter']

end FlowLink.SyntaxTree
