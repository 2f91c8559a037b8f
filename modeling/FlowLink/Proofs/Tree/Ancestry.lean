import FlowLink.Proofs.Tree.Routes

namespace FlowLink.SyntaxTree

/-! # Ancestry without sharing

Routes can be put on end and cut anywhere.  Where there is one route only to each element, whatever
leads to an element lies on its route: of two such elements one leads to the other, and a search
that comes to the element passes through both.
-/

/-- The test that every element passes. -/
abbrev everywhere (_ : TreeId) (_ : Shape) : Bool := true

variable {tree : SyntaxTree} {descend wider : TreeId → Shape → Bool}
  {start middle target left right parent child : TreeId} {shape : Shape}
  {positions others : List Nat} {above beyond : List TreeId}

theorem Route.source_in_arena (route : tree.Route descend start positions above target) :
    ∃ shape, tree.shape? start = some shape :=
  (reaches_iff_route.mpr ⟨positions, above, route⟩).source_in_arena

theorem Route.append (first : tree.Route descend start positions above middle)
    (second : tree.Route descend middle others beyond target) :
    tree.Route descend start (positions ++ others) (above ++ beyond) target := by
  induction first with
  | here => exact second
  | down found accepted isChild _ ih => exact .down found accepted isChild (ih second)

theorem Route.cut (route : tree.Route descend start (positions ++ others) above target) :
    ∃ middle before after, tree.Route descend start positions before middle ∧
      tree.Route descend middle others after target := by
  induction positions generalizing start above with
  | nil =>
      obtain ⟨_, found⟩ := route.source_in_arena
      exact ⟨start, [], above, .here found, route⟩
  | cons position positions ih =>
      cases route with
      | down found accepted isChild onward =>
          obtain ⟨middle, before, after, first, second⟩ := ih onward
          exact ⟨middle, start :: before, after, .down found accepted isChild first, second⟩

theorem Route.widen (accepts : ∀ id shape, descend id shape = true → wider id shape = true)
    (route : tree.Route descend start positions above target) :
    tree.Route wider start positions above target := by
  induction route with
  | here found => exact .here found
  | down found accepted isChild _ ih => exact .down found (accepts _ _ accepted) isChild ih

theorem Reaches.widen (reached : tree.Reaches descend start target)
    (accepts : ∀ id shape, tree.shape? id = some shape → descend id shape = true →
      wider id shape = true) : tree.Reaches wider start target := by
  induction reached with
  | here found => exact .here found
  | through found accepted member _ ih =>
      exact .through found (accepts _ _ found accepted) member ih

theorem Reaches.leads (reached : tree.Reaches descend start target) : tree.Leads start target :=
  reached.widen fun _ _ _ _ => rfl

theorem Reaches.target_in_arena (reached : tree.Reaches descend start target) :
    ∃ shape, tree.shape? target = some shape := by
  induction reached with
  | here found => exact ⟨_, found⟩
  | through _ _ _ _ ih => exact ih

theorem Reaches.trans (first : tree.Reaches descend start middle)
    (second : tree.Reaches descend middle target) : tree.Reaches descend start target := by
  induction first with
  | here => exact second
  | through found accepted member _ ih => exact .through found accepted member (ih second)

/-- What an element leads to is the element itself or below one of its children. -/
theorem Reaches.down (reached : tree.Reaches descend start target) (apart : target ≠ start)
    (found : tree.shape? start = some shape) :
    descend start shape = true ∧ ∃ child ∈ shape.children, tree.Reaches descend child target := by
  cases reached with
  | here => exact absurd rfl apart
  | through found' accepted member onward =>
      cases found.symm.trans found'
      exact ⟨accepted, _, member, onward⟩

/-- What an element leads to is the element itself or a child of something that it leads to. -/
theorem Reaches.up (reached : tree.Reaches descend start target) (apart : target ≠ start) :
    ∃ parent shape, tree.Reaches descend start parent ∧ tree.shape? parent = some shape ∧
      target ∈ shape.children := by
  induction reached with
  | here => exact absurd rfl apart
  | @through id child target shape found accepted isChild onward ih =>
      by_cases same : target = child
      · subst same
        exact ⟨id, shape, .here found, found, isChild⟩
      · obtain ⟨parent, shape', between, found', isLast⟩ := ih same
        exact ⟨parent, shape', .through found accepted isChild between, found', isLast⟩

namespace Unshared

theorem narrow (unshared : tree.Unshared wider start)
    (accepts : ∀ id shape, descend id shape = true → wider id shape = true) :
    tree.Unshared descend start := by
  intro positions others above beyond target route again
  exact unshared _ _ _ _ _ (route.widen accepts) (again.widen accepts)

theorem below (unshared : tree.Unshared descend start)
    (reached : tree.Reaches descend start middle) : tree.Unshared descend middle := by
  intro positions others above beyond target route again
  obtain ⟨first, before, toMiddle⟩ := reaches_iff_route.mp reached
  exact List.append_cancel_left
    (unshared _ _ _ _ _ (toMiddle.append route) (toMiddle.append again))

/-- No element leads back to one that it is a child of. -/
theorem acyclic (unshared : tree.Unshared descend parent) (found : tree.shape? parent = some shape)
    (accepted : descend parent shape = true) (isChild : child ∈ shape.children)
    (back : tree.Reaches descend child parent) : False := by
  obtain ⟨position, isChild⟩ := List.mem_iff_getElem?.mp isChild
  obtain ⟨positions, above, route⟩ := reaches_iff_route.mp back
  have same := unshared _ _ _ _ _ (.down found accepted isChild route) (.here found)
  contradiction

/-- Two children from which the same element is reached stand at the same position. -/
theorem position_unique {first second : Nat} (unshared : tree.Unshared descend parent)
    (found : tree.shape? parent = some shape) (accepted : descend parent shape = true)
    (isLeft : shape.children[first]? = some left) (isRight : shape.children[second]? = some right)
    (fromLeft : tree.Reaches descend left target) (fromRight : tree.Reaches descend right target) :
    first = second := by
  obtain ⟨positions, above, route⟩ := reaches_iff_route.mp fromLeft
  obtain ⟨others, beyond, again⟩ := reaches_iff_route.mp fromRight
  exact (List.cons.inj (unshared _ _ _ _ _ (.down found accepted isLeft route)
    (.down found accepted isRight again))).1

theorem parent_unique {leftShape rightShape : Shape} (unshared : tree.Unshared everywhere start)
    (toLeft : tree.Leads start left) (toRight : tree.Leads start right)
    (fromLeft : tree.shape? left = some leftShape) (fromRight : tree.shape? right = some rightShape)
    (leftChild : child ∈ leftShape.children) (rightChild : child ∈ rightShape.children)
    (found : tree.shape? child = some shape) : left = right := by
  obtain ⟨positions, above, toLeft⟩ := reaches_iff_route.mp toLeft
  obtain ⟨others, beyond, toRight⟩ := reaches_iff_route.mp toRight
  obtain ⟨first, leftChild⟩ := List.mem_iff_getElem?.mp leftChild
  obtain ⟨second, rightChild⟩ := List.mem_iff_getElem?.mp rightChild
  have same := unshared _ _ _ _ _ (toLeft.append (.down fromLeft rfl leftChild (.here found)))
    (toRight.append (.down fromRight rfl rightChild (.here found)))
  obtain ⟨rfl, _⟩ := List.append_inj' same rfl
  exact (toLeft.determined toRight).2

/-- What leads to an element leads to its parent, unless it is the element itself. -/
theorem leads_parent (unshared : tree.Unshared everywhere start) (toMiddle : tree.Leads start middle)
    (toParent : tree.Leads start parent) (found : tree.shape? parent = some shape)
    (isChild : child ∈ shape.children) (onward : tree.Leads middle child) (apart : child ≠ middle) :
    tree.Leads middle parent := by
  obtain ⟨other, otherShape, between, isOther, otherChild⟩ := onward.up apart
  obtain ⟨_, inArena⟩ := onward.target_in_arena
  obtain rfl := unshared.parent_unique (toMiddle.trans between) toParent isOther found otherChild
    isChild inArena
  exact between

/-- Of two elements that lead to the same one, one leads to the other. -/
theorem comparable (unshared : tree.Unshared everywhere start) (toLeft : tree.Leads start left)
    (toRight : tree.Leads start right) (fromLeft : tree.Leads left target)
    (fromRight : tree.Leads right target) : tree.Leads left right ∨ tree.Leads right left := by
  obtain ⟨positions, above, toLeft⟩ := reaches_iff_route.mp toLeft
  obtain ⟨others, beyond, toRight⟩ := reaches_iff_route.mp toRight
  obtain ⟨positions', above', fromLeft⟩ := reaches_iff_route.mp fromLeft
  obtain ⟨others', beyond', fromRight⟩ := reaches_iff_route.mp fromRight
  have same := unshared _ _ _ _ _ (toLeft.append fromLeft) (toRight.append fromRight)
  rcases List.append_eq_append_iff.mp same with ⟨between, rfl, rfl⟩ | ⟨between, rfl, rfl⟩
  · obtain ⟨found, before, after, onward, _⟩ := fromLeft.cut
    obtain ⟨_, rfl⟩ := (toLeft.append onward).determined toRight
    exact .inl (reaches_iff_route.mpr ⟨between, before, onward⟩)
  · obtain ⟨found, before, after, onward, _⟩ := fromRight.cut
    obtain ⟨_, rfl⟩ := (toRight.append onward).determined toLeft
    exact .inr (reaches_iff_route.mpr ⟨between, before, onward⟩)

/-- A search comes to an element through whatever leads to it. -/
theorem passes (unshared : tree.Unshared everywhere start)
    (reached : tree.Reaches descend start target) (toMiddle : tree.Leads start middle)
    (onward : tree.Leads middle target) :
    tree.Reaches descend start middle ∧ tree.Reaches descend middle target := by
  obtain ⟨positions, above, reached⟩ := reaches_iff_route.mp reached
  obtain ⟨first, before, toMiddle⟩ := reaches_iff_route.mp toMiddle
  obtain ⟨second, after, onward⟩ := reaches_iff_route.mp onward
  obtain rfl := unshared _ _ _ _ _ (reached.widen fun _ _ _ => rfl) (toMiddle.append onward)
  obtain ⟨found, before', after', toFound, fromFound⟩ := reached.cut
  obtain ⟨_, rfl⟩ := (toFound.widen fun _ _ _ => rfl).determined toMiddle
  exact ⟨reaches_iff_route.mpr ⟨first, before', toFound⟩,
    reaches_iff_route.mpr ⟨second, after', fromFound⟩⟩

end Unshared

end FlowLink.SyntaxTree
