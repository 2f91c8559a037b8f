import FlowLink.Proofs.Tree.Subtrees
import FlowLink.Proofs.Tree.Validation

namespace FlowLink.SyntaxTree

/-! # Walks in blocks

`Expands` is a walk without marks: an element is emitted as often as it is met, and where child
references lead back to it the expansion has no end and thus no result.  What a walk returns is the
expansion of its start just if no element is reached on two routes.  Then each subtree that is
walked stands in the walk as a block of its own.
-/

/-- The children that a walk goes to from an element. -/
def entered (descend : TreeId → Shape → Bool) (id : TreeId) (shape : Shape) : List TreeId :=
  if descend id shape then shape.children else []

/-- With nothing marked, a row of ids is expanded from left to right: each element is followed by
the expansion of the children that are entered from it. -/
inductive Expands (tree : SyntaxTree) (descend : TreeId → Shape → Bool) :
    List TreeId → List TreeId → Prop
  | done : Expands tree descend [] []
  | skip {id : TreeId} {rest emitted : List TreeId} (outside : tree.shape? id = none)
      (onward : Expands tree descend rest emitted) : Expands tree descend (id :: rest) emitted
  | take {id : TreeId} {shape : Shape} {rest inside later : List TreeId}
      (found : tree.shape? id = some shape)
      (below : Expands tree descend (entered descend id shape) inside)
      (onward : Expands tree descend rest later) :
      Expands tree descend (id :: rest) (id :: inside ++ later)

variable {tree : SyntaxTree} {descend : TreeId → Shape → Bool} {start id child target : TreeId}
  {shape : Shape} {row marked emitted : List TreeId}

theorem mem_entered_iff :
    child ∈ entered descend id shape ↔ descend id shape = true ∧ child ∈ shape.children := by
  unfold entered
  split
  · simp [*]
  · simp [*]

theorem reaches_iff_entered (found : tree.shape? id = some shape) :
    tree.Reaches descend id target ↔
      target = id ∨ ∃ child ∈ entered descend id shape, tree.Reaches descend child target := by
  constructor
  · intro reached
    by_cases same : target = id
    · exact .inl same
    · obtain ⟨accepted, child, isChild, onward⟩ := reached.down same found
      exact .inr ⟨child, mem_entered_iff.mpr ⟨accepted, isChild⟩, onward⟩
  · rintro (rfl | ⟨child, member, onward⟩)
    · exact .here found
    · obtain ⟨accepted, isChild⟩ := mem_entered_iff.mp member
      exact .through found accepted isChild onward

theorem unreached_of_outside (outside : tree.shape? id = none) :
    ¬ tree.Reaches descend id target := by
  intro reached
  obtain ⟨shape, found⟩ := reached.source_in_arena
  exact Option.some_ne_none shape (found.symm.trans outside)

/-- An expansion emits what the ids of its row lead to, once or many times. -/
theorem Expands.mem_iff (expands : tree.Expands descend row emitted) :
    target ∈ emitted ↔ ∃ id ∈ row, tree.Reaches descend id target := by
  induction expands with
  | done => simp
  | skip outside _ ih => simp [ih, unreached_of_outside outside]
  | take found _ _ belowIH onwardIH =>
      simp only [List.cons_append, List.mem_cons, List.mem_append, exists_eq_or_imp,
        reaches_iff_entered found, belowIH, onwardIH, or_assoc]

/-! ## Marks that suppress nothing -/

theorem branches_nil : tree.Branches descend [] :=
  ⟨fun _ member => absurd member List.not_mem_nil, List.Pairwise.nil⟩

theorem Branches.tail (branches : tree.Branches descend (id :: row)) :
    tree.Branches descend row where
  unshared other member := branches.unshared other (List.mem_cons_of_mem _ member)
  apart := (List.pairwise_cons.mp branches.apart).2

theorem Unshared.branches_entered (unshared : tree.Unshared descend id)
    (found : tree.shape? id = some shape) :
    tree.Branches descend (entered descend id shape) := by
  unfold entered
  split
  · exact unshared.branches found ‹_›
  · exact branches_nil

/-- A row of subtrees without marks in it is visited to the end: whatever is skipped lies outside
the arena. -/
theorem Visits.expands {early late : Unit}
    (visits : Visits tree (stateless descend) marked early row emitted late)
    (branches : tree.Branches descend row)
    (unmarked : ∀ id ∈ row, ∀ target, tree.Reaches descend id target → target ∉ marked) :
    tree.Expands descend row emitted := by
  induction visits with
  | done => exact .done
  | @skip _ _ _ _ _ id skipped _ ih =>
      have onward := ih branches.tail fun other member =>
        unmarked other (List.mem_cons_of_mem _ member)
      cases found : tree.shape? id with
      | none => exact .skip found onward
      | some shape =>
          rcases skipped with outside | known
          · exact absurd (found.symm.trans outside) (Option.some_ne_none shape)
          · exact absurd known (unmarked id List.mem_cons_self id (.here found))
  | @take marked rest inside _ _ _ _ _ id shape enters found _ answer _ _ belowIH onwardIH =>
      obtain ⟨rfl, _⟩ := Prod.mk.inj answer
      have unshared := branches.unshared id List.mem_cons_self
      have apart := (List.pairwise_cons.mp branches.apart).1
      have fromHere : ∀ {child target}, child ∈ entered descend id shape →
          tree.Reaches descend child target → tree.Reaches descend id target :=
        fun member onward => (reaches_iff_entered found).mpr (.inr ⟨_, member, onward⟩)
      have below : tree.Expands descend (entered descend id shape) inside := by
        apply belowIH (unshared.branches_entered found)
        intro child member target onward
        rw [List.mem_append, List.mem_singleton]
        rintro (known | rfl)
        · exact unmarked id List.mem_cons_self target (fromHere member onward) known
        · obtain ⟨accepted, isChild⟩ := mem_entered_iff.mp member
          exact unshared.acyclic found accepted isChild onward
      refine .take found below (onwardIH branches.tail ?_)
      intro other member target reached
      rw [List.mem_append, List.mem_cons]
      rintro (known | rfl | emitted)
      · exact unmarked other (List.mem_cons_of_mem _ member) target reached known
      · exact apart other member target (.here found) reached
      · obtain ⟨child, isChild, onward⟩ := below.mem_iff.mp emitted
        exact apart other member target (fromHere isChild onward) reached

/-! ## Expansions without repetition -/

theorem Branches.position_unique {left right : TreeId} {first second : Nat}
    (branches : tree.Branches descend row) (isLeft : row[first]? = some left)
    (isRight : row[second]? = some right) (fromLeft : tree.Reaches descend left target)
    (fromRight : tree.Reaches descend right target) : first = second := by
  obtain ⟨leftBound, rfl⟩ := List.getElem?_eq_some_iff.mp isLeft
  obtain ⟨rightBound, rfl⟩ := List.getElem?_eq_some_iff.mp isRight
  have apart := List.pairwise_iff_getElem.mp branches.apart
  rcases Nat.lt_trichotomy first second with before | same | behind
  · exact absurd fromRight (apart _ _ leftBound rightBound before target fromLeft)
  · exact same
  · exact absurd fromLeft (apart _ _ rightBound leftBound behind target fromRight)

/-- An element shares nothing if its entered children share nothing and do not lead back to it. -/
theorem Branches.unshared_above (branches : tree.Branches descend (entered descend id shape))
    (found : tree.shape? id = some shape)
    (forward : ∀ child ∈ entered descend id shape, ¬ tree.Reaches descend child id) :
    tree.Unshared descend id := by
  have noReturn : ∀ {position positions above},
      ¬ tree.Route descend id (position :: positions) above id := by
    intro position positions above route
    cases route with
    | down found' accepted isChild onward =>
        cases found.symm.trans found'
        exact forward _ (mem_entered_iff.mpr ⟨accepted, List.mem_of_getElem? isChild⟩)
          (reaches_iff_route.mpr ⟨_, _, onward⟩)
  intro positions others above beyond target route again
  cases route with
  | here =>
      cases others with
      | nil => rfl
      | cons => exact absurd again noReturn
  | down foundLeft accepted isLeft toTarget =>
      cases again with
      | here => exact absurd (.down foundLeft accepted isLeft toTarget) noReturn
      | down foundRight _ isRight again =>
          cases found.symm.trans foundLeft
          cases found.symm.trans foundRight
          rw [entered, if_pos accepted] at branches
          obtain rfl := branches.position_unique isLeft isRight
            (reaches_iff_route.mpr ⟨_, _, toTarget⟩) (reaches_iff_route.mpr ⟨_, _, again⟩)
          cases isLeft.symm.trans isRight
          rw [branches.unshared _ (List.mem_of_getElem? isLeft) _ _ _ _ _ toTarget again]

theorem Expands.branches (expands : tree.Expands descend row emitted) (nodup : emitted.Nodup) :
    tree.Branches descend row := by
  induction expands with
  | done => exact branches_nil
  | skip outside _ ih =>
      refine ⟨?_, List.pairwise_cons.mpr ⟨?_, (ih nodup).apart⟩⟩
      · rw [List.forall_mem_cons]
        refine ⟨?_, (ih nodup).unshared⟩
        intro positions _ above _ target route
        exact absurd (reaches_iff_route.mpr ⟨positions, above, route⟩)
          (unreached_of_outside outside)
      · intro _ _ target reached
        exact absurd reached (unreached_of_outside outside)
  | @take id shape rest inside later found below onward belowIH onwardIH =>
      rw [List.cons_append, List.nodup_cons, List.nodup_append'] at nodup
      obtain ⟨once, insideNodup, laterNodup, disjoint⟩ := nodup
      have branches := onwardIH laterNodup
      refine ⟨?_, List.pairwise_cons.mpr ⟨?_, branches.apart⟩⟩
      · rw [List.forall_mem_cons]
        refine ⟨(belowIH insideNodup).unshared_above found ?_, branches.unshared⟩
        intro child member back
        exact once (List.mem_append_left _ (below.mem_iff.mpr ⟨child, member, back⟩))
      · intro other member target fromHere fromOther
        have isLater : target ∈ later := onward.mem_iff.mpr ⟨other, member, fromOther⟩
        rcases (reaches_iff_entered found).mp fromHere with rfl | inner
        · exact once (List.mem_append_right _ isLater)
        · exact disjoint (below.mem_iff.mpr inner) isLater

/-- The marks of a walk suppress nothing just if no element is reached on two routes. -/
theorem expands_walk_iff :
    tree.Expands descend [start] (tree.walk descend start) ↔ tree.Unshared descend start := by
  constructor
  · intro expands
    exact (expands.branches walk_nodup).unshared start (List.mem_singleton_self start)
  · intro unshared
    refine (tree.walk_visits descend start).expands ?_ fun _ _ _ _ => List.not_mem_nil
    refine ⟨?_, List.pairwise_singleton _ _⟩
    intro id member
    rwa [List.mem_singleton.mp member]

/-! ## Blocks -/

theorem Branches.disjoint (branches : tree.Branches descend row) :
    row.Pairwise fun left right =>
      (tree.walk descend left).Disjoint (tree.walk descend right) := by
  refine branches.apart.imp ?_
  intro left right apart target fromLeft fromRight
  exact apart target (mem_walk_iff.mp fromLeft) (mem_walk_iff.mp fromRight)

theorem Unshared.walk_of_accepted (unshared : tree.Unshared descend start)
    (found : tree.shape? start = some shape) (accepted : descend start shape = true) :
    tree.walk descend start = start :: shape.children.flatMap (tree.walk descend) := by
  rw [unshared.walk_eq found, if_pos accepted]

theorem Unshared.walk_infix (unshared : tree.Unshared descend start)
    (reached : tree.Reaches descend start id) :
    tree.walk descend id <:+: tree.walk descend start := by
  induction reached with
  | here => exact List.infix_rfl
  | @through start child _ _ found accepted isChild _ ih =>
      have inner := ih ((unshared.branches found accepted).unshared child isChild)
      rw [unshared.walk_of_accepted found accepted]
      exact List.infix_cons (inner.trans (List.infix_flatMap_of_mem isChild _))

/-- Where no element is reached on two routes, a walk is the structural pre-order.  It is its start
alone, or its start and then the walks of the children in their order.  The walk of each reached
element is a block of it, an accepted element stands directly before the blocks of its children,
which have nothing in common, and the marks suppress nothing. -/
theorem walk_structural (found : tree.shape? start = some shape)
    (unshared : tree.Unshared descend start) :
    (descend start shape = false → tree.walk descend start = [start]) ∧
      (descend start shape = true →
        tree.walk descend start = start :: (tree.children start).flatMap (tree.walk descend)) ∧
      (∀ id, tree.Reaches descend start id →
        tree.walk descend id <:+: tree.walk descend start) ∧
      (∀ parent shape, tree.Reaches descend start parent → tree.shape? parent = some shape →
        descend parent shape = true →
          parent :: (tree.children parent).flatMap (tree.walk descend) <:+:
              tree.walk descend start ∧
            (tree.children parent).Pairwise fun left right =>
              (tree.walk descend left).Disjoint (tree.walk descend right)) ∧
      tree.Expands descend [start] (tree.walk descend start) := by
  refine ⟨?_, ?_, fun _ => unshared.walk_infix, ?_, expands_walk_iff.mpr unshared⟩
  · intro refused
    rw [unshared.walk_eq found, refused, if_neg Bool.false_ne_true]
  · intro accepted
    rw [children_of_shape? found, unshared.walk_of_accepted found accepted]
  · intro parent parentShape reached isParent accepted
    have inner := unshared.below reached
    rw [children_of_shape? isParent, ← inner.walk_of_accepted isParent accepted]
    exact ⟨unshared.walk_infix reached, (inner.branches isParent accepted).disjoint⟩

/-- An arena with a shared element and a cycle, both below the lambda only, and with a dangling
reference. -/
def shaded : SyntaxTree where
  elements := #[⟨⟨0⟩, .block [⟨1⟩, ⟨2⟩, ⟨5⟩]⟩, ⟨⟨1⟩, .lambda [⟨3⟩] ⟨0⟩⟩,
    ⟨⟨2⟩, .other "loop" [⟨3⟩, ⟨9⟩, ⟨4⟩]⟩, ⟨⟨3⟩, .identifier "x"⟩, ⟨⟨4⟩, .literal "1"⟩,
    ⟨⟨5⟩, .identifier "y"⟩]
  root := none

def outsideLambdas (_ : TreeId) : Shape → Bool
  | .lambda .. => false
  | _ => true

theorem Expands.childless {rest later : List TreeId} (found : tree.shape? id = some shape)
    (bare : entered descend id shape = []) (onward : tree.Expands descend rest later) :
    tree.Expands descend (id :: rest) (id :: later) := by
  have below : tree.Expands descend (entered descend id shape) [] := by
    rw [bare]
    exact .done
  exact .take found below onward

theorem shaded_unshared : shaded.Unshared outsideLambdas ⟨0⟩ := by
  have loop : shaded.Expands outsideLambdas [⟨3⟩, ⟨9⟩, ⟨4⟩] [⟨3⟩, ⟨4⟩] :=
    .childless rfl rfl (.skip rfl (.childless rfl rfl .done))
  have last : shaded.Expands outsideLambdas [⟨5⟩] [⟨5⟩] := .childless rfl rfl .done
  have parts : shaded.Expands outsideLambdas [⟨1⟩, ⟨2⟩, ⟨5⟩]
      (⟨1⟩ :: (⟨2⟩ :: [⟨3⟩, ⟨4⟩] ++ [⟨5⟩])) :=
    .childless rfl rfl (.take rfl loop last)
  have whole : shaded.Expands outsideLambdas [⟨0⟩] (⟨0⟩ :: [⟨1⟩, ⟨2⟩, ⟨3⟩, ⟨4⟩, ⟨5⟩] ++ []) :=
    .take rfl parts .done
  have walked : shaded.walk outsideLambdas ⟨0⟩ = [⟨0⟩, ⟨1⟩, ⟨2⟩, ⟨3⟩, ⟨4⟩, ⟨5⟩] := by cbv
  rw [← expands_walk_iff, walked]
  exact whole

/-- The lambda is a block of one element.  Its parameter is walked in the block of the loop. -/
theorem shaded_walk_structural :
    let walk := shaded.walk outsideLambdas
    shaded.shape? ⟨0⟩ = some (.block [⟨1⟩, ⟨2⟩, ⟨5⟩]) ∧ shaded.Unshared outsideLambdas ⟨0⟩ ∧
      walk ⟨0⟩ = ⟨0⟩ :: [⟨1⟩, ⟨2⟩, ⟨5⟩].flatMap walk ∧ walk ⟨1⟩ = [⟨1⟩] ∧
      walk ⟨2⟩ <:+: walk ⟨0⟩ ∧ (walk ⟨1⟩).Disjoint (walk ⟨2⟩) := by
  intro walk
  have found : shaded.shape? ⟨0⟩ = some (.block [⟨1⟩, ⟨2⟩, ⟨5⟩]) := rfl
  have isLambda : shaded.shape? ⟨1⟩ = some (.lambda [⟨3⟩] ⟨0⟩) := rfl
  have isLoop : shaded.shape? ⟨2⟩ = some (.other "loop" [⟨3⟩, ⟨9⟩, ⟨4⟩]) := rfl
  have toLambda : shaded.Reaches outsideLambdas ⟨0⟩ ⟨1⟩ :=
    .through found rfl (by decide) (.here isLambda)
  have toLoop : shaded.Reaches outsideLambdas ⟨0⟩ ⟨2⟩ :=
    .through found rfl (by decide) (.here isLoop)
  obtain ⟨_, whole, blocks, parts, _⟩ := walk_structural found shaded_unshared
  obtain ⟨alone, _⟩ := walk_structural isLambda (shaded_unshared.below toLambda)
  obtain ⟨_, apart⟩ := parts ⟨0⟩ _ (.here found) found rfl
  exact ⟨found, shaded_unshared, whole rfl, alone rfl, blocks ⟨2⟩ toLoop,
    (List.pairwise_cons.mp apart).1 ⟨2⟩ (by decide)⟩

end FlowLink.SyntaxTree
