import FlowLink.Proofs.Tree.Discovery
import FlowLink.Proofs.Tree.Walks

namespace FlowLink.SyntaxTree

/-! # Discovery parents

The depth-first traversal takes the children of an element from left to right and passes over what
is marked.  An element with several parents is thus discovered through the one whose turn comes
first.  `Discovers` is the recursion with its marks; the scope in which an element is found is the
scope of its discovery parent, entered.
-/

/-- With some ids marked, going through a row of ids on behalf of a parent discovers these elements,
each through one that was discovered before or through this parent. -/
inductive Discovers (tree : SyntaxTree) :
    List TreeId → Option TreeId → List TreeId → List (TreeId × Option TreeId) → Prop
  | done {marked : List TreeId} {parent : Option TreeId} : Discovers tree marked parent [] []
  | skip {marked rest : List TreeId} {parent : Option TreeId} {id : TreeId}
      {discovered : List (TreeId × Option TreeId)} (skipped : tree.shape? id = none ∨ id ∈ marked)
      (onward : Discovers tree marked parent rest discovered) :
      Discovers tree marked parent (id :: rest) discovered
  | take {marked rest : List TreeId} {parent : Option TreeId} {id : TreeId} {shape : Shape}
      {inside later : List (TreeId × Option TreeId)} (found : tree.shape? id = some shape)
      (fresh : id ∉ marked)
      (below : Discovers tree (marked ++ [id]) (some id) shape.children inside)
      (onward : Discovers tree (marked ++ id :: inside.map Prod.fst) parent rest later) :
      Discovers tree marked parent (id :: rest) ((id, parent) :: inside ++ later)

variable {κ : Type} {tree : SyntaxTree} {marked row : List TreeId} {parent : Option TreeId}
  {id start : TreeId} {discovered other : List (TreeId × Option TreeId)}

theorem Discovers.unique (discovers : tree.Discovers marked parent row discovered)
    (again : tree.Discovers marked parent row other) : discovered = other := by
  induction discovers generalizing other with
  | done =>
      cases again
      rfl
  | skip skipped _ ih =>
      cases again with
      | skip _ onward => exact ih onward
      | take found fresh _ _ => exact absurd skipped (not_skipped found fresh)
  | take found fresh _ _ belowIH onwardIH =>
      cases again with
      | skip skipped _ => exact absurd skipped (not_skipped found fresh)
      | take found' _ below onward =>
          cases found.symm.trans found'
          obtain rfl := belowIH below
          obtain rfl := onwardIH onward
          rfl

/-- The elements that a depth-first traversal from `start` finds, each with its discovery parent. -/
def parents (tree : SyntaxTree) (start : TreeId) : List (TreeId × Option TreeId) :=
  tree.depthFirst (fun id _ _ => some (some id)) [] [(start, none)]

theorem depthFirst_discovers {pending : List (TreeId × Option TreeId)} :
    ∀ parent row, row.map (fun id => (id, parent)) = pending →
      tree.Discovers marked parent row
        (tree.depthFirst (fun id _ _ => some (some id)) marked pending) := by
  fun_induction depthFirst tree (fun id _ (_ : Option TreeId) => some (some id)) marked pending with
  | case1 marked =>
      intro parent row isRow
      rw [List.map_eq_nil_iff.mp isRow]
      exact .done
  | case2 marked id context rest outside ih =>
      intro parent row isRow
      obtain ⟨_, later, rfl, here, isRest⟩ := List.map_eq_cons_iff.mp isRow
      cases here
      exact .skip (.inl outside) (ih _ later isRest)
  | case3 marked id context rest shape found known ih =>
      intro parent row isRow
      obtain ⟨_, later, rfl, here, isRest⟩ := List.map_eq_cons_iff.mp isRow
      cases here
      exact .skip (.inr known) (ih _ later isRest)
  | case4 marked id context rest shape found fresh below belowIH restIH =>
      intro parent row isRow
      obtain ⟨_, later, rfl, here, isRest⟩ := List.map_eq_cons_iff.mp isRow
      cases here
      exact .take found fresh (belowIH _ shape.children rfl) (restIH _ later isRest)

theorem discovers_iff :
    tree.Discovers [] none [start] discovered ↔ discovered = tree.parents start := by
  have computed : tree.Discovers [] none [start] (tree.parents start) :=
    depthFirst_discovers none [start] rfl
  constructor
  · exact fun discovers => discovers.unique computed
  · rintro rfl
    exact computed

/-- Whatever is found was pending, or was handed its context by something found. -/
theorem depthFirst_handed {enter : TreeId → Shape → κ → Option κ} {pending : List (TreeId × κ)}
    {context : κ} (visited : (id, context) ∈ tree.depthFirst enter marked pending) :
    (id, context) ∈ pending ∨ ∃ above place shape,
      (above, place) ∈ tree.depthFirst enter marked pending ∧ tree.shape? above = some shape ∧
        id ∈ shape.children ∧ enter above shape place = some context := by
  fun_induction depthFirst tree enter marked pending with
  | case1 marked => exact .inl visited
  | case2 marked first place rest outside ih =>
      rcases ih visited with listed | handed
      · exact .inl (List.mem_cons_of_mem _ listed)
      · exact .inr handed
  | case3 marked first place rest shape found known ih =>
      rcases ih visited with listed | handed
      · exact .inl (List.mem_cons_of_mem _ listed)
      · exact .inr handed
  | case4 marked first place rest shape found fresh below belowIH restIH =>
      simp only [List.cons_append, List.mem_cons, List.mem_append] at visited ⊢
      rcases visited with here | inside | outside
      · exact .inl (.inl here)
      · rcases belowIH inside with handed | ⟨above, place', shape', source, rest⟩
        · obtain ⟨isChild, enters⟩ := mem_handDown.mp handed
          exact .inr ⟨first, place, shape, .inl rfl, found, isChild, enters⟩
        · exact .inr ⟨above, place', shape', .inr (.inl source), rest⟩
      · rcases restIH outside with listed | ⟨above, place', shape', source, rest⟩
        · exact .inl (.inr listed)
        · exact .inr ⟨above, place', shape', .inr (.inr source), rest⟩

/-! ## Scopes -/

/-- Everything that is found, with its discovery parent and its scope. -/
def placements (tree : SyntaxTree) (start : TreeId) : List (TreeId × Option TreeId × Scope) :=
  tree.depthFirst (fun id shape place => some (some id, place.2.enter id shape)) []
    [(start, none, {})]

theorem parents_eq_map_placements :
    tree.parents start = (tree.placements start).map fun entry => (entry.1, entry.2.1) := by
  rw [parents, placements, ← depthFirst_map Prod.fst]
  · rfl
  · intro id shape place _
    rfl

theorem scopes_eq_map_placements :
    tree.scopes start = (tree.placements start).map fun entry => (entry.1, entry.2.2) := by
  rw [scopes_eq_depthFirst, placements, ← depthFirst_map Prod.snd]
  · rfl
  · intro id shape place _
    rfl

theorem placements_map_fst : (tree.placements start).map Prod.fst = tree.preorder start := by
  have walked : tree.depthFirst (passing fun _ _ => true) [] [(start, ())] =
      (tree.placements start).map fun entry => (entry.1, ()) := by
    rw [placements, ← depthFirst_map fun _ => ()]
    · rfl
    · intro id shape place _
      rfl
  rw [preorder, walk_eq_recursiveWalk, recursiveWalk, foundIds, walked, List.map_map]
  rfl

theorem parents_map_fst : (tree.parents start).map Prod.fst = tree.preorder start := by
  rw [parents_eq_map_placements, List.map_map, ← placements_map_fst]
  rfl

theorem scopes_map_fst : (tree.scopes start).map Prod.fst = tree.preorder start := by
  rw [scopes_eq_map_placements, List.map_map, ← placements_map_fst]
  rfl

theorem sites_map_fst :
    (tree.sites start).map Prod.fst =
      (tree.preorder start).filter fun id => (tree.shape? id).any Shape.isSite := by
  rw [← scopes_map_fst, List.filter_map]
  rfl

theorem placements_cases {place : Option TreeId × Scope}
    (placed : (id, place) ∈ tree.placements start) :
    (id = start ∧ place = (none, {})) ∨
      ∃ above shape, place.1 = some above ∧ tree.shape? above = some shape ∧
        id ∈ shape.children ∧ ∃ outer, (above, outer) ∈ tree.scopes start ∧
          place.2 = outer.enter above shape := by
  rcases depthFirst_handed placed with listed | ⟨above, outer, shape, source, found, isChild, enters⟩
  · cases List.mem_singleton.mp listed
    exact .inl ⟨rfl, rfl⟩
  · cases enters
    refine .inr ⟨above, shape, rfl, found, isChild, outer.2, ?_, rfl⟩
    rw [scopes_eq_map_placements]
    exact List.mem_map.mpr ⟨_, source, rfl⟩

/-- Also if references lead back to the start, it is found in the empty scope. -/
theorem scope_of_start {scope : Scope} (placed : (start, scope) ∈ tree.scopes start) :
    scope = {} := by
  rw [scopes_eq_depthFirst] at placed
  cases found : tree.shape? start with
  | none =>
      rw [depthFirst_outside found, depthFirst_nil] at placed
      contradiction
  | some shape =>
      rw [depthFirst_fresh_eq_cons found List.not_mem_nil] at placed
      rcases List.mem_cons.mp placed with here | later
      · exact congrArg Prod.snd here
      · exact absurd List.mem_cons_self
          (foundIds_nodup.2 start (List.mem_map.mpr ⟨_, later, rfl⟩))

/-- Every other element is found in the scope of its discovery parent, entered. -/
theorem scope_of_parent {scope : Scope} (placed : (id, scope) ∈ tree.scopes start)
    (apart : id ≠ start) :
    ∃ above shape outer, (id, some above) ∈ tree.parents start ∧
      tree.shape? above = some shape ∧ id ∈ shape.children ∧
      (above, outer) ∈ tree.scopes start ∧ scope = outer.enter above shape := by
  rw [scopes_eq_map_placements] at placed
  obtain ⟨⟨found, parent, _⟩, listed, same⟩ := List.mem_map.mp placed
  cases same
  have isParent : (found, parent) ∈ tree.parents start := by
    rw [parents_eq_map_placements]
    exact List.mem_map.mpr ⟨_, listed, rfl⟩
  rcases placements_cases listed with ⟨here, _⟩ | ⟨above, shape, same, found, isChild, outer⟩
  · exact absurd here apart
  · cases same
    obtain ⟨outer, source, enters⟩ := outer
    exact ⟨above, shape, outer, isParent, found, isChild, source, enters⟩

end FlowLink.SyntaxTree
