import FlowLink.Proofs.Tree.DepthFirst

namespace FlowLink.SyntaxTree

/-! # What a traversal reaches

`Reaches` says which elements child references lead to, without an order and without marks.  The
depth-first traversal finds exactly those: nothing it meets is lost to the marks, because whatever
it has seen it has also gone below.
-/

variable {κ : Type}

/-- Child references lead from one element of the arena to another, below accepted elements. -/
inductive Reaches (tree : SyntaxTree) (descend : TreeId → Shape → Bool) : TreeId → TreeId → Prop
  | here {id : TreeId} {shape : Shape} (found : tree.shape? id = some shape) :
      Reaches tree descend id id
  | through {id child target : TreeId} {shape : Shape} (found : tree.shape? id = some shape)
      (accepted : descend id shape = true) (member : child ∈ shape.children)
      (onward : Reaches tree descend child target) : Reaches tree descend id target

/-- Child references lead from `start` to `target` somehow. -/
abbrev Leads (tree : SyntaxTree) (start target : TreeId) : Prop :=
  tree.Reaches (fun _ _ => true) start target

variable {tree : SyntaxTree} {descend : TreeId → Shape → Bool}
  {enter : TreeId → Shape → κ → Option κ} {seen : List TreeId} {pending : List (TreeId × κ)}
  {id child target start : TreeId} {shape : Shape} {context : κ}

theorem Reaches.source_in_arena (reached : tree.Reaches descend start target) :
    ∃ shape, tree.shape? start = some shape := by
  cases reached with
  | here found => exact ⟨_, found⟩
  | through found _ _ _ => exact ⟨_, found⟩

theorem mem_handDown {context : Option κ} {entry : TreeId × κ} :
    entry ∈ handDown shape context ↔ entry.1 ∈ shape.children ∧ context = some entry.2 := by
  cases context with
  | none => simp [handDown]
  | some inner =>
      simp only [handDown, List.mem_map, Option.some.injEq]
      constructor
      · intro handed
        obtain ⟨child, member, rfl⟩ := handed
        exact ⟨member, rfl⟩
      · intro handed
        obtain ⟨member, rfl⟩ := handed
        exact ⟨entry.1, member, rfl⟩

theorem foundIds_sound
    (goes : ∀ id shape context inner,
      enter id shape context = some inner → descend id shape = true)
    (reached : target ∈ tree.foundIds enter seen pending) :
    ∃ entry ∈ pending, tree.Reaches descend entry.1 target := by
  unfold foundIds at reached
  fun_induction depthFirst tree enter seen pending with
  | case1 seen => simp at reached
  | case2 seen id context rest outside ih =>
      obtain ⟨entry, member, path⟩ := ih reached
      exact ⟨entry, List.mem_cons_of_mem _ member, path⟩
  | case3 seen id context rest shape found known ih =>
      obtain ⟨entry, member, path⟩ := ih reached
      exact ⟨entry, List.mem_cons_of_mem _ member, path⟩
  | case4 seen id context rest shape found fresh below belowIH restIH =>
      simp only [List.cons_append, List.map_cons, List.map_append, List.mem_cons,
        List.mem_append] at reached
      rcases reached with rfl | reached | reached
      · exact ⟨_, List.mem_cons_self, .here found⟩
      · obtain ⟨entry, member, path⟩ := belowIH reached
        obtain ⟨isChild, enters⟩ := mem_handDown.mp member
        exact ⟨_, List.mem_cons_self, .through found (goes _ _ _ _ enters) isChild path⟩
      · obtain ⟨entry, member, path⟩ := restIH reached
        exact ⟨entry, List.mem_cons_of_mem _ member, path⟩

/-- Every pending element of the arena is found, unless it was seen before. -/
theorem foundIds_pending (enter : TreeId → Shape → κ → Option κ) (seen : List TreeId)
    {entry : TreeId × κ} (member : entry ∈ pending) (found : tree.shape? entry.1 = some shape) :
    entry.1 ∈ seen ++ tree.foundIds enter seen pending := by
  unfold foundIds
  fun_induction depthFirst tree enter seen pending with
  | case1 seen => simp at member
  | case2 seen id context rest outside ih =>
      rcases List.mem_cons.mp member with rfl | member
      · rw [outside] at found
        contradiction
      · exact ih member
  | case3 seen id context rest _ _ known ih =>
      rcases List.mem_cons.mp member with rfl | member
      · exact List.mem_append_left _ known
      · exact ih member
  | case4 seen id context rest _ _ fresh below belowIH restIH =>
      rcases List.mem_cons.mp member with rfl | member
      · simp
      · have later := restIH member
        simp only [List.mem_append, List.mem_cons, List.cons_append, List.map_cons,
          List.map_append] at later ⊢
        tauto

/-- What is found below an accepted element includes its children in the arena. -/
theorem foundIds_closed {inner : κ} {place : κ}
    (visited : (id, place) ∈ tree.depthFirst enter seen pending)
    (source : tree.shape? id = some shape) (enters : enter id shape place = some inner)
    (isChild : child ∈ shape.children) {childShape : Shape}
    (found : tree.shape? child = some childShape) :
    child ∈ seen ++ tree.foundIds enter seen pending := by
  unfold foundIds
  fun_induction depthFirst tree enter seen pending with
  | case1 seen => simp at visited
  | case2 seen _ context rest outside ih => exact ih visited
  | case3 seen _ context rest _ _ known ih => exact ih visited
  | case4 seen first context rest _ firstFound fresh below belowIH restIH =>
      simp only [List.cons_append, List.mem_cons, List.mem_append, Prod.mk.injEq] at visited
      rcases visited with ⟨rfl, rfl⟩ | visited | visited
      · cases source.symm.trans firstFound
        have handed : (child, inner) ∈ handDown shape (enter id shape place) :=
          mem_handDown.mpr ⟨isChild, enters⟩
        have later := foundIds_pending enter (seen ++ [id]) handed found
        simp only [foundIds, List.mem_append, List.mem_cons, List.cons_append, List.map_cons,
          List.map_append, below] at later ⊢
        tauto
      · have later := belowIH visited
        simp only [List.mem_append, List.mem_cons, List.cons_append, List.map_cons,
          List.map_append] at later ⊢
        tauto
      · have later := restIH visited
        simp only [List.mem_append, List.mem_cons, List.cons_append, List.map_cons,
          List.map_append] at later ⊢
        tauto

theorem foundIds_nodup : (tree.foundIds enter seen pending).Nodup ∧
    ∀ id ∈ tree.foundIds enter seen pending, id ∉ seen := by
  unfold foundIds
  fun_induction depthFirst tree enter seen pending with
  | case1 seen => simp
  | case2 seen id context rest outside ih => exact ih
  | case3 seen id context rest shape found known ih => exact ih
  | case4 seen id context rest shape found fresh below belowIH restIH =>
      obtain ⟨belowNodup, belowNew⟩ := belowIH
      obtain ⟨restNodup, restNew⟩ := restIH
      have belowFresh : id ∉ below.map Prod.fst := fun member =>
        belowNew id member (by simp)
      have apart : ∀ other ∈ id :: below.map Prod.fst,
          ∀ later ∈ (tree.depthFirst enter (seen ++ id :: below.map Prod.fst) rest).map Prod.fst,
            other ≠ later := by
        intro other member later found same
        subst same
        exact restNew other found (List.mem_append_right _ member)
      rw [List.map_append, List.map_cons]
      constructor
      · exact List.nodup_append.mpr
          ⟨List.nodup_cons.mpr ⟨belowFresh, belowNodup⟩, restNodup, apart⟩
      · rw [List.cons_append]
        intro other member
        rcases List.mem_cons.mp member with rfl | member
        · exact fresh
        · rcases List.mem_append.mp member with member | member
          · exact fun known => belowNew other member (List.mem_append_left _ known)
          · exact fun known => restNew other member (List.mem_append_left _ known)

theorem foundIds_complete
    (goes : ∀ id shape context, descend id shape = true → (enter id shape context).isSome = true)
    (reached : tree.Reaches descend start target)
    (known : start ∈ tree.foundIds enter [] pending) :
    target ∈ tree.foundIds enter [] pending := by
  induction reached with
  | here => exact known
  | through source accepted isChild onward ih =>
      obtain ⟨⟨id, place⟩, visited, rfl⟩ := List.mem_map.mp known
      obtain ⟨inner, enters⟩ := Option.isSome_iff_exists.mp (goes _ _ place accepted)
      obtain ⟨childShape, found⟩ := onward.source_in_arena
      exact ih (by simpa using foundIds_closed visited source enters isChild found)

/-- A traversal from one element finds exactly what is reached from it. -/
theorem mem_foundIds_iff
    (goes : ∀ id shape context, (enter id shape context).isSome = descend id shape) :
    target ∈ tree.foundIds enter [] [(start, context)] ↔ tree.Reaches descend start target := by
  constructor
  · intro member
    have accepts : ∀ id shape context inner, enter id shape context = some inner →
        descend id shape = true := by
      intro id shape context inner enters
      rw [← goes id shape context, enters]
      rfl
    obtain ⟨entry, isStart, path⟩ := foundIds_sound accepts member
    cases List.mem_singleton.mp isStart
    exact path
  · intro path
    obtain ⟨shape, found⟩ := path.source_in_arena
    have accepts : ∀ id shape context, descend id shape = true →
        (enter id shape context).isSome = true :=
      fun id shape context accepted => (goes id shape context).trans accepted
    apply foundIds_complete accepts path
    simpa using foundIds_pending enter [] (List.mem_singleton_self (start, context)) found

theorem mem_walk_iff :
    target ∈ tree.walk descend start ↔ tree.Reaches descend start target := by
  rw [walk_eq_recursiveWalk]
  apply mem_foundIds_iff
  intro id shape _
  by_cases accepted : descend id shape <;> simp [passing, accepted]

theorem mem_preorder_iff : target ∈ tree.preorder start ↔ tree.Leads start target :=
  mem_walk_iff

end FlowLink.SyntaxTree
