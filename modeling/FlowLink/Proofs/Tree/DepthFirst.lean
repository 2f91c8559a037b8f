import FlowLink.Tree.Traversal
import Mathlib.Data.List.Count
import Mathlib.Data.List.Range

namespace FlowLink.SyntaxTree

/-! # The recursive depth-first traversal

`depthFirst` says what a depth-first traversal of an arena finds, by recursion on the tree: an
element, then what is below it, then what its later siblings still find.  The work stack of
`traverseFrom` computes the same; `traverseFrom_eq_foldl` is that fact, and everything else about
traversals is proved of the recursion.
-/

variable {κ σ : Type}

/-- How many slots of the arena hold none of the ids seen. -/
def unseen (tree : SyntaxTree) (seen : List TreeId) : Nat :=
  (List.range tree.size).countP fun slot => decide (⟨slot⟩ ∉ seen)

theorem index_lt_size_of_shape? {tree : SyntaxTree} {id : TreeId} {shape : Shape}
    (found : tree.shape? id = some shape) : id.index < tree.size := by
  simp only [shape?, get?, Option.map_eq_some_iff] at found
  obtain ⟨element, lookup, _⟩ := found
  exact (Array.getElem?_eq_some_iff.mp lookup).1

theorem unseen_append_lt {tree : SyntaxTree} {seen more : List TreeId} {id : TreeId} {shape : Shape}
    (found : tree.shape? id = some shape) (fresh : id ∉ seen) :
    tree.unseen (seen ++ id :: more) < tree.unseen seen := by
  have slot : id.index ∈ List.range tree.size :=
    List.mem_range.mpr (index_lt_size_of_shape? found)
  obtain ⟨before, after, split⟩ := List.append_of_mem slot
  have shrinks : ∀ slots : List Nat,
      slots.countP (fun slot => decide (⟨slot⟩ ∉ seen ++ id :: more)) ≤
        slots.countP fun slot => decide (⟨slot⟩ ∉ seen) := by
    intro slots
    apply List.countP_mono_left
    intro slot _ absent
    simp only [decide_eq_true_eq, List.mem_append, not_or] at absent ⊢
    exact absent.1
  have gone : (⟨id.index⟩ : TreeId) ∈ seen ++ id :: more := by simp
  have kept : (⟨id.index⟩ : TreeId) ∉ seen := fresh
  have left := shrinks before
  have right := shrinks after
  simp only [unseen, split, List.countP_append, List.countP_cons, gone, kept, not_true_eq_false,
    not_false_eq_true, decide_true, decide_false, Bool.false_eq_true, if_false, if_true]
  omega

/-- The children of an element, each with the context handed to it, if they are to be visited. -/
def handDown (shape : Shape) : Option κ → List (TreeId × κ)
  | none => []
  | some inner => shape.children.map fun child => (child, inner)

/-- What a depth-first traversal of the pending elements finds, each with the context handed to it.
Ids outside the arena and ids already seen are passed over; `enter` answers the context for the
children of an element, or `none` to leave them alone. -/
def depthFirst (tree : SyntaxTree) (enter : TreeId → Shape → κ → Option κ) (seen : List TreeId) :
    List (TreeId × κ) → List (TreeId × κ)
  | [] => []
  | (id, context) :: rest =>
    match _found : tree.shape? id with
    | none => depthFirst tree enter seen rest
    | some shape =>
      if _known : id ∈ seen then
        depthFirst tree enter seen rest
      else
        let below := depthFirst tree enter (seen ++ [id]) (handDown shape (enter id shape context))
        (id, context) :: below ++ depthFirst tree enter (seen ++ id :: below.map Prod.fst) rest
termination_by pending => (tree.unseen seen, pending.length)
decreasing_by
  · exact Prod.Lex.right _ (by simp)
  · exact Prod.Lex.right _ (by simp)
  · exact Prod.Lex.left _ _ (unseen_append_lt (by assumption) (by assumption))
  · exact Prod.Lex.left _ _ (unseen_append_lt (by assumption) (by assumption))

section

variable {tree : SyntaxTree} {enter : TreeId → Shape → κ → Option κ} {seen : List TreeId}
  {id : TreeId} {context : κ} {rest : List (TreeId × κ)} {shape : Shape}

@[simp] theorem depthFirst_nil : tree.depthFirst enter seen [] = [] := by
  rw [depthFirst]

theorem depthFirst_outside (outside : tree.shape? id = none) :
    tree.depthFirst enter seen ((id, context) :: rest) = tree.depthFirst enter seen rest := by
  rw [depthFirst]
  split
  · rfl
  · rename_i found
    rw [outside] at found
    contradiction

theorem depthFirst_known (known : id ∈ seen) :
    tree.depthFirst enter seen ((id, context) :: rest) = tree.depthFirst enter seen rest := by
  rw [depthFirst]
  split
  · rfl
  · rw [dif_pos known]

theorem depthFirst_fresh (found : tree.shape? id = some shape) (fresh : id ∉ seen) :
    tree.depthFirst enter seen ((id, context) :: rest) =
      (id, context) :: tree.depthFirst enter (seen ++ [id])
          (handDown shape (enter id shape context)) ++
        tree.depthFirst enter (seen ++ id :: (tree.depthFirst enter (seen ++ [id])
          (handDown shape (enter id shape context))).map Prod.fst) rest := by
  rw [depthFirst]
  split
  · rename_i outside
    rw [found] at outside
    contradiction
  · rename_i other same
    cases found.symm.trans same
    rw [dif_neg fresh]

/-- The later of two rows of pending elements is traversed with everything found in the earlier one
already seen. -/
theorem depthFirst_append (first second : List (TreeId × κ)) :
    tree.depthFirst enter seen (first ++ second) =
      tree.depthFirst enter seen first ++
        tree.depthFirst enter (seen ++ (tree.depthFirst enter seen first).map Prod.fst) second := by
  fun_induction depthFirst tree enter seen first with
  | case1 seen => simp
  | case2 seen id context rest outside ih =>
      rw [List.cons_append, depthFirst_outside outside, ih]
  | case3 seen id context rest shape found known ih =>
      rw [List.cons_append, depthFirst_known known, ih]
  | case4 seen id context rest shape found fresh below _ ih =>
      rw [List.cons_append, depthFirst_fresh found fresh, ih]
      simp [below]

theorem depthFirst_fresh_eq_cons (found : tree.shape? id = some shape) (fresh : id ∉ seen) :
    tree.depthFirst enter seen ((id, context) :: rest) =
      (id, context) :: tree.depthFirst enter (seen ++ [id])
        (handDown shape (enter id shape context) ++ rest) := by
  rw [depthFirst_fresh found fresh, depthFirst_append]
  simp

end

/-- A tree whose ids and references are those of another one, written differently, is traversed like
it.  Contexts may be written differently as well. -/
theorem depthFirst_translate {tree other : SyntaxTree} {ν : Type}
    {enter : TreeId → Shape → κ → Option κ} {enter' : TreeId → Shape → ν → Option ν}
    {ids : TreeId → TreeId} {shapes : Shape → Shape} {view : κ → ν}
    (injective : Function.Injective ids)
    (lookup : ∀ id, other.shape? (ids id) = (tree.shape? id).map shapes)
    (children : ∀ shape, (shapes shape).children = shape.children.map ids)
    (alike : ∀ id shape context, tree.shape? id = some shape →
      enter' (ids id) (shapes shape) (view context) = (enter id shape context).map view)
    (seen : List TreeId) (pending : List (TreeId × κ)) :
    other.depthFirst enter' (seen.map ids) (pending.map fun entry => (ids entry.1, view entry.2)) =
      (tree.depthFirst enter seen pending).map fun entry => (ids entry.1, view entry.2) := by
  fun_induction depthFirst tree enter seen pending with
  | case1 seen => simp
  | case2 seen id context rest outside ih =>
      have outside' : other.shape? (ids id) = none := by rw [lookup, outside, Option.map_none]
      rw [List.map_cons, depthFirst_outside outside', ih]
  | case3 seen id context rest shape found known ih =>
      rw [List.map_cons, depthFirst_known (List.mem_map_of_mem known), ih]
  | case4 seen id context rest shape found fresh below belowIH restIH =>
      have found' : other.shape? (ids id) = some (shapes shape) := by
        rw [lookup, found, Option.map_some]
      have fresh' : ids id ∉ seen.map ids := fun known =>
        fresh ((List.mem_map_of_injective injective).mp known)
      have handed : handDown (shapes shape) (enter' (ids id) (shapes shape) (view context)) =
          (handDown shape (enter id shape context)).map fun entry =>
            (ids entry.1, view entry.2) := by
        rw [alike id shape context found]
        cases enter id shape context <;> simp [handDown, children]
      have firsts : (below.map fun entry => (ids entry.1, view entry.2)).map Prod.fst =
          (below.map Prod.fst).map ids := by simp
      rw [List.map_append, List.map_singleton] at belowIH
      rw [List.map_append, List.map_cons] at restIH
      rw [List.map_cons, depthFirst_fresh found' fresh', handed, belowIH, firsts, restIH]
      simp [below]

end FlowLink.SyntaxTree

namespace FlowLink.Marks

variable {marks : Marks} {size : Nat} {seen : List TreeId}

/-- The marks tell the ids of an arena that were seen from the others. -/
def Record (marks : Marks) (size : Nat) (seen : List TreeId) : Prop :=
  ∀ id, marks.isFresh id = true ↔ id.index < size ∧ id ∉ seen

theorem fresh_record (size : Nat) : (fresh size).Record size [] := by
  intro id
  simp [isFresh, fresh, Array.getElem?_replicate]

theorem Record.mark (record : marks.Record size seen) (id : TreeId) :
    (marks.mark id).Record size (seen ++ [id]) := by
  intro other
  by_cases same : other = id
  · subst other
    simp [isFresh, Marks.mark, Array.getElem?_setIfInBounds]
  · have apart : id.index ≠ other.index := by
      intro equal
      exact same (by cases id; cases other; simp_all)
    have unchanged : (marks.mark id).isFresh other = marks.isFresh other := by
      simp [isFresh, Marks.mark, apart]
    rw [unchanged, record other]
    simp [same]

end FlowLink.Marks

namespace FlowLink.SyntaxTree

variable {κ σ : Type} {tree : SyntaxTree} {enter : TreeId → Shape → κ → Option κ}

/-- The work stack visits what the recursion finds, in the same order and with the same contexts,
provided that the decision to go on does not depend on the state. -/
theorem traverseFrom_eq_foldl {visit : TreeId → Shape → κ → σ → Option κ × σ}
    {take : σ → TreeId × κ → σ} {marks : Marks} {seen : List TreeId}
    {pending : List (TreeId × κ)} {state : σ}
    (visits : ∀ id shape context state, tree.shape? id = some shape →
      visit id shape context state = (enter id shape context, take state (id, context)))
    (record : marks.Record tree.size seen) :
    tree.traverseFrom visit marks pending state =
      (tree.depthFirst enter seen pending).foldl take state := by
  fun_induction traverseFrom tree visit marks pending state generalizing seen with
  | case1 marks state => rw [depthFirst_nil, List.foldl_nil]
  | case2 marks state id context rest outside ih =>
      rw [depthFirst_outside outside, ih record]
  | case3 marks state id context rest shape found unvisited next result ih =>
      obtain ⟨_, fresh⟩ := (record id).mp unvisited
      obtain ⟨stops, moves⟩ :=
        Prod.mk.inj ((visits id shape context state found).symm.trans result)
      rw [ih (record.mark id), depthFirst_fresh_eq_cons found fresh, stops, ← moves]
      rfl
  | case4 marks state id context rest shape found unvisited below next result ih =>
      obtain ⟨_, fresh⟩ := (record id).mp unvisited
      obtain ⟨enters, moves⟩ :=
        Prod.mk.inj ((visits id shape context state found).symm.trans result)
      rw [ih (record.mark id), depthFirst_fresh_eq_cons found fresh, enters, ← moves]
      rfl
  | case5 marks state id context rest shape found visited ih =>
      have known : id ∈ seen := by
        by_contra fresh
        exact visited ((record id).mpr ⟨index_lt_size_of_shape? found, fresh⟩)
      rw [depthFirst_known known, ih record]

theorem traverse_eq_foldl {visit : TreeId → Shape → κ → σ → Option κ × σ} {start : TreeId}
    {context : κ} {state : σ} (enter : TreeId → Shape → κ → Option κ) (take : σ → TreeId × κ → σ)
    (visits : ∀ id shape context state, tree.shape? id = some shape →
      visit id shape context state = (enter id shape context, take state (id, context))) :
    tree.traverse visit start context state =
      (tree.depthFirst enter [] [(start, context)]).foldl take state :=
  traverseFrom_eq_foldl visits (Marks.fresh_record tree.size)

/-- Hands the context of an accepted element down unchanged. -/
def passing (descend : TreeId → Shape → Bool) (id : TreeId) (shape : Shape) (context : κ) :
    Option κ :=
  if descend id shape then some context else none

def foundIds (tree : SyntaxTree) (enter : TreeId → Shape → κ → Option κ) (seen : List TreeId)
    (pending : List (TreeId × κ)) : List TreeId :=
  (tree.depthFirst enter seen pending).map Prod.fst

/-- The ids that the recursion finds from `start` below accepted elements only. -/
def recursiveWalk (tree : SyntaxTree) (descend : TreeId → Shape → Bool) (start : TreeId) :
    List TreeId :=
  tree.foundIds (passing descend) [] [(start, ())]

theorem walk_eq_recursiveWalk (descend : TreeId → Shape → Bool) (start : TreeId) :
    tree.walk descend start = tree.recursiveWalk descend start := by
  have traversal : tree.traverse (fun id shape (_ : Unit) (state : Array TreeId × Unit) =>
      (if descend id shape then some () else none, state.1.push id, ())) start () (#[], ()) = _ :=
    traverse_eq_foldl (passing descend) (fun state found => (state.1.push found.1, ()))
      fun _ _ _ _ _ => rfl
  have reached : ∀ (found : List (TreeId × Unit)) (state : Array TreeId × Unit),
      (found.foldl (fun state found => (state.1.push found.1, ())) state).1.toList =
        state.1.toList ++ found.map Prod.fst := by
    intro found
    induction found with
    | nil => simp
    | cons first rest ih =>
        intro state
        rw [List.foldl_cons, ih]
        simp
  calc
    tree.walk descend start = (tree.traverse _ start () (#[], ())).1.toList := rfl
    _ = _ := congrArg (fun state => state.1.toList) traversal
    _ = [] ++ tree.recursiveWalk descend start := reached _ _

end FlowLink.SyntaxTree
