import FlowLink.Link.Dataflow
import FlowLink.Proofs.Tree.Reachability
import Mathlib.Data.List.Nodup

namespace FlowLink.SyntaxTree

/-! # Discovery paths and inherited scopes

An element may be referenced from many places; the depth-first traversal enters it through one of
them.  The elements above that place form its discovery path, and the scope in which the dataflow
pass sees an element is what the classes and methods of this path add up to.
-/

variable {κ ν : Type} {tree : SyntaxTree} {start id : TreeId}

/-- Contexts that are handed down alike give alike contexts for whatever is found. -/
theorem depthFirst_map {enter : TreeId → Shape → κ → Option κ}
    {enter' : TreeId → Shape → ν → Option ν} {seen : List TreeId} {pending : List (TreeId × κ)}
    (view : κ → ν)
    (alike : ∀ id shape context, tree.shape? id = some shape →
      enter' id shape (view context) = (enter id shape context).map view) :
    tree.depthFirst enter' seen (pending.map fun entry => (entry.1, view entry.2)) =
      (tree.depthFirst enter seen pending).map fun entry => (entry.1, view entry.2) := by
  have translated := depthFirst_translate Function.injective_id
    (fun _ => Option.map_id_apply.symm) (fun shape => (List.map_id shape.children).symm) alike seen
    pending
  rw [List.map_id] at translated
  exact translated

/-- The elements that a depth-first traversal from `start` finds, each with the elements through
which it was found, outermost first. -/
def discoveries (tree : SyntaxTree) (start : TreeId) : List (TreeId × List TreeId) :=
  tree.depthFirst (fun id _ above => some (above ++ [id])) [] [(start, [])]

theorem leads_iff_discovered :
    tree.Leads start id ↔ ∃ above, (id, above) ∈ tree.discoveries start := by
  have found : id ∈ (tree.discoveries start).map Prod.fst ↔ tree.Leads start id :=
    mem_foundIds_iff fun _ _ _ => rfl
  simp [← found]

theorem discovered_once {above other : List TreeId} (first : (id, above) ∈ tree.discoveries start)
    (second : (id, other) ∈ tree.discoveries start) : above = other := by
  have nodup : ((tree.discoveries start).map Prod.fst).Nodup := foundIds_nodup.1
  exact congrArg Prod.snd (List.inj_on_of_nodup_map nodup first second rfl)

theorem discovery_isSome (leads : tree.Leads start id) :
    ((tree.discoveries start).lookup id).isSome = true := by
  obtain ⟨above, discovered⟩ := leads_iff_discovered.mp leads
  cases missing : (tree.discoveries start).lookup id with
  | some _ => rfl
  | none =>
      have absent := List.lookup_eq_none_iff.mp missing _ discovered
      simp at absent

/-- The elements through which the depth-first traversal from `start` finds an element. -/
def discoveryPath (leads : tree.Leads start id) : List TreeId :=
  ((tree.discoveries start).lookup id).get (discovery_isSome leads)

theorem discoveryPath_mem (leads : tree.Leads start id) :
    (id, discoveryPath leads) ∈ tree.discoveries start := by
  obtain ⟨before, after, split, _⟩ :=
    List.lookup_eq_some_iff.mp (Option.some_get (discovery_isSome leads)).symm
  rw [split]
  exact List.mem_append_right _ List.mem_cons_self

theorem mem_discoveries_iff {above : List TreeId} :
    (id, above) ∈ tree.discoveries start ↔
      ∃ leads : tree.Leads start id, discoveryPath leads = above := by
  constructor
  · intro discovered
    have leads := leads_iff_discovered.mpr ⟨above, discovered⟩
    exact ⟨leads, discovered_once (discoveryPath_mem leads) discovered⟩
  · intro path
    obtain ⟨leads, rfl⟩ := path
    exact discoveryPath_mem leads

def scopeBelow (tree : SyntaxTree) (above : List TreeId) : Scope :=
  above.foldl (fun scope id => ((tree.shape? id).map (scope.enter id)).getD scope) {}

/-- The scope that an element inherits along its discovery path. -/
def inheritedScope (leads : tree.Leads start id) : Scope := tree.scopeBelow (discoveryPath leads)

theorem scopeBelow_append {above : List TreeId} {shape : Shape}
    (found : tree.shape? id = some shape) :
    tree.scopeBelow (above ++ [id]) = (tree.scopeBelow above).enter id shape := by
  simp [scopeBelow, found]

theorem scopes_eq_depthFirst :
    tree.scopes start =
      tree.depthFirst (fun id shape scope => some (scope.enter id shape)) [] [(start, {})] := by
  rw [scopes, traverse_eq_foldl (fun id shape (scope : Scope) =>
    some (scope.enter id shape)) Array.push fun _ _ _ _ _ => rfl]
  simp

theorem scopes_eq_map_discoveries :
    tree.scopes start =
      (tree.discoveries start).map fun entry => (entry.1, tree.scopeBelow entry.2) := by
  rw [scopes_eq_depthFirst, discoveries, ← depthFirst_map tree.scopeBelow]
  · rfl
  · intro id shape above found
    rw [Option.map_some, scopeBelow_append found]

theorem mem_scopes_iff {scope : Scope} :
    (id, scope) ∈ tree.scopes start ↔
      ∃ leads : tree.Leads start id, inheritedScope leads = scope := by
  simp only [scopes_eq_map_discoveries, List.mem_map, Prod.mk.injEq, Prod.exists, inheritedScope]
  constructor
  · intro placed
    obtain ⟨_, above, discovered, rfl, rfl⟩ := placed
    obtain ⟨leads, rfl⟩ := mem_discoveries_iff.mp discovered
    exact ⟨leads, rfl⟩
  · intro path
    obtain ⟨leads, rfl⟩ := path
    exact ⟨id, _, discoveryPath_mem leads, rfl, rfl⟩

end FlowLink.SyntaxTree
