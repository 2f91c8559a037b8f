import FlowLink.Proofs.Link.DataflowEdges
import FlowLink.Proofs.Link.ReturnEdges
import FlowLink.Proofs.Renumbering.Basic

namespace FlowLink

/-! # Traversals of a renumbered tree

A traversal follows the references from child to child, in the order in which they are written, and
asks of an id only whether it was seen before.  It therefore finds the same elements in the same
order, under their new ids.
-/

def Scope.renumber {size : Nat} (new : Renumbering size) (scope : Scope) : Scope :=
  ⟨scope.classId.map new, scope.method.map new⟩

section

variable {size : Nat} (new : Renumbering size)

theorem Scope.enter_renumber (scope : Scope) (id : TreeId) (shape : Shape) :
    (scope.renumber new).enter (new id) (shape.renumber new) =
      (scope.enter id shape).renumber new := by
  cases shape <;> rfl

theorem Scope.enclosing_renumber (scope : Scope) :
    (scope.renumber new).enclosing =
      scope.enclosing.map fun (classId, method) => (new classId, new method) := by
  obtain ⟨_ | classId, _ | method⟩ := scope <;> rfl

theorem ReturnMode.searches_renumber (mode : ReturnMode) (body id : TreeId) (shape : Shape) :
    mode.searches (new body) (new id) (shape.renumber new) = mode.searches body id shape := by
  cases shape <;> simp [searches, Shape.renumber]

theorem ReturnMode.select_map (mode : ReturnMode) (expressions : List TreeId) :
    mode.select (expressions.map new) = (mode.select expressions).map new := by
  cases mode with
  | all => rfl
  | last => rw [select, select, List.getLast?_map, Option.toList_map]

end

namespace SyntaxTree

variable {κ ν : Type} {tree : SyntaxTree} (new : Renumbering tree.size)

/-- Contexts that are renumbered as they are handed down arrive renumbered. -/
theorem depthFirst_renumber {enter : TreeId → Shape → κ → Option κ}
    {enter' : TreeId → Shape → ν → Option ν} (view : κ → ν)
    (alike : ∀ id shape context,
      enter' (new id) (shape.renumber new) (view context) = (enter id shape context).map view)
    (start : TreeId) (context : κ) :
    (tree.renumber new).depthFirst enter' [] [(new start, view context)] =
      (tree.depthFirst enter [] [(start, context)]).map fun entry => (new entry.1, view entry.2) :=
  depthFirst_translate new.injective (tree.shape?_renumber new) (Shape.children_renumber new)
    (fun id shape context _ => alike id shape context) [] [(start, context)]

theorem walk_renumber {descend descend' : TreeId → Shape → Bool}
    (alike : ∀ id shape, descend' (new id) (shape.renumber new) = descend id shape)
    (start : TreeId) :
    (tree.renumber new).walk descend' (new start) = (tree.walk descend start).map new := by
  have passes : ∀ id shape (context : Unit),
      passing descend' (new id) (shape.renumber new) context =
        (passing descend id shape context).map fun _ => () := by
    intro id shape context
    rw [passing, passing, alike]
    cases descend id shape <;> rfl
  have found := depthFirst_renumber new (fun _ => ()) passes start ()
  simp only [walk_eq_recursiveWalk, recursiveWalk, foundIds, found, List.map_map]
  rfl

theorem preorder_renumber (start : TreeId) :
    (tree.renumber new).preorder (new start) = (tree.preorder start).map new :=
  walk_renumber new (fun _ _ => rfl) start

theorem scopes_renumber (start : TreeId) :
    (tree.renumber new).scopes (new start) =
      (tree.scopes start).map fun entry => (new entry.1, entry.2.renumber new) := by
  rw [scopes_eq_depthFirst, scopes_eq_depthFirst]
  have entered : ∀ id shape (scope : Scope),
      some ((scope.renumber new).enter (new id) (shape.renumber new)) =
        (some (scope.enter id shape)).map (Scope.renumber new) := by
    intro id shape scope
    exact congrArg some (scope.enter_renumber new id shape)
  exact depthFirst_renumber new (Scope.renumber new) entered start {}

theorem sites_renumber (start : TreeId) :
    (tree.renumber new).sites (new start) =
      (tree.sites start).map fun entry => (new entry.1, entry.2.renumber new) := by
  have same : ∀ id, ((tree.renumber new).shape? (new id)).any Shape.isSite =
      (tree.shape? id).any Shape.isSite := by
    intro id
    rw [shape?_renumber]
    cases tree.shape? id with
    | none => rfl
    | some shape => exact shape.isSite_renumber new
  simp only [sites, scopes_renumber, List.filter_map, Function.comp_def, same]

theorem returns_renumber (mode : ReturnMode) (body : TreeId) :
    (tree.renumber new).returns mode (new body) =
      (tree.returns mode body).map (Option.map new) := by
  rw [returns, walk_renumber new (fun id shape => mode.searches_renumber new body id shape),
    returns, List.filterMap_map, List.map_filterMap]
  apply List.filterMap_congr
  intro id _
  simp only [Function.comp_apply, shape?_renumber]
  cases tree.shape? id with
  | none => rfl
  | some shape => cases shape <;> rfl

theorem identifiers_renumber (expression : TreeId) :
    (tree.renumber new).identifiers (new expression) = (tree.identifiers expression).map new := by
  have same : ∀ id, ((tree.renumber new).shape? (new id)).any Shape.isIdentifier =
      (tree.shape? id).any Shape.isIdentifier := by
    intro id
    rw [shape?_renumber]
    cases tree.shape? id with
    | none => rfl
    | some shape => exact shape.isIdentifier_renumber new
  simp only [identifiers, preorder_renumber, List.filter_map, Function.comp_def, same]

theorem methodBodies_renumber (start : TreeId) :
    (tree.renumber new).methodBodies (new start) =
      (tree.methodBodies start).map fun (method, body) => (new method, new body) := by
  rw [methodBodies, preorder_renumber, methodBodies, List.filterMap_map, List.map_filterMap]
  apply List.filterMap_congr
  intro id _
  simp only [Function.comp_apply, shape?_renumber]
  cases tree.shape? id with
  | none => rfl
  | some shape =>
      simp only [Option.map_some, Option.bind_some, Shape.methodBody?_renumber, Option.map_map]
      rfl

end SyntaxTree

end FlowLink
