import FlowLink.Facts
import FlowLink.Graph.Basic
import Mathlib.Data.List.Nodup
import Mathlib.Logic.Equiv.Basic

namespace FlowLink

open Std

/-! # Renumbering a unit

The slots of an arena may be dealt out in another way.  Every element then moves to its new slot,
and the tree, the associations of the graph and the analysis write the new id wherever they wrote
the old one.  What is looked up under a new id is what was looked up under the old one.
-/

/-- New ids for all tree elements.  Those of the arena are dealt out among themselves. -/
structure Renumbering (size : Nat) where
  ids : Equiv.Perm TreeId
  keeps : ∀ id, (ids id).index < size ↔ id.index < size

namespace Renumbering

variable {size : Nat} (new : Renumbering size)

instance : CoeFun (Renumbering size) fun _ => TreeId → TreeId := ⟨fun new => new.ids⟩

theorem injective : Function.Injective new := new.ids.injective

/-- The slot from which an element moves to this one. -/
def source (slot : Fin size) : Fin size :=
  ⟨(new.ids.symm ⟨slot⟩).index, by
    rw [← new.keeps, Equiv.apply_symm_apply]
    exact slot.isLt⟩

theorem source_eq {slot : Fin size} {id : TreeId} (moved : new id = ⟨slot⟩) :
    (new.source slot).val = id.index := by
  change (new.ids.symm ⟨slot⟩).index = id.index
  rw [← moved, Equiv.symm_apply_apply]

/-- Two elements change places. -/
def swap (left right : Fin size) : Renumbering size where
  ids := Equiv.swap ⟨left⟩ ⟨right⟩
  keeps id := by
    rw [Equiv.swap_apply_def]
    split_ifs with isLeft isRight
    · simp [isLeft, left.isLt, right.isLt]
    · simp [isRight, left.isLt, right.isLt]
    · rfl

/-! ## Maps and sets of ids -/

variable {α β : Type}

/-- Moves every value to the new id of its key, and changes it on the way. -/
def mapKeys (change : α → β) (map : ExtTreeMap TreeId α) : ExtTreeMap TreeId β :=
  .ofList (map.toList.map fun entry => (new entry.1, change entry.2))

theorem getElem?_mapKeys (change : α → β) (map : ExtTreeMap TreeId α) (id : TreeId) :
    (new.mapKeys change map)[new id]? = map[id]?.map change := by
  cases found : map[id]? with
  | some value =>
      have distinct : (map.toList.map fun entry => (new entry.1, change entry.2)).Pairwise
          fun left right => ¬compare left.1 right.1 = .eq := by
        rw [List.pairwise_map]
        apply map.distinct_keys_toList.imp
        intro left right apart same
        exact apart (compare_eq_iff_eq.mpr (new.injective (compare_eq_iff_eq.mp same)))
      apply ExtTreeMap.getElem?_ofList_of_mem ReflCmp.compare_self distinct
      exact List.mem_map_of_mem (ExtTreeMap.mem_toList_iff_getElem?_eq_some.mpr found)
  | none =>
      apply ExtTreeMap.getElem?_ofList_of_contains_eq_false
      rw [List.contains_eq_mem, decide_eq_false_iff_not, List.map_map, List.mem_map]
      intro listed
      obtain ⟨entry, member, same⟩ := listed
      have value : map[entry.1]? = some entry.2 :=
        ExtTreeMap.mem_toList_iff_getElem?_eq_some.mp member
      rw [new.injective same, found] at value
      contradiction

def mapSet (ids : ExtTreeSet TreeId) : ExtTreeSet TreeId := .ofList (ids.toList.map new)

/-- The members come in the order of their new ids. -/
theorem toList_mapSet (ids : ExtTreeSet TreeId) :
    (new.mapSet ids).toList.Perm (ids.toList.map new) := by
  have nodup : ∀ ids : ExtTreeSet TreeId, ids.toList.Nodup := by
    intro ids
    apply ids.distinct_toList.imp
    intro left right apart same
    exact apart (compare_eq_iff_eq.mpr same)
  rw [List.perm_ext_iff_of_nodup (nodup _) (List.Nodup.map new.injective (nodup ids))]
  intro id
  rw [ExtTreeSet.mem_toList, mapSet, ExtTreeSet.mem_ofList, List.contains_iff_mem]

theorem isEmpty_mapSet (ids : ExtTreeSet TreeId) : (new.mapSet ids).isEmpty = ids.isEmpty := by
  rw [← ExtTreeSet.isEmpty_toList, (new.toList_mapSet ids).isEmpty_eq, List.isEmpty_map,
    ExtTreeSet.isEmpty_toList]

end Renumbering

section

variable {size : Nat} (new : Renumbering size)

/-! ## Trees -/

def Shape.renumber : Shape → Shape
  | compilationUnit types => compilationUnit (types.map new)
  | classDecl name members => classDecl name (members.map new)
  | methodDecl name params body => methodDecl name (params.map new) (body.map new)
  | variableDecl name initial => variableDecl name (initial.map new)
  | block statements => block (statements.map new)
  | expressionStatement expression => expressionStatement (new expression)
  | returnStatement expression => returnStatement (expression.map new)
  | conditional condition thenBranch elseBranch =>
    conditional (new condition) (new thenBranch) (elseBranch.map new)
  | whileLoop condition body => whileLoop (new condition) (new body)
  | assignment target value => assignment (new target) (new value)
  | binary operator left right => binary operator (new left) (new right)
  | unary operator operand => unary operator (new operand)
  | methodCall receiver name arguments =>
    methodCall (receiver.map new) name (arguments.map new)
  | fieldAccess target name => fieldAccess (new target) name
  | lambda params body => lambda (params.map new) (new body)
  | identifier name => identifier name
  | literal value => literal value
  | other label children => other label (children.map new)

theorem Shape.children_renumber (shape : Shape) :
    (shape.renumber new).children = shape.children.map new := by
  cases shape <;> simp [renumber, children, Option.toList_map]

theorem Shape.isIdentifier_renumber (shape : Shape) :
    (shape.renumber new).isIdentifier = shape.isIdentifier := by
  cases shape <;> rfl

theorem Shape.isSite_renumber (shape : Shape) : (shape.renumber new).isSite = shape.isSite := by
  cases shape <;> rfl

theorem Shape.methodBody?_renumber (shape : Shape) :
    (shape.renumber new).methodBody? = shape.methodBody?.map new := by
  cases shape <;> rfl

def Element.renumber (element : Element) : Element := ⟨new element.id, element.shape.renumber new⟩

end

namespace SyntaxTree

variable (tree : SyntaxTree) (new : Renumbering tree.size)

/-- Every element moves to its new slot. -/
def renumber : SyntaxTree where
  elements := Array.ofFn fun slot =>
    have bound : (new.source slot).val < tree.elements.size := (new.source slot).isLt
    (tree.elements[(new.source slot).val]).renumber new
  root := tree.root.map new

@[simp] theorem size_renumber : (tree.renumber new).size = tree.size := Array.size_ofFn

theorem get?_renumber (id : TreeId) :
    (tree.renumber new).get? (new id) = (tree.get? id).map (Element.renumber new) := by
  by_cases inside : id.index < tree.size
  · have slot : (new id).index < tree.size := (new.keeps id).mpr inside
    have moved : (new.source ⟨(new id).index, slot⟩).val = id.index := new.source_eq rfl
    have bound : id.index < tree.elements.size := inside
    simp only [get?, renumber, Array.getElem?_ofFn, slot, dif_pos, moved,
      Array.getElem?_eq_getElem bound, Option.map_some]
  · have outside : ¬ (new id).index < tree.size := fun slot => inside ((new.keeps id).mp slot)
    rw [get?, get?, Array.getElem?_eq_none (Nat.le_of_not_lt inside),
      Array.getElem?_eq_none (by rw [← size, size_renumber]; exact Nat.le_of_not_lt outside)]
    rfl

theorem shape?_renumber (id : TreeId) :
    (tree.renumber new).shape? (new id) = (tree.shape? id).map (Shape.renumber new) := by
  rw [shape?, get?_renumber, shape?, Option.map_map, Option.map_map]
  rfl

end SyntaxTree

/-! ## Graphs and analyses -/

section

variable {size : Nat} (new : Renumbering size)

/-- Nodes keep their ids: only the associations name tree elements. -/
def FeatureGraph.renumber (graph : FeatureGraph) : FeatureGraph :=
  { graph with treeNodes := new.mapKeys id graph.treeNodes }

theorem FeatureGraph.treeNode?_renumber (graph : FeatureGraph) (id : TreeId) :
    (graph.renumber new).treeNode? (new id) = graph.treeNode? id := by
  rw [treeNode?, renumber, Renumbering.getElem?_mapKeys, Option.map_id]
  rfl

def MethodFacts.renumber (outputs : MethodFacts) : MethodFacts where
  lastWrites := new.mapKeys new.mapSet outputs.lastWrites
  lastUses := new.mapKeys new.mapSet outputs.lastUses

theorem MethodFacts.candidates?_renumber (outputs : MethodFacts) (kind : FactKind)
    (point : TreeId) :
    (outputs.renumber new).candidates? kind (new point) =
      (outputs.candidates? kind point).map new.mapSet := by
  cases kind <;> exact new.getElem?_mapKeys new.mapSet _ point

/-- Classes, methods, program points and candidates are named by their new ids. -/
def Analysis.renumber (analysis : Analysis) : Analysis :=
  ⟨new.mapKeys (new.mapKeys (MethodFacts.renumber new)) analysis.classes⟩

theorem Analysis.get?_renumber (analysis : Analysis) (classId method : TreeId) :
    (analysis.renumber new).get? (new classId) (new method) =
      (analysis.get? classId method).map (MethodFacts.renumber new) := by
  simp only [get?, methods, renumber, Renumbering.getElem?_mapKeys]
  cases analysis.classes[classId]? with
  | none => simp
  | some methods => exact new.getElem?_mapKeys (MethodFacts.renumber new) methods method

end

end FlowLink
