import FlowLink.Tree.Basic
import Mathlib.Data.List.Basic

namespace FlowLink.SyntaxTree

/-! # Trees without defects

`defect?` looks for the first defect; `Sound` says what it means that there is none.  An arena can be
sound and yet share elements or have cycles.
-/

variable {tree : SyntaxTree} {slot : Nat} {element : Element} {id : TreeId} {shape : Shape}

structure Sound (tree : SyntaxTree) : Prop where
  placed : ∀ (slot : Nat) (element : Element),
    tree.elements[slot]? = some element → element.id.index = slot
  closed : ∀ (slot : Nat) (element : Element), tree.elements[slot]? = some element →
    ∀ child ∈ element.shape.children, child.index < tree.size
  rooted : ∀ root, tree.root = some root → root.index < tree.size

theorem children_of_shape? (found : tree.shape? id = some shape) :
    tree.children id = shape.children := by
  rw [children, found]

theorem children_of_placed (stored : tree.elements[slot]? = some element)
    (placed : element.id.index = slot) : tree.children element.id = element.shape.children := by
  apply children_of_shape?
  rw [shape?, get?, placed, stored, Option.map_some]

theorem slotDefect?_eq_none_iff (stored : tree.elements[slot]? = some element) :
    tree.slotDefect? slot element = none ↔
      element.id.index = slot ∧ ∀ child ∈ element.shape.children, child.index < tree.size := by
  unfold slotDefect?
  split
  next misplaced => simp [misplaced]
  next placed =>
    have placed := not_not.mp placed
    rw [children_of_placed stored placed]
    simp only [Option.map_eq_none_iff, List.find?_eq_none, decide_eq_true_eq, Nat.not_le]
    exact (and_iff_right placed).symm

theorem rootDefect?_eq_none_iff :
    tree.rootDefect? = none ↔ ∀ root, tree.root = some root → root.index < tree.size := by
  unfold rootDefect?
  simp only [Option.map_eq_none_iff, Option.filter_eq_none_iff, decide_eq_true_eq, Nat.not_le]

theorem defect?_eq_none_iff : tree.defect? = none ↔ tree.Sound := by
  have stored : ∀ entry, entry ∈ tree.elements.toList.zipIdx ↔
      tree.elements[entry.2]? = some entry.1 := by
    intro entry
    rw [List.mem_zipIdx_iff_getElem?, Array.getElem?_toList]
  rw [defect?, Option.or_eq_none_iff, List.findSome?_eq_none_iff, rootDefect?_eq_none_iff]
  simp only [stored, Prod.forall]
  constructor
  · intro parts
    obtain ⟨slots, rooted⟩ := parts
    have slots := fun slot element found =>
      (slotDefect?_eq_none_iff found).mp (slots element slot found)
    exact ⟨fun slot element found => (slots slot element found).1,
      fun slot element found => (slots slot element found).2, rooted⟩
  · intro sound
    refine ⟨fun element slot found => ?_, sound.rooted⟩
    exact (slotDefect?_eq_none_iff found).mpr
      ⟨sound.placed slot element found, sound.closed slot element found⟩

theorem Sound.child_in_arena (sound : tree.Sound) (found : tree.shape? id = some shape)
    {child : TreeId} (isChild : child ∈ shape.children) : child.index < tree.size := by
  obtain ⟨element, stored, rfl⟩ := Option.map_eq_some_iff.mp found
  exact sound.closed id.index element stored child isChild

end FlowLink.SyntaxTree
