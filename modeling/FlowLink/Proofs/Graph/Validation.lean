import FlowLink.Proofs.Graph.Counting
import Mathlib.Data.List.Basic

namespace FlowLink.FeatureGraph

open Std

/-! # Graphs without defects

`defect?` looks for the first defect; `Intact` says what it means that there is none.  Enriching a
graph never breaks it, because the edges that are added have both ends.
-/

variable {graph before after : FeatureGraph}

structure Intact (graph : FeatureGraph) : Prop where
  placed : ∀ (slot : Nat) (node : Node), graph.nodes[slot]? = some node → node.id.index = slot
  registered : ∀ (tree : TreeId) (node : NodeId),
    graph.treeNode? tree = some node → graph.hasNode node = true
  tied : ∀ edge, graph.hasEdge edge = true → graph.hasEnds edge = true

theorem placed_iff_noMisplaced :
    (graph.nodes.toList.zipIdx.findSome? fun (node, slot) =>
        if node.id.index ≠ slot then some (Defect.misplaced slot node.id) else none) = none ↔
      ∀ (slot : Nat) (node : Node), graph.nodes[slot]? = some node → node.id.index = slot := by
  simp only [List.findSome?_eq_none_iff, ite_eq_right_iff, reduceCtorEq, imp_false, not_not,
    Prod.forall, List.mk_mem_zipIdx_iff_getElem?, Array.getElem?_toList]
  exact forall_comm

theorem registered_iff_noDanglingAssociation :
    (graph.treeNodes.toList.findSome? fun (tree, node) =>
        if graph.hasNode node then none else some (Defect.danglingAssociation tree node)) = none ↔
      ∀ (tree : TreeId) (node : NodeId),
        graph.treeNode? tree = some node → graph.hasNode node = true := by
  simp only [List.findSome?_eq_none_iff, ite_eq_left_iff, reduceCtorEq, imp_false, not_not,
    Prod.forall, ExtTreeMap.mem_toList_iff_getElem?_eq_some]
  rfl

theorem tied_iff_noDanglingEdge :
    (graph.edges.findSome? fun edge =>
        if graph.hasEnds edge then none else some (Defect.danglingEdge edge)) = none ↔
      ∀ edge, graph.hasEdge edge = true → graph.hasEnds edge = true := by
  simp only [List.findSome?_eq_none_iff, ite_eq_left_iff, reduceCtorEq, imp_false, not_not,
    mem_edges_iff]

theorem defect?_eq_none_iff : graph.defect? = none ↔ graph.Intact := by
  rw [defect?, Option.or_eq_none_iff, Option.or_eq_none_iff, placed_iff_noMisplaced,
    registered_iff_noDanglingAssociation, tied_iff_noDanglingEdge]
  constructor
  · intro parts
    obtain ⟨⟨placed, registered⟩, tied⟩ := parts
    exact ⟨placed, registered, tied⟩
  · intro intact
    exact ⟨⟨intact.placed, intact.registered⟩, intact.tied⟩

theorem Enriches.intact (enriches : after.Enriches before) (intact : before.Intact) :
    after.Intact where
  placed slot node isNode := intact.placed slot node (enriches.nodes ▸ isNode)
  registered tree node isNode := by
    rw [enriches.hasNode]
    exact intact.registered tree node ((enriches.treeNode? tree).symm.trans isNode)
  tied edge present := by
    rw [enriches.hasEnds]
    cases ends : before.hasEnds edge with
    | true => rfl
    | false =>
        have old : before.hasEdge edge = true := (enriches.tied edge ends).symm.trans present
        exact ends.symm.trans (intact.tied edge old)

end FlowLink.FeatureGraph
