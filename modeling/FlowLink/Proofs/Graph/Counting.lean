import FlowLink.Proofs.Graph.Edges
import Mathlib.Algebra.BigOperators.Group.List.Basic
import Mathlib.Algebra.GroupWithZero.Nat
import Mathlib.Data.List.Nodup

namespace FlowLink

open Std

/-! # The edges of a graph as a list

`edges` lists every edge once and in order.  So a graph has as many edges as this list is long, and
putting an edge that was not there counts as one more.
-/

theorem sum_map_filter {α : Type} (test : α → Bool) (amount : α → Nat) (items : List α) :
    ((items.filter test).map amount).sum =
      (items.map fun item => if test item then amount item else 0).sum := by
  induction items with
  | nil => rfl
  | cons item rest ih => cases passes : test item <;> simp [passes, ih]

/-- Edges by source, those of one source by target, and those between two nodes by kind. -/
def Edge.Precedes (left right : Edge) : Prop :=
  left.source.index < right.source.index ∨
    left.source = right.source ∧
      (left.target.index < right.target.index ∨
        left.target = right.target ∧ left.kind.rank < right.kind.rank)

theorem Edge.Precedes.asymm {left right : Edge} (before : left.Precedes right)
    (after : right.Precedes left) : False := by
  unfold Edge.Precedes at before after
  grind

theorem Link.precedes_of_compare {left right : Link} (below : compare left right = .lt) :
    left.target.index < right.target.index ∨
      left.target = right.target ∧ left.kind.rank < right.kind.rank := by
  rcases Ordering.then_eq_lt.mp below with targets | ⟨targets, kinds⟩
  · exact .inl (Nat.compare_eq_lt.mp targets)
  · exact .inr ⟨LawfulEqOrd.eq_of_compare targets, Nat.compare_eq_lt.mp kinds⟩

namespace FeatureGraph

variable {graph : FeatureGraph} {edge : Edge} {source : NodeId} {links : ExtTreeSet Link}

theorem links_of_listed (listed : (source, links) ∈ graph.adjacency.toList) :
    graph.links source = links := by
  rw [ExtTreeMap.mem_toList_iff_getElem?_eq_some] at listed
  rw [FeatureGraph.links, listed, Option.getD_some]

theorem listed_of_mem_links {link : Link} (linked : link ∈ graph.links source) :
    (source, graph.links source) ∈ graph.adjacency.toList := by
  rw [ExtTreeMap.mem_toList_iff_getElem?_eq_some]
  cases found : graph.adjacency[source]? with
  | some links => rw [FeatureGraph.links, found, Option.getD_some]
  | none =>
      rw [FeatureGraph.links, found, Option.getD_none] at linked
      exact absurd linked ExtTreeSet.not_mem_empty

theorem mem_edges_iff : edge ∈ graph.edges ↔ graph.hasEdge edge = true := by
  rw [hasEdge_iff_mem_links, edges, List.mem_flatMap]
  constructor
  · intro entry
    obtain ⟨⟨source, links⟩, listed, member⟩ := entry
    obtain ⟨link, linked, rfl⟩ := List.mem_map.mp member
    rw [links_of_listed listed]
    exact ExtTreeSet.mem_toList.mp linked
  · intro linked
    refine ⟨(edge.source, graph.links edge.source), listed_of_mem_links linked, ?_⟩
    exact List.mem_map.mpr ⟨edge.link, ExtTreeSet.mem_toList.mpr linked, rfl⟩

theorem edges_nodup (graph : FeatureGraph) : graph.edges.Nodup := by
  rw [edges, List.nodup_flatMap]
  constructor
  · intro entry _
    apply List.Nodup.map
    · intro left right same
      obtain ⟨_, targets, kinds⟩ := Edge.mk.inj same
      exact Link.mk.injEq .. ▸ ⟨targets, kinds⟩
    · exact ExtTreeSet.distinct_toList.imp fun distinct same =>
        distinct (Std.compare_eq_iff_eq.mpr same)
  · apply ExtTreeMap.distinct_keys_toList.imp
    intro left right distinct edge fromLeft fromRight
    obtain ⟨_, _, rfl⟩ := List.mem_map.mp fromLeft
    obtain ⟨_, _, same⟩ := List.mem_map.mp fromRight
    exact distinct (Std.compare_eq_iff_eq.mpr (congrArg Edge.source same).symm)

/-- `edges` goes from source to source upwards, and lists the links of one source in their order. -/
theorem edges_ordered (graph : FeatureGraph) : graph.edges.Pairwise Edge.Precedes := by
  rw [edges, List.pairwise_flatMap]
  constructor
  · intro entry _
    rw [List.pairwise_map]
    exact ExtTreeSet.ordered_toList.imp fun below =>
      .inr ⟨rfl, Link.precedes_of_compare below⟩
  · apply ExtTreeMap.ordered_keys_toList.imp
    intro left right below edge fromLeft other fromRight
    obtain ⟨_, _, rfl⟩ := List.mem_map.mp fromLeft
    obtain ⟨_, _, rfl⟩ := List.mem_map.mp fromRight
    exact .inl (Nat.compare_eq_lt.mp below)

theorem edgeCount_eq_length (graph : FeatureGraph) : graph.edgeCount = graph.edges.length := by
  rw [edgeCount, ExtTreeMap.foldl_eq_foldl_toList, edges, List.length_flatMap, List.sum_eq_foldl,
    List.foldl_map]
  simp only [List.length_map, ExtTreeSet.length_toList]

theorem edges_putEdge_of_new (ends : graph.hasEnds edge = true)
    (absent : graph.hasEdge edge = false) :
    (graph.putEdge edge).1.edges.Perm (edge :: graph.edges) := by
  have fresh : edge ∉ graph.edges := by
    rw [mem_edges_iff, absent]
    exact Bool.false_ne_true
  have nodup : (edge :: graph.edges).Nodup := List.nodup_cons.mpr ⟨fresh, graph.edges_nodup⟩
  rw [List.perm_ext_iff_of_nodup (edges_nodup _) nodup]
  intro other
  rw [mem_edges_iff, hasEdge_putEdge, List.mem_cons, mem_edges_iff, and_iff_left ends, or_comm]

theorem edgeCount_putEdge_of_new (ends : graph.hasEnds edge = true)
    (absent : graph.hasEdge edge = false) :
    (graph.putEdge edge).1.edgeCount = graph.edgeCount + 1 := by
  rw [edgeCount_eq_length, edgeCount_eq_length, (edges_putEdge_of_new ends absent).length_eq,
    List.length_cons]

end FeatureGraph

end FlowLink
