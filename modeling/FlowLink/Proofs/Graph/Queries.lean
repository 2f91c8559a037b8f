import FlowLink.Proofs.Graph.Counting
import Mathlib.Data.List.Sort

namespace FlowLink

open Std

/-! # Queries

A graph keeps its edges by source, and each query goes through them in a way of its own.  `Coherent`
says what all queries answer in terms of `hasEdge` alone.  Sources without links and links to nodes
that do not exist make no difference, save that successors have to exist.
-/

theorem EdgeKind.mem_all (kind : EdgeKind) : kind ∈ EdgeKind.all := by
  cases kind <;> decide

namespace FeatureGraph

variable {graph : FeatureGraph} {source node : NodeId} {kind : EdgeKind} {edge : Edge}

theorem mem_predecessors_iff :
    source ∈ graph.predecessors node kind ↔ graph.hasEdge ⟨source, node, kind⟩ = true := by
  simp only [predecessors, ExtTreeSet.mem_ofList, List.contains_iff_mem, List.mem_map,
    List.mem_filter, ExtTreeSet.contains_iff_mem, hasEdge_iff_mem_links, Edge.link]
  constructor
  · intro listed
    obtain ⟨⟨_, links⟩, ⟨isListed, linked⟩, rfl⟩ := listed
    rwa [links_of_listed isListed]
  · intro linked
    exact ⟨(source, graph.links source), ⟨listed_of_mem_links linked, linked⟩, rfl⟩

theorem mem_edgesOfKind_iff :
    edge ∈ graph.edgesOfKind kind ↔ graph.hasEdge edge = true ∧ edge.kind = kind := by
  rw [edgesOfKind, List.mem_filter, mem_edges_iff, decide_eq_true_iff]

theorem count_edges (graph : FeatureGraph) (edge : Edge) :
    graph.edges.count edge = if graph.hasEdge edge then 1 else 0 := by
  simp only [graph.edges_nodup.count, mem_edges_iff]

/-! ## Counts by kind -/

theorem countP_kind (graph : FeatureGraph) (kind : EdgeKind) :
    graph.edges.countP (fun edge => edge.kind = kind) = (graph.edgesOfKind kind).length :=
  List.countP_eq_length_filter

theorem getElem?_countKind (counts : ExtTreeMap EdgeKind Nat) (edge : Edge) (kind : EdgeKind) :
    (countKind counts edge)[kind]? =
      if edge.kind = kind then some (counts.getD kind 0 + 1) else counts[kind]? := by
  simp only [countKind, ExtTreeMap.getElem?_insert, Std.compare_eq_iff_eq]
  split
  next same => rw [same]
  next => rfl

/-- The counts go up by the edges of each kind. -/
theorem getElem?_foldl_countKind (edges : List Edge) (counts : ExtTreeMap EdgeKind Nat)
    (kind : EdgeKind) :
    (edges.foldl countKind counts)[kind]? =
      if edges.countP (fun edge => edge.kind = kind) = 0 then counts[kind]?
      else some (counts.getD kind 0 + edges.countP fun edge => edge.kind = kind) := by
  induction edges generalizing counts with
  | nil => rfl
  | cons edge rest ih =>
      rw [List.foldl_cons, ih, ExtTreeMap.getD_eq_getD_getElem?, getElem?_countKind,
        List.countP_cons]
      by_cases same : edge.kind = kind
      · simp only [same, if_true, decide_true, Option.getD_some]
        split <;> grind
      · simp [same, ExtTreeMap.getD_eq_getD_getElem?]

theorem mem_edgeCounts_iff {count : Nat} :
    (kind, count) ∈ graph.edgeCounts ↔
      count = (graph.edgesOfKind kind).length ∧ count ≠ 0 := by
  rw [edgeCounts, ExtTreeMap.mem_toList_iff_getElem?_eq_some, getElem?_foldl_countKind,
    countP_kind, ExtTreeMap.getElem?_empty, ExtTreeMap.getD_empty, Nat.zero_add]
  split <;> grind

theorem edgeCounts_ordered (graph : FeatureGraph) :
    graph.edgeCounts.Pairwise fun left right => left.1.rank < right.1.rank := by
  rw [edgeCounts]
  apply ExtTreeMap.ordered_keys_toList.imp
  intro left right below
  exact Nat.compare_eq_lt.mp below

/-- Each kind is listed with the number of its edges, in the order of the kinds. -/
theorem edgeCounts_eq (graph : FeatureGraph) :
    graph.edgeCounts =
      (EdgeKind.all.map fun kind =>
        (kind, graph.edges.countP fun edge => edge.kind = kind)).filter
          fun (_, count) => count ≠ 0 := by
  have kinds : EdgeKind.all.Pairwise fun left right => left.rank < right.rank := by decide
  have irreflexive : Std.Irrefl fun left right : EdgeKind × Nat => left.1.rank < right.1.rank :=
    ⟨fun _ => Nat.lt_irrefl _⟩
  have asymmetric : Std.Asymm fun left right : EdgeKind × Nat => left.1.rank < right.1.rank :=
    ⟨fun _ _ => Nat.lt_asymm⟩
  apply List.Pairwise.eq_of_mem_iff graph.edgeCounts_ordered
  · apply List.Pairwise.filter
    rw [List.pairwise_map]
    exact kinds
  · rintro ⟨kind, count⟩
    rw [mem_edgeCounts_iff]
    simp only [countP_kind, List.mem_filter, List.mem_map, Prod.mk.injEq, decide_eq_true_eq]
    constructor
    · rintro ⟨rfl, present⟩
      exact ⟨⟨kind, kind.mem_all, rfl, rfl⟩, present⟩
    · rintro ⟨⟨_, _, rfl, rfl⟩, present⟩
      exact ⟨rfl, present⟩

/-- Every edge is of one kind. -/
theorem sum_countP_kind (edges : List Edge) :
    (EdgeKind.all.map fun kind => edges.countP fun edge => edge.kind = kind).sum =
      edges.length := by
  induction edges with
  | nil => rfl
  | cons edge rest ih =>
      simp only [EdgeKind.all, List.map_cons, List.map_nil, List.sum_cons, List.sum_nil,
        List.countP_cons, List.length_cons] at ih ⊢
      cases edge.kind <;> simp <;> omega

theorem sum_edgeCounts (graph : FeatureGraph) :
    (graph.edgeCounts.map Prod.snd).sum = graph.edges.length := by
  have nonzero : ∀ count : Nat, (if decide (count ≠ 0) then count else 0) = count := by
    intro count
    cases count <;> rfl
  rw [edgeCounts_eq, sum_map_filter, List.map_map, ← sum_countP_kind]
  simp only [Function.comp_def, nonzero]

/-! ## One set of edges -/

/-- What the queries of a graph answer, said of the edges that it has. -/
structure Coherent (graph : FeatureGraph) : Prop where
  listed : ∀ edge, graph.edges.count edge = if graph.hasEdge edge then 1 else 0
  ordered : graph.edges.Pairwise Edge.Precedes
  ofKind : ∀ kind, (graph.edgesOfKind kind).Sublist graph.edges ∧
    ∀ edge, edge ∈ graph.edgesOfKind kind ↔ graph.hasEdge edge = true ∧ edge.kind = kind
  counted : graph.edgeCount = graph.edges.length
  summed : (graph.edgeCounts.map Prod.snd).sum = graph.edgeCount
  /-- There is one entry for each kind that has edges, and none for the others. -/
  countedByKind : ∀ kind count, (kind, count) ∈ graph.edgeCounts ↔
    count = (graph.edgesOfKind kind).length ∧ count ≠ 0
  countsOrdered : graph.edgeCounts.Pairwise fun left right => left.1.rank < right.1.rank
  predecessors : ∀ source node kind,
    source ∈ graph.predecessors node kind ↔ graph.hasEdge ⟨source, node, kind⟩ = true
  successors : ∀ node filter target, target ∈ graph.successors node filter ↔
    (∃ found, graph.node? target = some found ∧ filter.accepts found.type = true) ∧
      ∃ kind, graph.hasEdge ⟨node, target, kind⟩ = true

/-- In every graph, however it came about, all queries describe the same edges. -/
theorem queries_coherent (graph : FeatureGraph) : graph.Coherent where
  listed := graph.count_edges
  ordered := graph.edges_ordered
  ofKind _ := ⟨List.filter_sublist, fun _ => mem_edgesOfKind_iff⟩
  counted := graph.edgeCount_eq_length
  summed := by rw [sum_edgeCounts, edgeCount_eq_length]
  countedByKind _ _ := mem_edgeCounts_iff
  countsOrdered := graph.edgeCounts_ordered
  predecessors _ _ _ := mem_predecessors_iff
  successors _ _ _ := mem_successors_iff

/-- One source has no links, and the other one is joined to a node twice and to a missing one. -/
example :
    let links : List Link := [⟨⟨1⟩, .returnsTo⟩, ⟨⟨7⟩, .nextToken⟩, ⟨⟨1⟩, .nextToken⟩]
    let sources : List (NodeId × ExtTreeSet Link) := [(⟨5⟩, ∅), (⟨0⟩, .ofList links)]
    let nodes : Array Node := #[⟨⟨0⟩, .token, "f"⟩, ⟨⟨1⟩, .identifierToken, "x"⟩]
    let graph : FeatureGraph := ⟨nodes, ∅, .ofList sources⟩
    graph.edgeCounts = [(.nextToken, 2), (.returnsTo, 1)] ∧
      (graph.successors ⟨0⟩ .anyToken).toList = [⟨1⟩] := by
  decide

end FeatureGraph

end FlowLink
