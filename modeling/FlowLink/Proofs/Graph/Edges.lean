import FlowLink.Graph.Basic
import Mathlib.Tactic.Tauto

namespace FlowLink.FeatureGraph

open Std

/-! # Edges and tokens

`hasEdge` is the view through which a graph is spoken of.  Linking only ever enriches a graph: it
adds edges of other kinds than the skeleton's between nodes that are there.  Tokens, nodes and
associations look the same in an enriched graph, which is why a pass may resolve its requests in
the graph that it is changing.
-/

variable {graph before middle after : FeatureGraph} {edge other : Edge} {node token : NodeId}
  {tree : TreeId}

theorem hasEdge_iff_mem_links :
    graph.hasEdge edge = true ↔ edge.link ∈ graph.links edge.source := ExtTreeSet.contains_iff_mem

theorem putEdge_of_new (ends : graph.hasEnds edge = true) (absent : graph.hasEdge edge = false) :
    graph.putEdge edge =
      ({ graph with
          adjacency := graph.adjacency.insert edge.source
            ((graph.links edge.source).insert edge.link) }, true) := by
  simp [putEdge, ends, absent]

theorem putEdge_of_present (present : graph.hasEdge edge = true) :
    graph.putEdge edge = (graph, false) := by
  simp [putEdge, present]

theorem putEdge_of_loose (loose : graph.hasEnds edge = false) :
    graph.putEdge edge = (graph, false) := by
  simp [putEdge, loose]

@[simp] theorem putEdge_nodes : (graph.putEdge edge).1.nodes = graph.nodes := by
  unfold putEdge
  split <;> rfl

@[simp] theorem putEdge_treeNodes : (graph.putEdge edge).1.treeNodes = graph.treeNodes := by
  unfold putEdge
  split <;> rfl

theorem links_insert (links : ExtTreeSet Link) (source : NodeId) :
    { graph with adjacency := graph.adjacency.insert source links }.links node =
      if source = node then links else graph.links node := by
  simp only [FeatureGraph.links, ExtTreeMap.getElem?_insert, Std.compare_eq_iff_eq]
  split <;> simp

/-- Putting an edge makes it present if it has both ends, and affects no other edge. -/
theorem hasEdge_putEdge :
    (graph.putEdge edge).1.hasEdge other = true ↔
      graph.hasEdge other = true ∨ other = edge ∧ graph.hasEnds edge = true := by
  cases ends : graph.hasEnds edge with
  | false => simp [putEdge_of_loose ends]
  | true =>
      cases present : graph.hasEdge edge with
      | true =>
          rw [putEdge_of_present present]
          constructor
          · exact Or.inl
          · intro either
            rcases either with old | ⟨rfl, _⟩
            · exact old
            · exact present
      | false =>
          rw [putEdge_of_new ends present, hasEdge_iff_mem_links, hasEdge_iff_mem_links,
            links_insert]
          by_cases same : edge.source = other.source
          · rw [if_pos same, ExtTreeSet.mem_insert, Std.compare_eq_iff_eq, same]
            have equal : edge.link = other.link ↔ other = edge := by
              constructor
              · intro links
                obtain ⟨targets, kinds⟩ := Link.mk.inj links
                exact Edge.mk.injEq .. ▸ ⟨same.symm, targets.symm, kinds.symm⟩
              · intro same
                rw [same]
            rw [equal]
            tauto
          · rw [if_neg same]
            have apart : other ≠ edge := by
              intro equal
              exact same (congrArg Edge.source equal.symm)
            simp [apart]

/-- A query for targets finds the nodes that there are, over the edges that there are. -/
theorem mem_targetsWhere_iff {test : Link → NodeType → Bool} {target : NodeId} :
    target ∈ graph.targetsWhere node test ↔
      ∃ kind found, graph.hasEdge ⟨node, target, kind⟩ = true ∧
        graph.node? target = some found ∧ test ⟨target, kind⟩ found.type = true := by
  simp only [targetsWhere, ExtTreeSet.mem_ofList, List.contains_iff_mem, List.mem_map,
    List.mem_filter, ExtTreeSet.mem_toList, targetType?, Option.any_map, hasEdge_iff_mem_links,
    Edge.link, Option.any_eq_true]
  constructor
  · intro answer
    obtain ⟨⟨_, kind⟩, ⟨linked, found, isNode, passes⟩, rfl⟩ := answer
    exact ⟨kind, found, linked, isNode, passes⟩
  · intro answer
    obtain ⟨kind, found, linked, isNode, passes⟩ := answer
    exact ⟨⟨target, kind⟩, ⟨linked, found, isNode, passes⟩, rfl⟩

theorem mem_tokens_iff :
    token ∈ graph.tokens node ↔
      (∃ kind : EdgeKind, kind.isSkeleton = true ∧ graph.hasEdge ⟨node, token, kind⟩ = true) ∧
        ∃ found, graph.node? token = some found ∧ found.type.isToken = true := by
  rw [tokens, mem_targetsWhere_iff]
  constructor
  · intro successor
    obtain ⟨kind, found, linked, isNode, passes⟩ := successor
    obtain ⟨skeleton, isToken⟩ := Bool.and_eq_true_iff.mp passes
    exact ⟨⟨kind, skeleton, linked⟩, found, isNode, isToken⟩
  · intro successor
    obtain ⟨⟨kind, skeleton, linked⟩, found, isNode, isToken⟩ := successor
    exact ⟨kind, found, linked, isNode, Bool.and_eq_true_iff.mpr ⟨skeleton, isToken⟩⟩

theorem mem_successors_iff {filter : NodeFilter} {target : NodeId} :
    target ∈ graph.successors node filter ↔
      (∃ found, graph.node? target = some found ∧ filter.accepts found.type = true) ∧
        ∃ kind, graph.hasEdge ⟨node, target, kind⟩ = true := by
  rw [successors, mem_targetsWhere_iff]
  constructor
  · intro successor
    obtain ⟨kind, found, linked, isNode, accepted⟩ := successor
    exact ⟨⟨found, isNode, accepted⟩, kind, linked⟩
  · intro successor
    obtain ⟨⟨found, isNode, accepted⟩, kind, linked⟩ := successor
    exact ⟨kind, found, linked, isNode, accepted⟩

theorem hasNode_of_mem_tokens (member : token ∈ graph.tokens node) :
    graph.hasNode token = true := by
  obtain ⟨_, found, isNode, _⟩ := mem_tokens_iff.mp member
  exact decide_eq_true (Array.getElem?_eq_some_iff.mp isNode).1

/-! ## Enriched graphs -/

/-- The graph is another one with edges added between its nodes, none of them of a skeleton kind. -/
structure Enriches (after before : FeatureGraph) : Prop where
  nodes : after.nodes = before.nodes
  treeNodes : after.treeNodes = before.treeNodes
  kept : ∀ edge, before.hasEdge edge = true → after.hasEdge edge = true
  skeleton : ∀ edge, edge.kind.isSkeleton = true → after.hasEdge edge = before.hasEdge edge
  tied : ∀ edge, before.hasEnds edge = false → after.hasEdge edge = before.hasEdge edge

namespace Enriches

theorem refl (graph : FeatureGraph) : graph.Enriches graph :=
  ⟨rfl, rfl, fun _ present => present, fun _ _ => rfl, fun _ _ => rfl⟩

theorem node? (enriches : after.Enriches before) (id : NodeId) :
    after.node? id = before.node? id := by
  rw [FeatureGraph.node?, FeatureGraph.node?, enriches.nodes]

theorem treeNode? (enriches : after.Enriches before) (id : TreeId) :
    after.treeNode? id = before.treeNode? id := by
  rw [FeatureGraph.treeNode?, FeatureGraph.treeNode?, enriches.treeNodes]

theorem hasNode (enriches : after.Enriches before) (id : NodeId) :
    after.hasNode id = before.hasNode id := by
  rw [FeatureGraph.hasNode, FeatureGraph.hasNode, nodeCount, nodeCount, enriches.nodes]

theorem hasEnds (enriches : after.Enriches before) (edge : Edge) :
    after.hasEnds edge = before.hasEnds edge := by
  rw [FeatureGraph.hasEnds, FeatureGraph.hasEnds, enriches.hasNode, enriches.hasNode]

theorem trans (second : after.Enriches middle) (first : middle.Enriches before) :
    after.Enriches before where
  nodes := second.nodes.trans first.nodes
  treeNodes := second.treeNodes.trans first.treeNodes
  kept edge present := second.kept edge (first.kept edge present)
  skeleton edge isSkeleton :=
    (second.skeleton edge isSkeleton).trans (first.skeleton edge isSkeleton)
  tied edge loose :=
    (second.tied edge ((first.hasEnds edge).trans loose)).trans (first.tied edge loose)

/-- Whatever linking adds, a node stands for the same tokens as before. -/
theorem tokens (enriches : after.Enriches before) (node : NodeId) :
    after.tokens node = before.tokens node := by
  apply ExtTreeSet.ext_mem
  intro token
  have edges : (∃ kind : EdgeKind, kind.isSkeleton = true ∧
        after.hasEdge ⟨node, token, kind⟩ = true) ↔
      ∃ kind : EdgeKind, kind.isSkeleton = true ∧ before.hasEdge ⟨node, token, kind⟩ = true := by
    apply exists_congr
    intro kind
    apply and_congr_right
    intro isSkeleton
    rw [enriches.skeleton ⟨node, token, kind⟩ isSkeleton]
  rw [mem_tokens_iff, mem_tokens_iff, edges, enriches.node?]

end Enriches

theorem putEdge_enriches (added : edge.kind.isSkeleton = false) :
    (graph.putEdge edge).1.Enriches graph where
  nodes := putEdge_nodes
  treeNodes := putEdge_treeNodes
  kept other present := hasEdge_putEdge.mpr (Or.inl present)
  skeleton other isSkeleton := by
    rw [Bool.eq_iff_iff, hasEdge_putEdge, or_iff_left]
    intro new
    obtain ⟨rfl, _⟩ := new
    rw [isSkeleton] at added
    contradiction
  tied other loose := by
    rw [Bool.eq_iff_iff, hasEdge_putEdge, or_iff_left]
    intro new
    obtain ⟨rfl, ends⟩ := new
    rw [loose] at ends
    contradiction

/-! ## Rows of edges -/

def putEdges (graph : FeatureGraph) (edges : List Edge) : FeatureGraph :=
  edges.foldl (fun graph edge => (graph.putEdge edge).1) graph

theorem putEdges_append (first second : List Edge) :
    graph.putEdges (first ++ second) = (graph.putEdges first).putEdges second := by
  rw [putEdges, List.foldl_append]
  rfl

@[simp] theorem putEdges_nodes (edges : List Edge) :
    (graph.putEdges edges).nodes = graph.nodes := by
  induction edges generalizing graph with
  | nil => rfl
  | cons edge rest ih => exact ih.trans putEdge_nodes

theorem hasEnds_putEdges (edges : List Edge) :
    (graph.putEdges edges).hasEnds edge = graph.hasEnds edge := by
  rw [hasEnds, hasEnds, hasNode, hasNode, hasNode, hasNode, nodeCount, nodeCount, putEdges_nodes]

theorem hasEdge_putEdges (edges : List Edge) :
    (graph.putEdges edges).hasEdge other = true ↔
      graph.hasEdge other = true ∨ other ∈ edges ∧ graph.hasEnds other = true := by
  induction edges generalizing graph with
  | nil => simp [putEdges]
  | cons edge rest ih =>
      have ends : (graph.putEdge edge).1.hasEnds other = graph.hasEnds other :=
        hasEnds_putEdges [edge]
      rw [show graph.putEdges (edge :: rest) = (graph.putEdge edge).1.putEdges rest from rfl, ih,
        hasEdge_putEdge, ends, List.mem_cons]
      constructor
      · intro either
        rcases either with (present | ⟨rfl, tied⟩) | ⟨member, tied⟩
        · exact Or.inl present
        · exact Or.inr ⟨Or.inl rfl, tied⟩
        · exact Or.inr ⟨Or.inr member, tied⟩
      · intro either
        rcases either with present | ⟨rfl | member, tied⟩
        · exact Or.inl (Or.inl present)
        · exact Or.inl (Or.inr ⟨rfl, tied⟩)
        · exact Or.inr ⟨member, tied⟩

theorem putEdges_enriches {edges : List Edge}
    (added : ∀ edge ∈ edges, edge.kind.isSkeleton = false) :
    (graph.putEdges edges).Enriches graph := by
  induction edges generalizing graph with
  | nil => exact .refl graph
  | cons edge rest ih =>
      exact (ih fun other member => added other (List.mem_cons_of_mem _ member)).trans
        (putEdge_enriches (added edge List.mem_cons_self))

/-- A graph is its nodes, its associations, the sources that it lists and its edges. -/
theorem ext_hasEdge {left right : FeatureGraph} (nodes : left.nodes = right.nodes)
    (treeNodes : left.treeNodes = right.treeNodes)
    (sources : ∀ source, source ∈ left.adjacency ↔ source ∈ right.adjacency)
    (edges : ∀ edge, left.hasEdge edge = true ↔ right.hasEdge edge = true) : left = right := by
  have links : ∀ source, left.links source = right.links source := by
    intro source
    apply ExtTreeSet.ext_mem
    intro link
    have same := edges ⟨source, link.target, link.kind⟩
    rwa [hasEdge_iff_mem_links, hasEdge_iff_mem_links] at same
  have adjacency : left.adjacency = right.adjacency := by
    apply ExtTreeMap.ext_getElem?
    intro source
    have listed := sources source
    have same := links source
    simp only [ExtTreeMap.mem_iff_isSome_getElem?] at listed
    simp only [FeatureGraph.links] at same
    cases fromLeft : left.adjacency[source]? with
    | none => cases fromRight : right.adjacency[source]? <;> simp_all
    | some _ => cases fromRight : right.adjacency[source]? <;> simp_all
  cases left
  cases right
  rw [FeatureGraph.mk.injEq]
  exact ⟨nodes, treeNodes, adjacency⟩

@[simp] theorem putEdges_treeNodes (edges : List Edge) :
    (graph.putEdges edges).treeNodes = graph.treeNodes := by
  induction edges generalizing graph with
  | nil => rfl
  | cons edge rest ih => exact ih.trans putEdge_treeNodes

theorem mem_adjacency_of_hasEdge (present : graph.hasEdge edge = true) :
    edge.source ∈ graph.adjacency := by
  rw [hasEdge_iff_mem_links, FeatureGraph.links] at present
  rw [ExtTreeMap.mem_iff_isSome_getElem?]
  cases found : graph.adjacency[edge.source]? with
  | none => simp [found] at present
  | some _ => rfl

theorem mem_adjacency_putEdge :
    node ∈ (graph.putEdge edge).1.adjacency ↔
      node ∈ graph.adjacency ∨ edge.source = node ∧ graph.hasEnds edge = true := by
  cases ends : graph.hasEnds edge with
  | false => simp [putEdge_of_loose ends]
  | true =>
      cases present : graph.hasEdge edge with
      | false =>
          rw [putEdge_of_new ends present, ExtTreeMap.mem_insert, Std.compare_eq_iff_eq]
          tauto
      | true =>
          rw [putEdge_of_present present]
          constructor
          · exact Or.inl
          · intro either
            rcases either with listed | ⟨rfl, _⟩
            · exact listed
            · exact mem_adjacency_of_hasEdge present

theorem mem_adjacency_putEdges (edges : List Edge) :
    node ∈ (graph.putEdges edges).adjacency ↔
      node ∈ graph.adjacency ∨
        ∃ edge ∈ edges, edge.source = node ∧ graph.hasEnds edge = true := by
  induction edges generalizing graph with
  | nil => simp [putEdges]
  | cons edge rest ih =>
      have ends : ∀ other, (graph.putEdge edge).1.hasEnds other = graph.hasEnds other := by
        intro other
        exact hasEnds_putEdges [edge]
      rw [show graph.putEdges (edge :: rest) = (graph.putEdge edge).1.putEdges rest from rfl, ih,
        mem_adjacency_putEdge, or_assoc]
      simp only [ends, List.mem_cons, exists_eq_or_imp]

/-- What comes of putting edges depends on which they are, not on their order and repetitions. -/
theorem putEdges_congr {first second : List Edge}
    (same : ∀ edge, edge ∈ first ↔ edge ∈ second) :
    graph.putEdges first = graph.putEdges second := by
  apply ext_hasEdge
  · rw [putEdges_nodes, putEdges_nodes]
  · rw [putEdges_treeNodes, putEdges_treeNodes]
  · intro source
    simp only [mem_adjacency_putEdges, same]
  · intro edge
    simp only [hasEdge_putEdges, same]

end FlowLink.FeatureGraph
