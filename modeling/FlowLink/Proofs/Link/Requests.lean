import FlowLink.Proofs.Link.Counters

namespace FlowLink.FeatureGraph

open Std

/-! # What a single request does

The tokens of a request are looked up before any edge is put.  So a request adds the edges between
the tokens of the graph that it is made of, even if it puts edges of the skeleton, which change what
its own nodes stand for.  Requests for other edges find the same tokens when they are made again,
and all their edges.
-/

variable {graph : FeatureGraph} {sources dests : ExtTreeSet NodeId} {kind : EdgeKind}
  {source dest : NodeId}

/-- A graph came from an earlier one by joining all of these nodes to all of those, and the outcome
says how many edges this took and how many were there. -/
structure Joined (before : FeatureGraph) (sources dests : ExtTreeSet NodeId) (kind : EdgeKind)
    (result : FeatureGraph × LinkOutcome) : Prop where
  nodes : result.1.nodes = before.nodes
  treeNodes : result.1.treeNodes = before.treeNodes
  edges : ∀ edge, result.1.hasEdge edge = true ↔
    before.hasEdge edge = true ∨
      edge.source ∈ sources ∧ edge.target ∈ dests ∧ edge.kind = kind
  sourceTokens : result.2.sourceTokens = sources.size
  destTokens : result.2.destTokens = dests.size
  grown : result.1.edgeCount = before.edgeCount + result.2.added
  counted : result.2.added + result.2.existing = sources.size * dests.size

theorem putProduct_joined (fromNodes : ∀ source ∈ sources, graph.hasNode source = true)
    (toNodes : ∀ dest ∈ dests, graph.hasNode dest = true) (kind : EdgeKind) :
    graph.Joined sources dests kind (graph.putProduct sources dests kind) := by
  have settled := putProduct_settled graph sources dests kind
  have counted := congrArg LinkOutcome.existing settled
  refine ⟨?_, ?_, ?_, congrArg LinkOutcome.sourceTokens settled,
    congrArg LinkOutcome.destTokens settled, edgeCount_putProduct graph sources dests kind, ?_⟩
  · rw [putProduct_graph, putEdges_nodes]
  · rw [putProduct_graph, putEdges_treeNodes]
  · intro edge
    rw [putProduct_graph, hasEdge_putEdges, mem_productEdges]
    apply or_congr_right
    apply and_iff_left_of_imp
    intro joins
    obtain ⟨isSource, isTarget, _⟩ := joins
    rw [hasEnds, fromNodes _ isSource, toNodes _ isTarget]
    rfl
  · rw [← countP_admits_productEdges fromNodes toNodes kind]
    exact counted

/-- Without its target, no edge of a request can be put. -/
theorem linkTokensToNode_of_loose (loose : graph.hasNode dest = false) :
    (graph.linkTokensToNode source dest kind).1 = graph := by
  have refused : ∀ edges : List Edge, (∀ edge ∈ edges, edge.target = dest) →
      graph.putEdges edges = graph := by
    intro edges toDest
    induction edges with
    | nil => rfl
    | cons edge rest ih =>
        have ends : graph.hasEnds edge = false := by
          rw [hasEnds, toDest edge List.mem_cons_self, loose, Bool.and_false]
        rw [putEdges, List.foldl_cons, putEdge_of_loose ends]
        exact ih fun other member => toDest other (List.mem_cons_of_mem _ member)
  rw [linkTokensToNode, putProduct_graph]
  apply refused
  intro edge asked
  exact mem_singleton_ofList.mp (mem_productEdges.mp asked).2.1

theorem putProduct_enriches (semantic : kind.isSkeleton = false) :
    (graph.putProduct sources dests kind).1.Enriches graph := by
  rw [putProduct_graph]
  apply putEdges_enriches
  intro edge asked
  rw [(mem_productEdges.mp asked).2.2, semantic]

/-- A request for edges of another kind than the skeleton's finds all of them when it is made
again. -/
theorem linkTokens_again (semantic : kind.isSkeleton = false) :
    (graph.linkTokens source dest kind).1.linkTokens source dest kind =
      ((graph.linkTokens source dest kind).1, (graph.linkTokens source dest kind).2.settled) := by
  have enriches : (graph.linkTokens source dest kind).1.Enriches graph :=
    putProduct_enriches semantic
  rw [linkTokens, enriches.tokens, enriches.tokens]
  exact putProduct_again (.refl _)

theorem linkTokensToNode_again (semantic : kind.isSkeleton = false) :
    (graph.linkTokensToNode source dest kind).1.linkTokensToNode source dest kind =
      ((graph.linkTokensToNode source dest kind).1,
        (graph.linkTokensToNode source dest kind).2.settled) := by
  have enriches : (graph.linkTokensToNode source dest kind).1.Enriches graph :=
    putProduct_enriches semantic
  rw [linkTokensToNode, enriches.tokens]
  exact putProduct_again (.refl _)

/-- The two requests, for any nodes and kinds.  One joins the tokens of its nodes, the other joins
the tokens of its source to the destination itself, or does nothing if there is no such node.  Made
again, a request for other edges than the skeleton's adds none and counts all of them as
existing. -/
theorem requests_exact (graph : FeatureGraph) (source dest : NodeId) (kind : EdgeKind) :
    let linked := graph.linkTokens source dest kind
    let joined := graph.linkTokensToNode source dest kind
    graph.Joined (graph.tokens source) (graph.tokens dest) kind linked ∧
      (graph.hasNode dest = true →
        graph.Joined (graph.tokens source) (.ofList [dest]) kind joined ∧
          joined.2.added + joined.2.existing = (graph.tokens source).size) ∧
      (graph.hasNode dest = false → joined.1 = graph) ∧
      joined.1.edgeCount = graph.edgeCount + joined.2.added ∧
      (kind.isSkeleton = false →
        linked.1.linkTokens source dest kind =
            (linked.1,
              { linked.2 with added := 0, existing := linked.2.added + linked.2.existing }) ∧
          joined.1.linkTokensToNode source dest kind =
            (joined.1,
              { joined.2 with added := 0, existing := joined.2.added + joined.2.existing })) := by
  intro linked joined
  refine ⟨?_, ?_, linkTokensToNode_of_loose, edgeCount_putProduct _ _ _ _, ?_⟩
  · exact putProduct_joined (fun _ member => hasNode_of_mem_tokens member)
      (fun _ member => hasNode_of_mem_tokens member) kind
  · intro present
    have toNode : graph.Joined (graph.tokens source) (.ofList [dest]) kind joined := by
      apply putProduct_joined (fun _ member => hasNode_of_mem_tokens member)
      intro other member
      rw [mem_singleton_ofList.mp member, present]
    refine ⟨toNode, ?_⟩
    have counted := toNode.counted
    rwa [size_singleton_ofList, Nat.mul_one] at counted
  · intro semantic
    exact ⟨linkTokens_again semantic, linkTokensToNode_again semantic⟩

/-- A syntax node and its first token stand for the same two tokens.  Of the four edges between these
one is there already. -/
def overlap : FeatureGraph :=
  putEdges
    { empty with
      nodes := #[⟨⟨0⟩, .astElement, "METHOD"⟩, ⟨⟨1⟩, .token, "f"⟩, ⟨⟨2⟩, .identifierToken, "x"⟩] }
    [⟨⟨0⟩, ⟨1⟩, .associatedToken⟩, ⟨⟨0⟩, ⟨2⟩, .associatedToken⟩, ⟨⟨1⟩, ⟨1⟩, .nextToken⟩,
      ⟨⟨1⟩, ⟨2⟩, .nextToken⟩, ⟨⟨1⟩, ⟨2⟩, .lastWrite⟩]

theorem overlap_requests :
    let linked := overlap.linkTokens ⟨0⟩ ⟨1⟩ .lastWrite
    let joined := overlap.linkTokensToNode ⟨0⟩ ⟨1⟩ .lastWrite
    (linked.2.added + linked.2.existing = 4 ∧ linked.1.edgeCount = 5 + linked.2.added) ∧
      (overlap.hasNode ⟨1⟩ = true ∧ joined.2.added + joined.2.existing = 2) ∧
      (overlap.hasNode ⟨3⟩ = false ∧
        (overlap.linkTokensToNode ⟨0⟩ ⟨3⟩ .lastWrite).1 = overlap) ∧
      (EdgeKind.lastWrite.isSkeleton = false ∧
        linked.1.linkTokens ⟨0⟩ ⟨1⟩ .lastWrite =
          (linked.1, { linked.2 with added := 0, existing := 4 })) := by
  intro linked joined
  have sources : (overlap.tokens ⟨0⟩).size = 2 := by decide
  have dests : (overlap.tokens ⟨1⟩).size = 2 := by decide
  have count : overlap.edgeCount = 5 := by decide
  have present : overlap.hasNode ⟨1⟩ = true := rfl
  have absent : overlap.hasNode ⟨3⟩ = false := rfl
  obtain ⟨product, toNode, _, _, again⟩ := requests_exact overlap ⟨0⟩ ⟨1⟩ .lastWrite
  obtain ⟨_, _, loose, _, _⟩ := requests_exact overlap ⟨0⟩ ⟨3⟩ .lastWrite
  have counted := product.counted
  rw [sources, dests] at counted
  refine ⟨⟨counted, count ▸ product.grown⟩, ⟨present, (toNode present).2.trans sources⟩,
    ⟨absent, loose absent⟩, rfl, ?_⟩
  rw [(again rfl).1, counted]

end FlowLink.FeatureGraph
