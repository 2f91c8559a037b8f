import FlowLink.Proofs.Link.Passes

namespace FlowLink

open Std FeatureGraph

/-! # Linking again

A second run performs the very actions of the first, since these can be drawn up from any graph
that was only enriched since.  It runs on a graph that holds every edge the first run put, so that
each request finds what it asks for.  The two runs are compared action by action: `Progress.Repeats`
says how the counters of the second stand to those of the first.
-/

def LinkOutcome.settled (outcome : LinkOutcome) : LinkOutcome :=
  { outcome with added := 0, existing := outcome.added + outcome.existing }

/-- The counters of a run that finds all edges there which the counted run added or found. -/
def LinkStats.settled (stats : LinkStats) : LinkStats :=
  { stats with edgesAdded := 0, edgesExisting := stats.edgesAdded + stats.edgesExisting }

theorem LinkStats.settled_advance (stats : LinkStats) (amount : Nat) (counter : Counter) :
    (stats.advance amount counter).settled = stats.settled.advance amount counter := by
  cases counter <;> rfl

theorem LinkStats.settled_add (left right : LinkStats) :
    (left + right).settled = left.settled + right.settled := by
  have existing : left.edgesAdded + right.edgesAdded + (left.edgesExisting + right.edgesExisting) =
      left.edgesAdded + left.edgesExisting + (right.edgesAdded + right.edgesExisting) := by omega
  change LinkStats.mk _ _ _ _ _ _ _ _ _ _ _ = LinkStats.mk _ _ _ _ _ _ _ _ _ _ _
  rw [LinkStats.mk.injEq]
  exact ⟨rfl, rfl, existing, rfl, rfl, rfl, rfl, rfl, rfl, rfl, rfl⟩

namespace FeatureGraph

variable {graph after : FeatureGraph} {edge : Edge} {outcome : LinkOutcome}

theorem putCounted_of_present (present : graph.hasEdge edge = true) :
    putCounted (graph, outcome) edge =
      (graph, { outcome with existing := outcome.existing + 1 }) := by
  simp [putCounted, putEdge_of_present present, present]

theorem putCounted_of_new (ends : graph.hasEnds edge = true)
    (absent : graph.hasEdge edge = false) :
    putCounted (graph, outcome) edge =
      ((graph.putEdge edge).1, { outcome with added := outcome.added + 1 }) := by
  simp [putCounted, putEdge_of_new ends absent]

theorem putCounted_of_loose (loose : graph.hasEnds edge = false)
    (absent : graph.hasEdge edge = false) :
    putCounted (graph, outcome) edge = (graph, outcome) := by
  simp [putCounted, putEdge_of_loose loose, absent]

/-- An edge that is put again is counted as existing if it was counted at all. -/
theorem putCounted_again {edges : List Edge}
    (enriches : after.Enriches (graph.putEdges (edge :: edges))) :
    putCounted (after, outcome.settled) edge =
      (after, (putCounted (graph, outcome) edge).2.settled) := by
  cases present : graph.hasEdge edge with
  | true =>
      have still : after.hasEdge edge = true :=
        enriches.kept edge ((hasEdge_putEdges _).mpr (Or.inl present))
      rw [putCounted_of_present present, putCounted_of_present still]
      rfl
  | false =>
      cases ends : graph.hasEnds edge with
      | true =>
          have put : after.hasEdge edge = true :=
            enriches.kept edge ((hasEdge_putEdges _).mpr (Or.inr ⟨List.mem_cons_self, ends⟩))
          have existing : outcome.added + outcome.existing + 1 =
              outcome.added + 1 + outcome.existing := by omega
          rw [putCounted_of_new ends present, putCounted_of_present put]
          simp [LinkOutcome.settled, existing]
      | false =>
          have loose : after.hasEnds edge = false := by
            rw [enriches.hasEnds, hasEnds_putEdges, ends]
          have absent : after.hasEdge edge = false := by
            rw [enriches.tied edge (by rw [hasEnds_putEdges, ends])]
            rw [Bool.eq_false_iff, ne_eq, hasEdge_putEdges]
            simp [present, ends]
          rw [putCounted_of_loose ends present, putCounted_of_loose loose absent]

theorem foldl_putCounted_again (edges : List Edge) (outcome : LinkOutcome)
    (enriches : after.Enriches (graph.putEdges edges)) :
    edges.foldl putCounted (after, outcome.settled) =
      (after, (edges.foldl putCounted (graph, outcome)).2.settled) := by
  induction edges generalizing graph outcome with
  | nil => rfl
  | cons edge rest ih =>
      have first : putCounted (graph, outcome) edge =
          ((graph.putEdge edge).1, (putCounted (graph, outcome) edge).2) :=
        Prod.ext (putCounted_graph graph outcome edge) rfl
      rw [List.foldl_cons, List.foldl_cons, putCounted_again enriches, first]
      exact ih _ enriches

theorem putProduct_again {sources dests : ExtTreeSet NodeId} {kind : EdgeKind}
    (enriches : after.Enriches (graph.putProduct sources dests kind).1) :
    after.putProduct sources dests kind =
      (after, (graph.putProduct sources dests kind).2.settled) := by
  rw [putProduct_graph] at enriches
  exact foldl_putCounted_again (productEdges sources dests kind)
    { sourceTokens := sources.size, destTokens := dests.size } enriches

end FeatureGraph

namespace Progress

/-- The second run has come as far as the first.  Its graph is the given one throughout. -/
structure Repeats (after : FeatureGraph) (second first : Progress) : Prop where
  graph : second.graph = after
  stats : second.stats = first.stats.settled

variable {after : FeatureGraph} {config : LinkConfig} {first second : Progress}

theorem record_repeats (repeated : Repeats after second first) (request : Edge)
    (graph : FeatureGraph) (outcome : LinkOutcome) :
    Repeats after (second.record config request (after, outcome.settled))
      (first.record config request (graph, outcome)) := by
  have existing : first.stats.edgesAdded + first.stats.edgesExisting +
        (outcome.added + outcome.existing) =
      first.stats.edgesAdded + outcome.added +
        (first.stats.edgesExisting + outcome.existing) := by omega
  have same : outcome.settled.isAmbiguous = outcome.isAmbiguous := rfl
  unfold record
  simp only [same]
  cases outcome.isAmbiguous with
  | true =>
      refine ⟨rfl, ?_⟩
      simp [count, report, repeated.stats, LinkStats.settled, LinkOutcome.settled, existing]
  | false =>
      refine ⟨rfl, ?_⟩
      simp [count, repeated.stats, LinkStats.settled, LinkOutcome.settled, existing]

theorem perform_repeats (repeated : Repeats after second first) (action : Action)
    (enriches : after.Enriches (first.perform config action).graph) :
    Repeats after (second.perform config action) (first.perform config action) := by
  cases action with
  | tally counter amount =>
      refine ⟨repeated.graph, ?_⟩
      change second.stats.advance amount counter = (first.stats.advance amount counter).settled
      rw [repeated.stats, LinkStats.settled_advance]
  | notify event => exact ⟨repeated.graph, repeated.stats⟩
  | link request sources dests =>
      have enriched : after.Enriches (first.graph.putProduct sources dests request.kind).1 := by
        change after.Enriches (first.record config request _).graph at enriches
        rw [record_graph] at enriches
        exact enriches
      change Repeats after (second.record config request
        (second.graph.putProduct sources dests request.kind)) _
      rw [repeated.graph, putProduct_again enriched]
      exact record_repeats repeated request _ _

theorem performAll_repeats {actions : List Action} (repeated : Repeats after second first)
    (semantic : ∀ edge ∈ requested actions, edge.kind.isSkeleton = false)
    (enriches : after.Enriches (first.performAll config actions).graph) :
    Repeats after (second.performAll config actions) (first.performAll config actions) := by
  induction actions generalizing first second with
  | nil => exact repeated
  | cons action rest ih =>
      have later : ∀ edge ∈ requested rest, edge.kind.isSkeleton = false := by
        intro edge member
        exact semantic edge (List.mem_append_right _ member)
      have performed := perform_repeats repeated action
        (enriches.trans (performAll_enriches later))
      exact ih performed later enriches

end Progress

theorem Pass.Performs.repeats {pass : Pass} {config : LinkConfig} {graph after : FeatureGraph}
    {run : FeatureGraph → Progress} {actions : List Action}
    (performs : pass.Performs config graph run actions)
    (enriches : after.Enriches (run graph).graph) :
    Progress.Repeats after (run after) (run graph) := by
  have whole : after.Enriches graph := enriches.trans performs.enriches
  have graphs : ∀ after, after.Enriches graph →
      (run after).graph = ((Progress.start after).performAll config actions).graph := by
    intro after whole
    rw [performs.graph_eq whole, Progress.performAll_graph]
    rfl
  rw [graphs graph (.refl graph)] at enriches
  have start : Progress.Repeats after (.start after) (.start graph) := ⟨rfl, rfl⟩
  obtain ⟨same, stats⟩ := Progress.performAll_repeats start performs.semantic enriches
  refine ⟨(graphs after whole).trans same, ?_⟩
  rw [performs.stats_eq whole, performs.stats_eq (.refl graph), stats]

section

variable {tree : SyntaxTree} {analysis : Analysis} {config : LinkConfig}
  {graph after : FeatureGraph}

theorem linkDataflow_repeats
    (enriches : after.Enriches (linkDataflow tree analysis config graph).graph) :
    Progress.Repeats after (linkDataflow tree analysis config after)
      (linkDataflow tree analysis config graph) := by
  obtain ⟨_, performs⟩ := linkDataflow_performs tree analysis config graph
  exact performs.repeats enriches

theorem linkReturns_repeats (enriches : after.Enriches (linkReturns tree config graph).graph) :
    Progress.Repeats after (linkReturns tree config after) (linkReturns tree config graph) := by
  obtain ⟨_, performs⟩ := linkReturns_performs tree config graph
  exact performs.repeats enriches

end

namespace Progress

variable {after : FeatureGraph} {config : LinkConfig} {first second before : Progress} {pass : Pass}
  {run : FeatureGraph → Progress}

theorem runPass_enriches (enriches : ∀ graph, (run graph).graph.Enriches graph) :
    (before.runPass config pass run).graph.Enriches before.graph := by
  unfold runPass
  split
  · exact enriches before.graph
  · exact .refl before.graph

theorem runPass_repeats (run : FeatureGraph → Progress) (repeated : Repeats after second first)
    (repeats : ∀ graph, after.Enriches (run graph).graph → Repeats after (run after) (run graph))
    (enriches : after.Enriches (first.runPass config pass run).graph) :
    Repeats after (second.runPass config pass run) (first.runPass config pass run) := by
  unfold runPass at enriches ⊢
  cases runs : config.runs pass with
  | false => simpa [runs] using repeated
  | true =>
      rw [if_pos runs] at enriches
      obtain ⟨graphs, stats⟩ := repeats first.graph enriches
      rw [if_pos rfl, if_pos rfl, repeated.graph]
      refine ⟨graphs, ?_⟩
      change second.stats + (run after).stats = (first.stats + (run first.graph).stats).settled
      rw [repeated.stats, stats, LinkStats.settled_add]

end Progress

theorem linkUnit_repeats {tree : SyntaxTree} {analysis : Analysis} {config : LinkConfig}
    {graph after : FeatureGraph}
    (enriches : after.Enriches (linkUnit tree analysis config graph).graph) :
    Progress.Repeats after (linkUnit tree analysis config after)
      (linkUnit tree analysis config graph) := by
  have start : Progress.Repeats after (.start after) (.start graph) := ⟨rfl, rfl⟩
  have dataflow := Progress.runPass_repeats (linkDataflow tree analysis config) start
    (fun _ => linkDataflow_repeats)
    (enriches.trans (Progress.runPass_enriches (linkReturns_enriches tree config)))
  exact Progress.runPass_repeats (linkReturns tree config) dataflow
    (fun _ => linkReturns_repeats) enriches

/-- Linking the graph that linking produced changes nothing, whichever passes run.  All counters
come out as before, but for the edges: those that were added the first time are now there. -/
theorem linkUnit_again (tree : SyntaxTree) (analysis : Analysis) (config : LinkConfig)
    (graph : FeatureGraph) :
    let first := linkUnit tree analysis config graph
    let second := linkUnit tree analysis config first.graph
    second.graph = first.graph ∧
      second.stats =
        { first.stats with
          edgesAdded := 0
          edgesExisting := first.stats.edgesAdded + first.stats.edgesExisting } := by
  intro first second
  have start : Progress.Repeats first.graph (.start first.graph) (.start graph) := ⟨rfl, rfl⟩
  have returns : first.graph.Enriches
      ((Progress.start graph).runPass config .dataflow (linkDataflow tree analysis config)).graph :=
    Progress.runPass_enriches (linkReturns_enriches tree config)
  have dataflow := Progress.runPass_repeats (linkDataflow tree analysis config) start
    (fun _ => linkDataflow_repeats) returns
  have whole := Progress.runPass_repeats (linkReturns tree config) dataflow
    (fun _ => linkReturns_repeats) (.refl first.graph)
  exact ⟨whole.graph, whole.stats⟩

end FlowLink
