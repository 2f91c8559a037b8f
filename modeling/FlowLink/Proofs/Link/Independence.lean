import FlowLink.Proofs.Link.Growth

namespace FlowLink

open Std FeatureGraph

/-! # The passes do not see each other

A pass asks a graph for tokens and associations, which linking never changes, and whether an edge
that it puts is there already, which only edges of its own kinds can answer.  So it counts and
reports the same on two graphs that agree in these.  The edges of both passes are put into the graph
whichever pass comes first, and the order in which edges are put does not matter.
-/

namespace FeatureGraph

/-- The graphs have the same nodes, and the same edges of some kinds. -/
structure Agrees (kinds : EdgeKind → Bool) (left right : FeatureGraph) : Prop where
  nodes : left.nodes = right.nodes
  edges : ∀ edge, kinds edge.kind = true → left.hasEdge edge = right.hasEdge edge

variable {kinds : EdgeKind → Bool} {left right : FeatureGraph} {edge : Edge}

theorem Agrees.hasEnds (agrees : left.Agrees kinds right) (edge : Edge) :
    left.hasEnds edge = right.hasEnds edge := by
  rw [FeatureGraph.hasEnds, FeatureGraph.hasEnds, hasNode, hasNode, hasNode, hasNode, nodeCount,
    nodeCount, agrees.nodes]

theorem Agrees.putEdge (agrees : left.Agrees kinds right) (edge : Edge) :
    (left.putEdge edge).1.Agrees kinds (right.putEdge edge).1 where
  nodes := by rw [putEdge_nodes, putEdge_nodes, agrees.nodes]
  edges other asked := by
    rw [Bool.eq_iff_iff, hasEdge_putEdge, hasEdge_putEdge, agrees.edges other asked,
      agrees.hasEnds edge]

theorem Agrees.putEdges (agrees : left.Agrees kinds right) (edges : List Edge) :
    (left.putEdges edges).Agrees kinds (right.putEdges edges) := by
  induction edges generalizing left right with
  | nil => exact agrees
  | cons edge rest ih => exact ih (agrees.putEdge edge)

theorem Agrees.putCounted_outcome (agrees : left.Agrees kinds right)
    (asked : kinds edge.kind = true) (outcome : LinkOutcome) :
    (putCounted (left, outcome) edge).2 = (putCounted (right, outcome) edge).2 := by
  have same : left.hasEdge edge = right.hasEdge edge := agrees.edges edge asked
  cases present : right.hasEdge edge with
  | true => rw [putCounted_of_present present, putCounted_of_present (same.trans present)]
  | false =>
      have absent : left.hasEdge edge = false := same.trans present
      cases ends : right.hasEnds edge with
      | true =>
          rw [putCounted_of_new ends present,
            putCounted_of_new ((agrees.hasEnds edge).trans ends) absent]
      | false =>
          rw [putCounted_of_loose ends present,
            putCounted_of_loose ((agrees.hasEnds edge).trans ends) absent]

theorem Agrees.foldl_putCounted_outcome {edges : List Edge} (agrees : left.Agrees kinds right)
    (asked : ∀ edge ∈ edges, kinds edge.kind = true) (outcome : LinkOutcome) :
    (edges.foldl putCounted (left, outcome)).2 = (edges.foldl putCounted (right, outcome)).2 := by
  -- Both graphs grow by the same edge at every step, so they go on agreeing.
  induction edges generalizing left right outcome with
  | nil => rfl
  | cons edge rest ih =>
      have split : ∀ graph : FeatureGraph, putCounted (graph, outcome) edge =
          ((graph.putEdge edge).1, (putCounted (graph, outcome) edge).2) := by
        intro graph
        exact Prod.ext (putCounted_graph graph outcome edge) rfl
      have first := agrees.putCounted_outcome (asked edge List.mem_cons_self) outcome
      rw [List.foldl_cons, List.foldl_cons, split left, split right, first]
      exact ih (agrees.putEdge edge)
        (fun other member => asked other (List.mem_cons_of_mem _ member)) _

end FeatureGraph

namespace Progress

/-- Two runs have come equally far, on graphs that agree in some kinds of edges. -/
structure Parallels (kinds : EdgeKind → Bool) (left right : Progress) : Prop where
  graph : left.graph.Agrees kinds right.graph
  stats : left.stats = right.stats
  events : left.events = right.events

variable {kinds : EdgeKind → Bool} {config : LinkConfig} {left right : Progress}

theorem Parallels.record (parallel : Parallels kinds left right) (request : Edge)
    {first second : FeatureGraph} (agrees : first.Agrees kinds second) (outcome : LinkOutcome) :
    Parallels kinds (left.record config request (first, outcome))
      (right.record config request (second, outcome)) := by
  obtain ⟨_, stats, events⟩ := left
  obtain ⟨_, _, _⟩ := right
  obtain ⟨_, rfl, rfl⟩ := parallel
  simp only [Progress.record]
  split
  · exact ⟨agrees, rfl, rfl⟩
  · exact ⟨agrees, rfl, rfl⟩

theorem Parallels.perform (parallel : Parallels kinds left right) {action : Action}
    (asked : ∀ edge ∈ action.edges, kinds edge.kind = true) :
    Parallels kinds (left.perform config action) (right.perform config action) := by
  cases action with
  | tally counter amount =>
      exact ⟨parallel.graph, congrArg (LinkStats.advance · amount counter) parallel.stats,
        parallel.events⟩
  | notify event =>
      exact ⟨parallel.graph, parallel.stats, congrArg (Array.push · event) parallel.events⟩
  | link request sources dests =>
      have outcomes := parallel.graph.foldl_putCounted_outcome asked
        { sourceTokens := sources.size, destTokens := dests.size }
      have split : ∀ graph : FeatureGraph, graph.putProduct sources dests request.kind =
          (graph.putEdges (productEdges sources dests request.kind),
            (graph.putProduct sources dests request.kind).2) := by
        intro graph
        exact Prod.ext (putProduct_graph graph sources dests request.kind) rfl
      change Parallels kinds
        (left.record config request (left.graph.putProduct sources dests request.kind))
        (right.record config request (right.graph.putProduct sources dests request.kind))
      rw [split left.graph, split right.graph,
        show (left.graph.putProduct sources dests request.kind).2 =
          (right.graph.putProduct sources dests request.kind).2 from outcomes]
      exact parallel.record request (parallel.graph.putEdges _) _

theorem Parallels.performAll {actions : List Action} (parallel : Parallels kinds left right)
    (asked : ∀ edge ∈ requested actions, kinds edge.kind = true) :
    Parallels kinds (left.performAll config actions) (right.performAll config actions) := by
  induction actions generalizing left right with
  | nil => exact parallel
  | cons action rest ih =>
      exact ih (parallel.perform fun edge member => asked edge (List.mem_append_left _ member))
        fun edge member => asked edge (List.mem_append_right _ member)

end Progress

/-- Edges of one pass leave those of another as they were. -/
theorem FeatureGraph.putEdges_agrees {graph : FeatureGraph} {edges : List Edge} {pass other : Pass}
    (apart : pass ≠ other) (added : ∀ edge ∈ edges, other.adds edge.kind = true) :
    (graph.putEdges edges).Agrees pass.adds graph where
  nodes := putEdges_nodes edges
  edges edge asked := by
    rw [Bool.eq_iff_iff, hasEdge_putEdges, or_iff_left]
    intro new
    have kinds := added edge new.1
    revert asked kinds
    cases pass <;> cases other <;> cases edge.kind <;> simp_all [Pass.adds]

namespace Pass.Performs

variable {pass other : Pass} {config : LinkConfig} {graph after : FeatureGraph}
  {run next : FeatureGraph → Progress} {actions later : List Action}

theorem parallels (performs : pass.Performs config graph run actions)
    (enriches : after.Enriches graph) (agrees : after.Agrees pass.adds graph) :
    Progress.Parallels pass.adds (run after) (run graph) := by
  obtain ⟨asked, _, runs⟩ := performs
  have start : Progress.Parallels pass.adds (.start after) (.start graph) := ⟨agrees, rfl, rfl⟩
  obtain ⟨graphs, stats, events⟩ := start.performAll asked
  rw [runs after enriches, runs graph (.refl graph)]
  exact ⟨graphs, stats, by simp only [Progress.report, stats, events]⟩

/-- What a pass counts and reports is the same before and after another pass. -/
theorem undisturbed (performs : pass.Performs config graph run actions)
    (follows : other.Performs config graph next later) (apart : pass ≠ other) :
    Progress.Parallels pass.adds (run (next graph).graph) (run graph) := by
  apply performs.parallels follows.enriches
  rw [follows.graph_eq (.refl graph)]
  exact putEdges_agrees apart follows.adds

/-- Two passes together put the edges that each of them would put on its own. -/
theorem graphs_commute (performs : pass.Performs config graph run actions)
    (follows : other.Performs config graph next later) :
    (next (run graph).graph).graph = (run (next graph).graph).graph := by
  rw [performs.graph_eq follows.enriches, follows.graph_eq performs.enriches,
    performs.graph_eq (.refl graph), follows.graph_eq (.refl graph), ← putEdges_append,
    ← putEdges_append]
  apply putEdges_congr
  intro edge
  rw [List.mem_append, List.mem_append, or_comm]

end Pass.Performs

section

variable {tree : SyntaxTree} {analysis : Analysis} {config : LinkConfig} {graph : FeatureGraph}

theorem linkUnit_passes_congr {passes others : List Pass}
    (same : ∀ pass, pass ∈ passes ↔ pass ∈ others) :
    linkUnit tree analysis { config with passes } graph =
      linkUnit tree analysis { config with passes := others } graph := by
  have runs : ∀ pass, { config with passes }.runs pass =
      { config with passes := others }.runs pass := by
    intro pass
    rw [LinkConfig.runs, LinkConfig.runs, Bool.eq_iff_iff, List.contains_iff_mem,
      List.contains_iff_mem]
    exact same pass
  unfold linkUnit Progress.runPass
  rw [runs .dataflow, runs .returnsTo]
  rfl

end

/-- The passes do not see each other.  They may run in either order: the graph comes out the same,
and each pass counts and reports what it does on its own.  So nothing depends on the order and the
repetitions in which a configuration names its passes. -/
theorem passes_independent (tree : SyntaxTree) (analysis : Analysis) (config : LinkConfig)
    (graph : FeatureGraph) :
    let dataflow := linkDataflow tree analysis config graph
    let returns := linkReturns tree config graph
    let returnsSecond := linkReturns tree config dataflow.graph
    let dataflowSecond := linkDataflow tree analysis config returns.graph
    returnsSecond.graph = dataflowSecond.graph ∧
      (dataflowSecond.stats = dataflow.stats ∧ dataflowSecond.events = dataflow.events) ∧
      (returnsSecond.stats = returns.stats ∧ returnsSecond.events = returns.events) ∧
      ∀ passes others : List Pass, (∀ pass, pass ∈ passes ↔ pass ∈ others) →
        linkUnit tree analysis { config with passes } graph =
          linkUnit tree analysis { config with passes := others } graph := by
  intro dataflow returns returnsSecond dataflowSecond
  obtain ⟨_, performs⟩ := linkDataflow_performs tree analysis config graph
  obtain ⟨_, follows⟩ := linkReturns_performs tree config graph
  have dataflowAgain : Progress.Parallels Pass.dataflow.adds dataflowSecond dataflow :=
    performs.undisturbed follows (by decide)
  have returnsAgain : Progress.Parallels Pass.returnsTo.adds returnsSecond returns :=
    follows.undisturbed performs (by decide)
  refine ⟨performs.graphs_commute follows, ⟨dataflowAgain.stats, dataflowAgain.events⟩,
    ⟨returnsAgain.stats, returnsAgain.events⟩, ?_⟩
  intro passes others same
  exact linkUnit_passes_congr same

/-- On a unit to whose graph both passes add an edge. -/
theorem echo_passes_independent :
    let reordered : List Pass := [.returnsTo, .dataflow, .returnsTo]
    let linked := linkUnit Bundle.echo.tree Bundle.echo.analysis {} Bundle.echo.graph
    (∀ pass, pass ∈ [Pass.dataflow, Pass.returnsTo] ↔ pass ∈ reordered) ∧
      linkUnit Bundle.echo.tree Bundle.echo.analysis { passes := reordered } Bundle.echo.graph =
        linked ∧
      linked.graph.hasEdge ⟨⟨7⟩, ⟨7⟩, .lastWrite⟩ = true ∧
      linked.graph.hasEdge ⟨⟨7⟩, ⟨2⟩, .returnsTo⟩ = true := by
  intro reordered linked
  have same : ∀ pass, pass ∈ [Pass.dataflow, Pass.returnsTo] ↔ pass ∈ reordered := by
    intro pass
    cases pass <;> decide
  obtain ⟨_, _, _, congr⟩ :=
    passes_independent Bundle.echo.tree Bundle.echo.analysis {} Bundle.echo.graph
  exact ⟨same, (congr _ _ same).symm, by cbv, by cbv⟩

end FlowLink
