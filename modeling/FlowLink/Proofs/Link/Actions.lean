import FlowLink.Link.Tokens
import FlowLink.Proofs.Graph.Edges

namespace FlowLink

open Std FeatureGraph

/-! # What a pass does

A pass looks things up in the graph that it is changing.  Its decisions can nevertheless be drawn
up beforehand, from the graph that it starts on: as a row of actions, which say what to count, what
to report and which tokens to link.  The passes are shown to perform such rows, and what they do to
a graph and to the counters is then a matter of rows of actions alone.
-/

/-- The counters that a pass advances by itself.  Those of edges and of ambiguous requests follow
from the requests. -/
inductive Counter where
  | sitesVisited
  | skippedOutsideMethod
  | skippedUnanalyzed
  | skippedNoFact
  | missingFeatureNode
  | methodsLinked
  | returnsSeen
  | bareReturns
deriving DecidableEq

def LinkStats.advance (stats : LinkStats) (amount : Nat) : Counter → LinkStats
  | .sitesVisited => { stats with sitesVisited := stats.sitesVisited + amount }
  | .skippedOutsideMethod =>
    { stats with skippedOutsideMethod := stats.skippedOutsideMethod + amount }
  | .skippedUnanalyzed => { stats with skippedUnanalyzed := stats.skippedUnanalyzed + amount }
  | .skippedNoFact => { stats with skippedNoFact := stats.skippedNoFact + amount }
  | .missingFeatureNode => { stats with missingFeatureNode := stats.missingFeatureNode + amount }
  | .methodsLinked => { stats with methodsLinked := stats.methodsLinked + amount }
  | .returnsSeen => { stats with returnsSeen := stats.returnsSeen + amount }
  | .bareReturns => { stats with bareReturns := stats.bareReturns + amount }

inductive Action where
  | tally (counter : Counter) (amount : Nat)
  | notify (event : Event)
  /-- A request together with the tokens that it resolves to. -/
  | link (request : Edge) (sources dests : ExtTreeSet NodeId)

def Action.edges : Action → List Edge
  | link request sources dests => productEdges sources dests request.kind
  | _ => []

def requested (actions : List Action) : List Edge := actions.flatMap Action.edges

@[simp] theorem requested_nil : requested [] = [] := rfl

@[simp] theorem requested_cons (action : Action) (actions : List Action) :
    requested (action :: actions) = action.edges ++ requested actions := rfl

theorem mem_requested_flatMap {α : Type} {items : List α} {actions : α → List Action}
    {edge : Edge} :
    edge ∈ requested (items.flatMap actions) ↔ ∃ item ∈ items, edge ∈ requested (actions item) := by
  simp only [requested, List.flatMap_assoc, List.mem_flatMap]

theorem mem_productEdges {sources dests : ExtTreeSet NodeId} {kind : EdgeKind} {edge : Edge} :
    edge ∈ productEdges sources dests kind ↔
      edge.source ∈ sources ∧ edge.target ∈ dests ∧ edge.kind = kind := by
  simp only [productEdges, List.mem_flatMap, List.mem_map, ExtTreeSet.mem_toList]
  constructor
  · intro pair
    obtain ⟨source, isSource, target, isTarget, rfl⟩ := pair
    exact ⟨isSource, isTarget, rfl⟩
  · intro ends
    obtain ⟨isSource, isTarget, rfl⟩ := ends
    exact ⟨_, isSource, _, isTarget, rfl⟩

namespace FeatureGraph

theorem putCounted_graph (graph : FeatureGraph) (outcome : LinkOutcome) (edge : Edge) :
    (putCounted (graph, outcome) edge).1 = (graph.putEdge edge).1 := by
  simp only [putCounted]
  split <;> simp_all

theorem foldl_putCounted_graph (edges : List Edge) (graph : FeatureGraph) (outcome : LinkOutcome) :
    (edges.foldl putCounted (graph, outcome)).1 = graph.putEdges edges := by
  induction edges generalizing graph outcome with
  | nil => rfl
  | cons edge rest ih =>
      rw [List.foldl_cons, ← Prod.eta (putCounted (graph, outcome) edge), ih, putCounted_graph]
      rfl

theorem putProduct_graph (graph : FeatureGraph) (sources dests : ExtTreeSet NodeId)
    (kind : EdgeKind) :
    (graph.putProduct sources dests kind).1 = graph.putEdges (productEdges sources dests kind) :=
  foldl_putCounted_graph _ _ _

end FeatureGraph

namespace Progress

def perform (config : LinkConfig) (progress : Progress) : Action → Progress
  | .tally counter amount => progress.count fun stats => stats.advance amount counter
  | .notify event => progress.report event
  | .link request sources dests =>
    progress.record config request (progress.graph.putProduct sources dests request.kind)

def performAll (config : LinkConfig) (progress : Progress) (actions : List Action) : Progress :=
  actions.foldl (perform config) progress

variable {config : LinkConfig} {progress : Progress}

theorem performAll_append (first second : List Action) :
    progress.performAll config (first ++ second) =
      (progress.performAll config first).performAll config second := List.foldl_append

@[simp] theorem record_graph (request : Edge) (result : FeatureGraph × LinkOutcome) :
    (progress.record config request result).graph = result.1 := by
  simp only [record]
  split <;> rfl

theorem perform_graph (config : LinkConfig) (progress : Progress) (action : Action) :
    (progress.perform config action).graph = progress.graph.putEdges action.edges := by
  cases action with
  | tally counter amount => rfl
  | notify event => rfl
  | link request sources dests => exact (record_graph _ _).trans (putProduct_graph _ _ _ _)

theorem performAll_graph (config : LinkConfig) (progress : Progress) (actions : List Action) :
    (progress.performAll config actions).graph = progress.graph.putEdges (requested actions) := by
  induction actions generalizing progress with
  | nil => rfl
  | cons action rest ih =>
      rw [requested_cons, putEdges_append, ← perform_graph config]
      exact ih (progress.perform config action)

theorem performAll_enriches {actions : List Action}
    (semantic : ∀ edge ∈ requested actions, edge.kind.isSkeleton = false) :
    (progress.performAll config actions).graph.Enriches progress.graph := by
  rw [performAll_graph]
  exact putEdges_enriches semantic

/-- Steps that perform actions drawn up from a graph, as long as this graph was only enriched,
perform all of them one after the other. -/
theorem foldl_eq_performAll {α : Type} {graph : FeatureGraph} {step : Progress → α → Progress}
    {actions : α → List Action} (items : List α)
    (performs : ∀ progress item, progress.graph.Enriches graph →
      step progress item = progress.performAll config (actions item))
    (semantic : ∀ item, ∀ edge ∈ requested (actions item), edge.kind.isSkeleton = false)
    (enriches : progress.graph.Enriches graph) :
    items.foldl step progress = progress.performAll config (items.flatMap actions) := by
  induction items generalizing progress with
  | nil => rfl
  | cons item rest ih =>
      rw [List.foldl_cons, List.flatMap_cons, performAll_append, performs progress item enriches]
      exact ih ((performAll_enriches (semantic item)).trans enriches)

end Progress

end FlowLink
