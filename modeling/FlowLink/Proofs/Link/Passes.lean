import FlowLink.Link.Unit
import FlowLink.Proofs.Link.DataflowEdges
import FlowLink.Proofs.Link.ReturnEdges

namespace FlowLink

open FeatureGraph

/-! # Passes are rows of actions

A pass draws up its actions from the graph that it starts on, and would draw up the same ones from
any graph that this one was enriched to.  All that the passes have in common follows from this, in
terms of the kinds of edges they ask for.
-/

def Pass.adds : Pass → EdgeKind → Bool
  | .dataflow, .lastWrite | .dataflow, .lastUse | .returnsTo, .returnsTo => true
  | _, _ => false

theorem Pass.adds_semantic (pass : Pass) (kind : EdgeKind) (adds : pass.adds kind = true) :
    kind.isSkeleton = false := by
  revert adds
  cases pass <;> cases kind <;> decide

/-- On every graph that this one was enriched to, the run performs these actions, which ask for
edges of the pass only, and ends with a report. -/
structure Pass.Performs (pass : Pass) (config : LinkConfig) (graph : FeatureGraph)
    (run : FeatureGraph → Progress) (actions : List Action) : Prop where
  adds : ∀ edge ∈ requested actions, pass.adds edge.kind = true
  runs : ∃ finish : LinkStats → Event, ∀ after, after.Enriches graph →
    run after = ((Progress.start after).performAll config actions).report
      (finish ((Progress.start after).performAll config actions).stats)

section

variable {tree : SyntaxTree} {analysis : Analysis} {root : TreeId} {graph : FeatureGraph}

theorem dataflowActions_kinds :
    ∀ edge ∈ requested (dataflowActions tree analysis root graph),
      Pass.dataflow.adds edge.kind = true := by
  intro edge member
  obtain ⟨_, _, asked⟩ := mem_requested_flatMap.mp member
  obtain ⟨_, _, _, _, _, kind, asked⟩ := mem_siteActions.mp asked
  obtain ⟨_, _, _, _, _, _, _, _, _, _, recorded⟩ := mem_factActions.mp asked
  rw [recorded]
  cases kind <;> rfl

theorem returnActions_kinds {mode : ReturnMode} :
    ∀ edge ∈ requested (returnActions tree mode root graph),
      Pass.returnsTo.adds edge.kind = true := by
  intro edge member
  obtain ⟨_, _, asked⟩ := mem_requested_flatMap.mp member
  obtain ⟨_, recorded, _⟩ := mem_methodActions.mp asked
  rw [recorded]
  rfl

theorem linkDataflow_performs_of_root {config : LinkConfig} (rooted : tree.root = some root) :
    Pass.dataflow.Performs config graph (linkDataflow tree analysis config)
      (dataflowActions tree analysis root graph) where
  adds := dataflowActions_kinds
  runs := ⟨fun stats => .dataflowFinished stats.edgesAdded stats.sitesVisited,
    fun _ enriches => linkDataflow_of_root rooted enriches⟩

theorem linkDataflow_performs (tree : SyntaxTree) (analysis : Analysis) (config : LinkConfig)
    (graph : FeatureGraph) :
    ∃ actions, Pass.dataflow.Performs config graph (linkDataflow tree analysis config) actions := by
  cases rooted : tree.root with
  | none =>
      refine ⟨[], nofun, fun _ => .unitWithoutRoot .dataflow, ?_⟩
      exact fun _ _ => linkDataflow_of_rootless rooted
  | some root => exact ⟨_, linkDataflow_performs_of_root rooted⟩

theorem linkReturns_performs_of_root {config : LinkConfig} (rooted : tree.root = some root) :
    Pass.returnsTo.Performs config graph (linkReturns tree config)
      (returnActions tree config.returnMode root graph) where
  adds := returnActions_kinds
  runs := ⟨fun stats => .returnsFinished stats.edgesAdded stats.methodsLinked,
    fun _ enriches => linkReturns_of_root rooted enriches⟩

theorem linkReturns_performs (tree : SyntaxTree) (config : LinkConfig) (graph : FeatureGraph) :
    ∃ actions, Pass.returnsTo.Performs config graph (linkReturns tree config) actions := by
  cases rooted : tree.root with
  | none =>
      refine ⟨[], nofun, fun _ => .unitWithoutRoot .returnsTo, ?_⟩
      exact fun _ _ => linkReturns_of_rootless rooted
  | some root => exact ⟨_, linkReturns_performs_of_root rooted⟩

end

namespace Pass.Performs

variable {pass : Pass} {config : LinkConfig} {graph after : FeatureGraph}
  {run : FeatureGraph → Progress} {actions : List Action}

theorem semantic (performs : pass.Performs config graph run actions) :
    ∀ edge ∈ requested actions, edge.kind.isSkeleton = false :=
  fun edge asked => pass.adds_semantic edge.kind (performs.adds edge asked)

theorem graph_eq (performs : pass.Performs config graph run actions)
    (enriches : after.Enriches graph) : (run after).graph = after.putEdges (requested actions) := by
  obtain ⟨_, _, runs⟩ := performs
  rw [runs after enriches]
  exact Progress.performAll_graph config (.start after) actions

theorem stats_eq (performs : pass.Performs config graph run actions)
    (enriches : after.Enriches graph) :
    (run after).stats = ((Progress.start after).performAll config actions).stats := by
  obtain ⟨_, _, runs⟩ := performs
  rw [runs after enriches]
  rfl

theorem enriches (performs : pass.Performs config graph run actions) :
    (run graph).graph.Enriches graph := by
  rw [performs.graph_eq (.refl graph)]
  exact putEdges_enriches performs.semantic

end Pass.Performs

section

variable (tree : SyntaxTree) (analysis : Analysis) (config : LinkConfig) (graph : FeatureGraph)

theorem linkDataflow_enriches : (linkDataflow tree analysis config graph).graph.Enriches graph := by
  obtain ⟨_, performs⟩ := linkDataflow_performs tree analysis config graph
  exact performs.enriches

theorem linkReturns_enriches : (linkReturns tree config graph).graph.Enriches graph := by
  obtain ⟨_, performs⟩ := linkReturns_performs tree config graph
  exact performs.enriches

end

end FlowLink
