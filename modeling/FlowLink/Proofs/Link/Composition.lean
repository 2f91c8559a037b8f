import FlowLink.Proofs.Link.Counters
import FlowLink.Proofs.Link.Independence

namespace FlowLink

open FeatureGraph

/-! # Both passes together

The rows of actions of both passes can be drawn up from the graph that a unit comes with.  So the
edges of a linked unit, and its counters if both passes run, are said in terms of that graph alone.
-/

section

variable {pass : Pass} {config : LinkConfig} {graph : FeatureGraph}
  {run : FeatureGraph → Progress} {actions : List Action} {before : Progress} {edge : Edge}

theorem Pass.Performs.runPass_hasEdge_iff (performs : pass.Performs config graph run actions)
    (enriches : before.graph.Enriches graph) :
    (before.runPass config pass run).graph.hasEdge edge = true ↔
      before.graph.hasEdge edge = true ∨
        config.runs pass = true ∧ edge ∈ requested actions ∧ graph.hasEnds edge = true := by
  unfold Progress.runPass
  cases config.runs pass with
  | false => simp
  | true => simp only [if_true, performs.graph_eq enriches, hasEdge_putEdges, enriches.hasEnds,
      true_and]

end

section

variable {tree : SyntaxTree} {analysis : Analysis} {config : LinkConfig} {graph : FeatureGraph}
  {root : TreeId} {edge : Edge}

theorem linkUnit_hasEdge_iff (rooted : tree.root = some root) :
    (linkUnit tree analysis config graph).graph.hasEdge edge = true ↔
      graph.hasEdge edge = true ∨ graph.hasEnds edge = true ∧
        (config.runs .dataflow = true ∧ edge ∈ requested (dataflowActions tree analysis root graph) ∨
          config.runs .returnsTo = true ∧
            edge ∈ requested (returnActions tree config.returnMode root graph)) := by
  have dataflow : Pass.dataflow.Performs config graph (linkDataflow tree analysis config)
      (dataflowActions tree analysis root graph) := linkDataflow_performs_of_root rooted
  have returns : Pass.returnsTo.Performs config graph (linkReturns tree config)
      (returnActions tree config.returnMode root graph) := linkReturns_performs_of_root rooted
  have enriches : ((Progress.start graph).runPass config .dataflow
      (linkDataflow tree analysis config)).graph.Enriches graph :=
    Progress.runPass_enriches (linkDataflow_enriches tree analysis config)
  have start : (Progress.start graph).graph.Enriches graph := .refl graph
  rw [linkUnit, returns.runPass_hasEdge_iff enriches, dataflow.runPass_hasEdge_iff start]
  change (graph.hasEdge edge = true ∨ _) ∨ _ ↔ _
  tauto

/-- Each pass counts what it would count on its own. -/
theorem linkUnit_stats (flows : config.runs .dataflow = true)
    (returns : config.runs .returnsTo = true) :
    (linkUnit tree analysis config graph).stats =
      (linkDataflow tree analysis config graph).stats + (linkReturns tree config graph).stats := by
  obtain ⟨_, performs⟩ := linkReturns_performs tree config graph
  obtain ⟨_, follows⟩ := linkDataflow_performs tree analysis config graph
  have alone := (performs.undisturbed follows (by decide)).stats
  rw [linkUnit, Progress.runPass, Progress.runPass, if_pos flows, if_pos returns]
  change (0 : LinkStats) + _ + (linkReturns tree config
    (linkDataflow tree analysis config graph).graph).stats = _
  rw [zero_add, alone]
  rfl

end

end FlowLink
