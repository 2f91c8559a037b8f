import FlowLink.Link.Dataflow
import FlowLink.Link.Returns

/-! # Linking a unit -/

namespace FlowLink

/-- Runs a pass on top of what earlier passes did, if the configuration asks for it. -/
def Progress.runPass (config : LinkConfig) (pass : Pass) (run : FeatureGraph → Progress)
    (before : Progress) : Progress :=
  if config.runs pass then
    let after := run before.graph
    ⟨after.graph, before.stats + after.stats, before.events ++ after.events⟩
  else
    before

/-- Runs the passes of the configuration over a unit, dataflow first. -/
def linkUnit (tree : SyntaxTree) (analysis : Analysis) (config : LinkConfig)
    (graph : FeatureGraph) : Progress :=
  (Progress.start graph)
    |>.runPass config .dataflow (linkDataflow tree analysis config)
    |>.runPass config .returnsTo (linkReturns tree config)

end FlowLink
