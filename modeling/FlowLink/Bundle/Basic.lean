import FlowLink.Facts
import FlowLink.Graph.Basic
import FlowLink.Link.Unit

/-! # Unit bundles

A bundle is all that is known about one compilation unit: its tree, its graph with the skeleton,
and the facts about its methods.
-/

namespace FlowLink

structure Bundle where
  tree : SyntaxTree
  graph : FeatureGraph
  analysis : Analysis

namespace Bundle

inductive Defect where
  | tree (defect : SyntaxTree.Defect)
  | graph (defect : FeatureGraph.Defect)
  | rootless
deriving DecidableEq

def Defect.message : Defect → String
  | tree defect => defect.message
  | graph defect => defect.message
  | rootless => "tree has no compilation unit root"

/-- The first defect: of the tree, then of the graph, then a missing root. -/
def defect? (bundle : Bundle) : Option Defect :=
  (bundle.tree.defect?.map .tree)
    |>.or (bundle.graph.defect?.map .graph)
    |>.or (if bundle.tree.root.isNone then some .rootless else none)

/-- How many ids outside the tree the analysis mentions. -/
def unknownElements (bundle : Bundle) : Nat :=
  bundle.analysis.mentioned.toList.countP fun id => (bundle.tree.get? id).isNone

def warnings (bundle : Bundle) : List Event :=
  if bundle.unknownElements = 0 then [] else [.unknownElements bundle.unknownElements]

def validate (bundle : Bundle) : Except Defect (List Event) :=
  match bundle.defect? with
  | some defect => .error defect
  | none => .ok bundle.warnings

def link (bundle : Bundle) (config : LinkConfig) : Bundle × LinkStats × List Event :=
  let progress := linkUnit bundle.tree bundle.analysis config bundle.graph
  ({ bundle with graph := progress.graph }, progress.stats, progress.events.toList)

end Bundle

end FlowLink
