import FlowLink.Link.Event
import FlowLink.Link.Stats

/-! # Links between tokens

A request to link two nodes links the tokens that represent them.  `FeatureGraph.linkTokens` and
`FeatureGraph.linkTokensToNode` serve one request; `Progress` is the state of a pass, which serves
many and counts and reports what they did.
-/

namespace FlowLink

structure LinkOutcome where
  sourceTokens : Nat := 0
  destTokens : Nat := 0
  added : Nat := 0
  existing : Nat := 0
deriving DecidableEq, Inhabited

/-- The request did not resolve to exactly one token on each side. -/
def LinkOutcome.isAmbiguous (outcome : LinkOutcome) : Bool :=
  outcome.sourceTokens ≠ 1 || outcome.destTokens ≠ 1

namespace FeatureGraph

open Std

/-- Puts an edge and counts it as added or as existing; one that lacks an end is neither. -/
def putCounted (state : FeatureGraph × LinkOutcome) (edge : Edge) : FeatureGraph × LinkOutcome :=
  let (graph, outcome) := state
  match graph.putEdge edge with
  | (grown, true) => (grown, { outcome with added := outcome.added + 1 })
  | (same, false) =>
    (same, if same.hasEdge edge then { outcome with existing := outcome.existing + 1 } else outcome)

def productEdges (sources dests : ExtTreeSet NodeId) (kind : EdgeKind) : List Edge :=
  sources.toList.flatMap fun source => dests.toList.map fun dest => ⟨source, dest, kind⟩

def putProduct (graph : FeatureGraph) (sources dests : ExtTreeSet NodeId) (kind : EdgeKind) :
    FeatureGraph × LinkOutcome :=
  (productEdges sources dests kind).foldl putCounted
    (graph, { sourceTokens := sources.size, destTokens := dests.size })

/-- Links every token of `source` to every token of `dest`. -/
def linkTokens (graph : FeatureGraph) (source dest : NodeId) (kind : EdgeKind) :
    FeatureGraph × LinkOutcome :=
  graph.putProduct (graph.tokens source) (graph.tokens dest) kind

/-- Links every token of `source` to `dest` itself. -/
def linkTokensToNode (graph : FeatureGraph) (source dest : NodeId) (kind : EdgeKind) :
    FeatureGraph × LinkOutcome :=
  graph.putProduct (graph.tokens source) (.ofList [dest]) kind

end FeatureGraph

/-- A pass under way: the graph so far, the counters, and what was reported. -/
structure Progress where
  graph : FeatureGraph
  stats : LinkStats
  events : Array Event

namespace Progress

def start (graph : FeatureGraph) : Progress := ⟨graph, {}, #[]⟩

def report (progress : Progress) (event : Event) : Progress :=
  { progress with events := progress.events.push event }

def count (progress : Progress) (update : LinkStats → LinkStats) : Progress :=
  { progress with stats := update progress.stats }

/-- Takes over the result of a request: counts its edges, and counts and reports it if it was
ambiguous. -/
def record (progress : Progress) (config : LinkConfig) (request : Edge)
    (result : FeatureGraph × LinkOutcome) : Progress :=
  let (graph, outcome) := result
  let linked := { progress with graph }.count fun stats =>
    { stats with
      edgesAdded := stats.edgesAdded + outcome.added
      edgesExisting := stats.edgesExisting + outcome.existing }
  if outcome.isAmbiguous then
    (linked.count fun stats => { stats with ambiguousTokens := stats.ambiguousTokens + 1 }).report
      (.ambiguousTokens config.warnAmbiguous request outcome.sourceTokens outcome.destTokens)
  else
    linked

def linkTokens (progress : Progress) (config : LinkConfig) (request : Edge) : Progress :=
  progress.record config request
    (progress.graph.linkTokens request.source request.target request.kind)

def linkTokensToNode (progress : Progress) (config : LinkConfig) (request : Edge) : Progress :=
  progress.record config request
    (progress.graph.linkTokensToNode request.source request.target request.kind)

end Progress

end FlowLink
