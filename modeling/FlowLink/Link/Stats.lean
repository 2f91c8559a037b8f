/-! # Counters -/

namespace FlowLink

/-- What linking one or more units came across.  Every condition under which linking passes over
something has a counter. -/
structure LinkStats where
  /-- Sites considered by the dataflow pass, and identifiers considered by the return pass. -/
  sitesVisited : Nat := 0
  edgesAdded : Nat := 0
  edgesExisting : Nat := 0
  skippedOutsideMethod : Nat := 0
  skippedUnanalyzed : Nat := 0
  skippedNoFact : Nat := 0
  /-- Tree elements without an associated node. -/
  missingFeatureNode : Nat := 0
  /-- Requests that did not resolve to one token on each side. -/
  ambiguousTokens : Nat := 0
  methodsLinked : Nat := 0
  returnsSeen : Nat := 0
  bareReturns : Nat := 0
deriving DecidableEq, Inhabited

namespace LinkStats

def add (left right : LinkStats) : LinkStats where
  sitesVisited := left.sitesVisited + right.sitesVisited
  edgesAdded := left.edgesAdded + right.edgesAdded
  edgesExisting := left.edgesExisting + right.edgesExisting
  skippedOutsideMethod := left.skippedOutsideMethod + right.skippedOutsideMethod
  skippedUnanalyzed := left.skippedUnanalyzed + right.skippedUnanalyzed
  skippedNoFact := left.skippedNoFact + right.skippedNoFact
  missingFeatureNode := left.missingFeatureNode + right.missingFeatureNode
  ambiguousTokens := left.ambiguousTokens + right.ambiguousTokens
  methodsLinked := left.methodsLinked + right.methodsLinked
  returnsSeen := left.returnsSeen + right.returnsSeen
  bareReturns := left.bareReturns + right.bareReturns

instance : Add LinkStats := ⟨add⟩

def counters (stats : LinkStats) : List (String × Nat) :=
  [("sites_visited", stats.sitesVisited),
    ("edges_added", stats.edgesAdded),
    ("edges_existing", stats.edgesExisting),
    ("skipped_outside_method", stats.skippedOutsideMethod),
    ("skipped_unanalyzed", stats.skippedUnanalyzed),
    ("skipped_no_fact", stats.skippedNoFact),
    ("missing_feature_node", stats.missingFeatureNode),
    ("ambiguous_tokens", stats.ambiguousTokens),
    ("methods_linked", stats.methodsLinked),
    ("returns_seen", stats.returnsSeen),
    ("bare_returns", stats.bareReturns)]

end LinkStats

end FlowLink
