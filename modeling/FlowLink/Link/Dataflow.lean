import FlowLink.Facts
import FlowLink.Link.Scope
import FlowLink.Link.Tokens
import FlowLink.Tree.Traversal

/-! # The dataflow pass

Adds an edge from the tokens of every candidate to the tokens of the site the candidate reaches,
for each site in an analysed method.
-/

namespace FlowLink

def FactKind.edgeKind : FactKind → EdgeKind
  | lastWrite => .lastWrite
  | lastUse => .lastUse

/-- The elements reachable from `start` in pre-order, each with the scope it inherits from the
element through which it was found. -/
def SyntaxTree.scopes (tree : SyntaxTree) (start : TreeId) : List (TreeId × Scope) :=
  (tree.traverse (fun id shape scope found => (some (scope.enter id shape), found.push (id, scope)))
    start ({} : Scope) (#[] : Array (TreeId × Scope))).toList

def SyntaxTree.sites (tree : SyntaxTree) (start : TreeId) : List (TreeId × Scope) :=
  (tree.scopes start).filter fun (id, _) => (tree.shape? id).any Shape.isSite

namespace Progress

def linkCandidate (config : LinkConfig) (siteNode : NodeId) (kind : FactKind)
    (progress : Progress) (candidate : TreeId) : Progress :=
  match progress.graph.treeNode? candidate with
  | none =>
    (progress.report (.candidateWithoutNode candidate)).count fun stats =>
      { stats with missingFeatureNode := stats.missingFeatureNode + 1 }
  | some prior => progress.linkTokens config ⟨prior, siteNode, kind.edgeKind⟩

/-- Links a site to the candidates of the fact of a kind about it. -/
def linkFact (config : LinkConfig) (outputs : MethodFacts) (site : TreeId)
    (progress : Progress) (kind : FactKind) : Progress :=
  match outputs.candidates? kind site with
  | none => progress.count fun stats => { stats with skippedNoFact := stats.skippedNoFact + 1 }
  | some candidates =>
    if candidates.isEmpty then
      progress
    else
      match progress.graph.treeNode? site with
      | none =>
        (progress.report (.siteWithoutNode site)).count fun stats =>
          { stats with missingFeatureNode := stats.missingFeatureNode + 1 }
      | some siteNode => candidates.toList.foldl (linkCandidate config siteNode kind) progress

/-- Links a site to what the facts of the method around it say. -/
def linkSite (config : LinkConfig) (analysis : Analysis) (progress : Progress)
    (visit : TreeId × Scope) : Progress :=
  let (site, scope) := visit
  let counted := progress.count fun stats => { stats with sitesVisited := stats.sitesVisited + 1 }
  match scope.enclosing with
  | none =>
    counted.count fun stats => { stats with skippedOutsideMethod := stats.skippedOutsideMethod + 1 }
  | some (classId, method) =>
    match analysis.get? classId method with
    | none =>
      (counted.report (.methodNotAnalysed classId method)).count fun stats =>
        { stats with skippedUnanalyzed := stats.skippedUnanalyzed + 1 }
    | some outputs => FactKind.all.foldl (linkFact config outputs site) counted

end Progress

def linkDataflow (tree : SyntaxTree) (analysis : Analysis) (config : LinkConfig)
    (graph : FeatureGraph) : Progress :=
  match tree.root with
  | none => (Progress.start graph).report (.unitWithoutRoot .dataflow)
  | some root =>
    let linked := (tree.sites root).foldl (Progress.linkSite config analysis) (.start graph)
    linked.report (.dataflowFinished linked.stats.edgesAdded linked.stats.sitesVisited)

end FlowLink
