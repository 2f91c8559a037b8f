import FlowLink.Link.Dataflow
import FlowLink.Proofs.Link.Actions
import FlowLink.Proofs.Tree.Discovery

namespace FlowLink

open Std

/-! # The edges of the dataflow pass

The pass is drawn up as a row of actions from the graph that it starts on, and its edges are read
off that row: from the tokens of each candidate to the tokens of the site that a fact names it for.
-/

theorem FactKind.edgeKind_isSkeleton (kind : FactKind) : kind.edgeKind.isSkeleton = false := by
  cases kind <;> rfl

def candidateActions (graph : FeatureGraph) (siteNode : NodeId) (kind : FactKind)
    (candidate : TreeId) : List Action :=
  match graph.treeNode? candidate with
  | none => [.notify (.candidateWithoutNode candidate), .tally .missingFeatureNode 1]
  | some prior =>
    [.link ⟨prior, siteNode, kind.edgeKind⟩ (graph.tokens prior) (graph.tokens siteNode)]

def factActions (graph : FeatureGraph) (outputs : MethodFacts) (site : TreeId) (kind : FactKind) :
    List Action :=
  match outputs.candidates? kind site with
  | none => [.tally .skippedNoFact 1]
  | some candidates =>
    if candidates.isEmpty then
      []
    else
      match graph.treeNode? site with
      | none => [.notify (.siteWithoutNode site), .tally .missingFeatureNode 1]
      | some siteNode => candidates.toList.flatMap (candidateActions graph siteNode kind)

def siteActions (graph : FeatureGraph) (analysis : Analysis) (visit : TreeId × Scope) :
    List Action :=
  .tally .sitesVisited 1 ::
    match visit.2.enclosing with
    | none => [.tally .skippedOutsideMethod 1]
    | some (classId, method) =>
      match analysis.get? classId method with
      | none => [.notify (.methodNotAnalysed classId method), .tally .skippedUnanalyzed 1]
      | some outputs => FactKind.all.flatMap (factActions graph outputs visit.1)

def dataflowActions (tree : SyntaxTree) (analysis : Analysis) (root : TreeId)
    (graph : FeatureGraph) : List Action :=
  (tree.sites root).flatMap (siteActions graph analysis)

section

variable {tree : SyntaxTree} {analysis : Analysis} {config : LinkConfig} {graph : FeatureGraph}
  {progress : Progress} {outputs : MethodFacts} {kind : FactKind} {site candidate : TreeId}
  {edge : Edge}

theorem mem_candidateActions {siteNode : NodeId} :
    edge ∈ requested (candidateActions graph siteNode kind candidate) ↔
      ∃ prior, graph.treeNode? candidate = some prior ∧ edge.source ∈ graph.tokens prior ∧
        edge.target ∈ graph.tokens siteNode ∧ edge.kind = kind.edgeKind := by
  cases registered : graph.treeNode? candidate with
  | none => simp [candidateActions, registered, Action.edges]
  | some prior => simp [candidateActions, registered, Action.edges, mem_productEdges]

theorem mem_factActions :
    edge ∈ requested (factActions graph outputs site kind) ↔
      ∃ candidates, outputs.candidates? kind site = some candidates ∧
        ∃ candidate ∈ candidates, ∃ prior siteNode,
          graph.treeNode? candidate = some prior ∧ graph.treeNode? site = some siteNode ∧
          edge.source ∈ graph.tokens prior ∧ edge.target ∈ graph.tokens siteNode ∧
          edge.kind = kind.edgeKind := by
  cases known : outputs.candidates? kind site with
  | none => simp [factActions, known, Action.edges]
  | some candidates =>
      simp only [Option.some.injEq, exists_eq_left']
      cases empty : candidates.isEmpty with
      | true => simp [factActions, known, ExtTreeSet.isEmpty_iff.mp empty]
      | false =>
          cases registered : graph.treeNode? site with
          | none => simp [factActions, known, empty, registered, Action.edges]
          | some siteNode =>
              simp [factActions, known, empty, registered, mem_requested_flatMap,
                mem_candidateActions, ExtTreeSet.mem_toList]

theorem mem_siteActions {scope : Scope} :
    edge ∈ requested (siteActions graph analysis (site, scope)) ↔
      ∃ classId method outputs, scope.enclosing = some (classId, method) ∧
        analysis.get? classId method = some outputs ∧
        ∃ kind, edge ∈ requested (factActions graph outputs site kind) := by
  cases enclosed : scope.enclosing with
  | none => simp [siteActions, enclosed, Action.edges]
  | some place =>
      obtain ⟨classId, method⟩ := place
      cases analysed : analysis.get? classId method with
      | none => simp [siteActions, enclosed, analysed, Action.edges]
      | some outputs =>
          have every : ∀ kind : FactKind, kind ∈ FactKind.all := by
            intro kind
            cases kind <;> decide
          simp [siteActions, enclosed, analysed, Action.edges, mem_requested_flatMap, every]

theorem factActions_semantic :
    ∀ edge ∈ requested (factActions graph outputs site kind), edge.kind.isSkeleton = false := by
  intro edge member
  obtain ⟨_, _, _, _, _, _, _, _, _, _, recorded⟩ := mem_factActions.mp member
  rw [recorded]
  exact kind.edgeKind_isSkeleton

theorem siteActions_semantic (visit : TreeId × Scope) :
    ∀ edge ∈ requested (siteActions graph analysis visit), edge.kind.isSkeleton = false := by
  intro edge member
  obtain ⟨_, _, _, _, _, kind, asked⟩ := mem_siteActions.mp member
  exact factActions_semantic edge asked

namespace Progress

theorem linkCandidate_eq_performAll {siteNode : NodeId}
    (enriches : progress.graph.Enriches graph) :
    linkCandidate config siteNode kind progress candidate =
      progress.performAll config (candidateActions graph siteNode kind candidate) := by
  unfold linkCandidate candidateActions
  rw [enriches.treeNode?]
  cases graph.treeNode? candidate with
  | none => rfl
  | some prior =>
      simp only [← enriches.tokens]
      rfl

theorem linkFact_eq_performAll (enriches : progress.graph.Enriches graph) :
    linkFact config outputs site progress kind =
      progress.performAll config (factActions graph outputs site kind) := by
  unfold linkFact factActions
  cases outputs.candidates? kind site with
  | none => rfl
  | some candidates =>
      by_cases empty : candidates.isEmpty = true
      · simp only [empty, if_true]
        rfl
      · simp only [empty, if_false, enriches.treeNode?, Bool.false_eq_true]
        cases graph.treeNode? site with
        | none => rfl
        | some siteNode =>
            apply foldl_eq_performAll _ _ _ enriches
            · intro progress candidate enriches
              exact linkCandidate_eq_performAll enriches
            · intro candidate edge member
              obtain ⟨_, _, _, _, recorded⟩ := mem_candidateActions.mp member
              rw [recorded]
              exact kind.edgeKind_isSkeleton

theorem linkSite_eq_performAll (visit : TreeId × Scope)
    (enriches : progress.graph.Enriches graph) :
    linkSite config analysis progress visit =
      progress.performAll config (siteActions graph analysis visit) := by
  obtain ⟨site, scope⟩ := visit
  unfold linkSite siteActions
  simp only
  cases scope.enclosing with
  | none => rfl
  | some place =>
      obtain ⟨classId, method⟩ := place
      simp only
      cases analysis.get? classId method with
      | none => rfl
      | some outputs =>
          exact foldl_eq_performAll FactKind.all
            (fun progress kind enriches => linkFact_eq_performAll enriches)
            (fun kind => factActions_semantic) enriches

end Progress

/-- The dataflow pass performs actions that can be drawn up from any graph that was only enriched
since. -/
theorem linkDataflow_of_root {root : TreeId} {after : FeatureGraph}
    (rooted : tree.root = some root) (enriches : after.Enriches graph) :
    linkDataflow tree analysis config after =
      let linked := (Progress.start after).performAll config
        (dataflowActions tree analysis root graph)
      linked.report (.dataflowFinished linked.stats.edgesAdded linked.stats.sitesVisited) := by
  unfold linkDataflow
  rw [rooted]
  simp only
  rw [Progress.foldl_eq_performAll (tree.sites root)
    (fun progress visit enriches => Progress.linkSite_eq_performAll visit enriches)
    siteActions_semantic enriches]
  rfl

theorem linkDataflow_graph_of_root {root : TreeId} (rooted : tree.root = some root) :
    (linkDataflow tree analysis config graph).graph =
      graph.putEdges (requested (dataflowActions tree analysis root graph)) := by
  rw [linkDataflow_of_root rooted (.refl graph)]
  exact Progress.performAll_graph config (.start graph) _

theorem linkDataflow_of_rootless (rootless : tree.root = none) :
    linkDataflow tree analysis config graph =
      (Progress.start graph).report (.unitWithoutRoot .dataflow) := by
  unfold linkDataflow
  rw [rootless]

/-- A fact of the analysis names the candidate for the site: a variable or a reference that the root
leads to, in an analysed method of the class that its discovery path enters last. -/
inductive FlowsTo (tree : SyntaxTree) (analysis : Analysis) (kind : FactKind)
    (candidate site : TreeId) : Prop
  | intro {root classId method : TreeId} {shape : Shape} {outputs : MethodFacts}
      {candidates : CandidateSet} (rooted : tree.root = some root) (leads : tree.Leads root site)
      (found : tree.shape? site = some shape) (isSite : shape.isSite = true)
      (enclosed : (SyntaxTree.inheritedScope leads).enclosing = some (classId, method))
      (analysed : analysis.get? classId method = some outputs)
      (known : outputs.candidates? kind site = some candidates)
      (named : candidate ∈ candidates)

theorem mem_sites_iff {root : TreeId} {scope : Scope} :
    (site, scope) ∈ tree.sites root ↔
      (∃ leads : tree.Leads root site, SyntaxTree.inheritedScope leads = scope) ∧
        ∃ shape, tree.shape? site = some shape ∧ shape.isSite = true := by
  simp only [SyntaxTree.sites, List.mem_filter, SyntaxTree.mem_scopes_iff, Option.any_eq_true]

theorem mem_dataflowActions {root : TreeId} (rooted : tree.root = some root) :
    edge ∈ requested (dataflowActions tree analysis root graph) ↔
      ∃ kind candidate site prior siteNode, FlowsTo tree analysis kind candidate site ∧
        graph.treeNode? candidate = some prior ∧ graph.treeNode? site = some siteNode ∧
        edge.source ∈ graph.tokens prior ∧ edge.target ∈ graph.tokens siteNode ∧
        edge.kind = kind.edgeKind := by
  rw [dataflowActions, mem_requested_flatMap]
  constructor
  · intro request
    obtain ⟨⟨site, scope⟩, visited, asked⟩ := request
    obtain ⟨⟨leads, rfl⟩, shape, found, isSite⟩ := mem_sites_iff.mp visited
    obtain ⟨classId, method, outputs, enclosed, analysed, kind, asked⟩ := mem_siteActions.mp asked
    obtain ⟨candidates, known, candidate, named, prior, siteNode, ends⟩ := mem_factActions.mp asked
    exact ⟨kind, candidate, site, prior, siteNode,
      .intro rooted leads found isSite enclosed analysed known named, ends⟩
  · intro flow
    obtain ⟨kind, candidate, site, prior, siteNode, flows, ends⟩ := flow
    obtain ⟨rooted', leads, found, isSite, enclosed, analysed, known, named⟩ := flows
    cases rooted.symm.trans rooted'
    exact ⟨(site, _), mem_sites_iff.mpr ⟨⟨leads, rfl⟩, _, found, isSite⟩,
      mem_siteActions.mpr ⟨_, _, _, enclosed, analysed, kind,
        mem_factActions.mpr ⟨_, known, candidate, named, prior, siteNode, ends⟩⟩⟩

/-- The dataflow pass leaves the edges that were there and adds those from the tokens of each
candidate to the tokens of the site that it flows to, no others.  Tokens are those of the graph
before the pass. -/
theorem linkDataflow_hasEdge_iff (tree : SyntaxTree) (analysis : Analysis) (config : LinkConfig)
    (graph : FeatureGraph) (edge : Edge) :
    (linkDataflow tree analysis config graph).graph.hasEdge edge = true ↔
      graph.hasEdge edge = true ∨
        ∃ kind candidate site prior siteNode, FlowsTo tree analysis kind candidate site ∧
          graph.treeNode? candidate = some prior ∧ graph.treeNode? site = some siteNode ∧
          edge.source ∈ graph.tokens prior ∧ edge.target ∈ graph.tokens siteNode ∧
          edge.kind = kind.edgeKind := by
  cases rooted : tree.root with
  | none =>
      rw [linkDataflow_of_rootless rooted]
      constructor
      · exact Or.inl
      · intro edges
        rcases edges with present | ⟨_, _, _, _, _, ⟨rooted', _⟩, _⟩
        · exact present
        · rw [rooted] at rooted'
          contradiction
  | some root =>
      rw [linkDataflow_graph_of_root rooted, FeatureGraph.hasEdge_putEdges,
        mem_dataflowActions rooted]
      apply or_congr_right
      apply and_iff_left_of_imp
      intro flow
      obtain ⟨_, _, _, _, _, _, _, _, isSource, isTarget, _⟩ := flow
      simp [FeatureGraph.hasEnds, FeatureGraph.hasNode_of_mem_tokens isSource,
        FeatureGraph.hasNode_of_mem_tokens isTarget]

end

end FlowLink
