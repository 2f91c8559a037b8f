import FlowLink.Graph.Skeleton
import FlowLink.Proofs.Bundle.Validation
import FlowLink.Proofs.Link.Relinking
import Mathlib.Data.List.Permutation

namespace FlowLink

open Std FeatureGraph

/-! # How linking lets a graph grow

A pass adds edges of its own kinds between nodes that the graph has, and nothing else.  Every edge
that it adds is counted, so the counter of added edges is the number of edges by which the graph
has grown.
-/

/-! ## Counted edges -/

namespace FeatureGraph

theorem edgeCount_putCounted (graph : FeatureGraph) (outcome : LinkOutcome) (edge : Edge) :
    (putCounted (graph, outcome) edge).1.edgeCount + outcome.added =
      graph.edgeCount + (putCounted (graph, outcome) edge).2.added := by
  cases present : graph.hasEdge edge with
  | true => rw [putCounted_of_present present]
  | false =>
      cases ends : graph.hasEnds edge with
      | true =>
          rw [putCounted_of_new ends present, edgeCount_putEdge_of_new ends present]
          simp only
          omega
      | false => rw [putCounted_of_loose ends present]

theorem edgeCount_foldl_putCounted (edges : List Edge) (state : FeatureGraph × LinkOutcome) :
    (edges.foldl putCounted state).1.edgeCount + state.2.added =
      state.1.edgeCount + (edges.foldl putCounted state).2.added := by
  induction edges generalizing state with
  | nil => rfl
  | cons edge rest ih =>
      have first := edgeCount_putCounted state.1 state.2 edge
      have later := ih (putCounted state edge)
      rw [Prod.eta] at first
      rw [List.foldl_cons]
      omega

theorem edgeCount_putProduct (graph : FeatureGraph) (sources dests : ExtTreeSet NodeId)
    (kind : EdgeKind) :
    (graph.putProduct sources dests kind).1.edgeCount =
      graph.edgeCount + (graph.putProduct sources dests kind).2.added :=
  edgeCount_foldl_putCounted (productEdges sources dests kind)
    (graph, { sourceTokens := sources.size, destTokens := dests.size })

end FeatureGraph

namespace Progress

/-- The graph has as many edges more than another one as were counted as added. -/
def Accounts (progress : Progress) (before : FeatureGraph) : Prop :=
  progress.graph.edgeCount = before.edgeCount + progress.stats.edgesAdded

variable {config : LinkConfig} {progress : Progress} {before : FeatureGraph} {pass : Pass}

theorem start_accounts (graph : FeatureGraph) : (Progress.start graph).Accounts graph := rfl

theorem record_edgesAdded (request : Edge) (result : FeatureGraph × LinkOutcome) :
    (progress.record config request result).stats.edgesAdded =
      progress.stats.edgesAdded + result.2.added := by
  simp only [record]
  split <;> rfl

theorem perform_accounts (accounts : progress.Accounts before) (action : Action) :
    (progress.perform config action).Accounts before := by
  cases action with
  | tally counter amount => cases counter <;> exact accounts
  | notify event => exact accounts
  | link request sources dests =>
      have grown := edgeCount_putProduct progress.graph sources dests request.kind
      unfold Accounts at accounts ⊢
      rw [perform, record_graph, record_edgesAdded, grown, accounts, Nat.add_assoc]

theorem performAll_accounts (accounts : progress.Accounts before) (actions : List Action) :
    (progress.performAll config actions).Accounts before := by
  induction actions generalizing progress with
  | nil => exact accounts
  | cons action rest ih => exact ih (perform_accounts accounts action)

theorem runPass_accounts (accounts : progress.Accounts before) {run : FeatureGraph → Progress}
    (runs : ∀ graph, (run graph).Accounts graph) :
    (progress.runPass config pass run).Accounts before := by
  unfold runPass
  split
  · have grown : (run progress.graph).graph.edgeCount =
        progress.graph.edgeCount + (run progress.graph).stats.edgesAdded := runs progress.graph
    change (run progress.graph).graph.edgeCount =
      before.edgeCount + (progress.stats.edgesAdded + (run progress.graph).stats.edgesAdded)
    rw [grown, accounts, Nat.add_assoc]
  · exact accounts

end Progress

theorem Pass.Performs.accounts {pass : Pass} {config : LinkConfig} {graph : FeatureGraph}
    {run : FeatureGraph → Progress} {actions : List Action}
    (performs : pass.Performs config graph run actions) : (run graph).Accounts graph := by
  obtain ⟨_, _, runs⟩ := performs
  rw [runs graph (.refl graph)]
  exact Progress.performAll_accounts (Progress.start_accounts graph) actions

section

variable {tree : SyntaxTree} {analysis : Analysis} {config : LinkConfig} {graph : FeatureGraph}

theorem linkUnit_accounts : (linkUnit tree analysis config graph).Accounts graph := by
  apply Progress.runPass_accounts (Progress.runPass_accounts (Progress.start_accounts graph) ?_)
  · intro graph
    obtain ⟨_, performs⟩ := linkReturns_performs tree config graph
    exact performs.accounts
  · intro graph
    obtain ⟨_, performs⟩ := linkDataflow_performs tree analysis config graph
    exact performs.accounts

end

/-! ## Added edges -/

def FeatureGraph.IsToken (graph : FeatureGraph) (id : NodeId) : Prop :=
  ∃ node, graph.node? id = some node ∧ node.type.isToken = true

/-- The root leads to the method, and the method has a body. -/
inductive SyntaxTree.Implements (tree : SyntaxTree) (method : TreeId) : Prop
  | intro {root body : TreeId} {declaration : Shape} (rooted : tree.root = some root)
      (leads : tree.Leads root method) (declared : tree.shape? method = some declaration)
      (hasBody : declaration.methodBody? = some body)

/-- What an edge must be like for a pass to add it to a graph. -/
def Pass.MayAdd (tree : SyntaxTree) (graph : FeatureGraph) (edge : Edge) : Pass → Prop
  | .dataflow =>
    (edge.kind = .lastWrite ∨ edge.kind = .lastUse) ∧ graph.IsToken edge.source ∧
      graph.IsToken edge.target
  | .returnsTo =>
    edge.kind = .returnsTo ∧ graph.IsToken edge.source ∧
      ∃ method, tree.Implements method ∧ graph.treeNode? method = some edge.target

section

variable {tree : SyntaxTree} {analysis : Analysis} {config : LinkConfig}
  {graph before after : FeatureGraph} {edge : Edge} {pass : Pass} {node token : NodeId}

theorem isToken_of_mem_tokens (member : token ∈ graph.tokens node) : graph.IsToken token :=
  (mem_tokens_iff.mp member).2

theorem FeatureGraph.Enriches.isToken (enriches : after.Enriches before) :
    after.IsToken node ↔ before.IsToken node := by
  unfold IsToken
  rw [enriches.node?]

theorem FeatureGraph.Enriches.mayAdd (enriches : after.Enriches before) :
    pass.MayAdd tree after edge ↔ pass.MayAdd tree before edge := by
  cases pass with
  | dataflow => simp only [Pass.MayAdd, enriches.isToken]
  | returnsTo => simp only [Pass.MayAdd, enriches.isToken, enriches.treeNode?]

/-- A pass keeps the edges of the graph, and adds only what it may. -/
def Pass.Extends (pass : Pass) (tree : SyntaxTree) (run : FeatureGraph → Progress) : Prop :=
  ∀ graph edge, (run graph).graph.hasEdge edge = true →
    graph.hasEdge edge = true ∨ pass.MayAdd tree graph edge

theorem linkDataflow_extends :
    Pass.dataflow.Extends tree (linkDataflow tree analysis config) := by
  intro graph edge present
  cases rooted : tree.root with
  | none =>
      rw [linkDataflow_of_rootless rooted] at present
      exact Or.inl present
  | some root =>
      rw [linkDataflow_graph_of_root rooted, hasEdge_putEdges, mem_dataflowActions rooted]
        at present
      rcases present with old | ⟨flow, _⟩
      · exact Or.inl old
      · obtain ⟨kind, _, _, _, _, _, _, _, isSource, isTarget, recorded⟩ := flow
        have kinds : edge.kind = .lastWrite ∨ edge.kind = .lastUse := by
          rw [recorded]
          cases kind with
          | lastWrite => exact Or.inl rfl
          | lastUse => exact Or.inr rfl
        exact Or.inr ⟨kinds, isToken_of_mem_tokens isSource, isToken_of_mem_tokens isTarget⟩

theorem linkReturns_extends : Pass.returnsTo.Extends tree (linkReturns tree config) := by
  intro graph edge present
  cases rooted : tree.root with
  | none =>
      rw [linkReturns_of_rootless rooted] at present
      exact Or.inl present
  | some root =>
      rw [linkReturns_graph_of_root rooted, hasEdge_putEdges, mem_returnActions rooted] at present
      rcases present with old | ⟨flow, _⟩
      · exact Or.inl old
      · obtain ⟨recorded, method, _, _, returned, isTarget, _, isSource⟩ := flow
        obtain ⟨rooted, leads, declared, hasBody, _⟩ := returned
        exact Or.inr ⟨recorded, isToken_of_mem_tokens isSource, method,
          .intro rooted leads declared hasBody, isTarget⟩

theorem Progress.runPass_added {run : FeatureGraph → Progress} {progress : Progress}
    (adds : pass.Extends tree run)
    (present : (progress.runPass config pass run).graph.hasEdge edge = true) :
    progress.graph.hasEdge edge = true ∨
      config.runs pass = true ∧ pass.MayAdd tree progress.graph edge := by
  unfold runPass at present
  split at present
  next enabled =>
    rcases adds progress.graph edge present with old | added
    · exact Or.inl old
    · exact Or.inr ⟨enabled, added⟩
  next => exact Or.inl present

theorem linkUnit_enriches (tree : SyntaxTree) (analysis : Analysis) (config : LinkConfig)
    (graph : FeatureGraph) : (linkUnit tree analysis config graph).graph.Enriches graph :=
  (Progress.runPass_enriches (linkReturns_enriches tree config)).trans
    (Progress.runPass_enriches (linkDataflow_enriches tree analysis config))

theorem linkUnit_added (present : (linkUnit tree analysis config graph).graph.hasEdge edge = true)
    (new : graph.hasEdge edge = false) :
    ∃ pass, config.runs pass = true ∧ pass.MayAdd tree graph edge := by
  -- The second pass looks at what the first one has left, which is the same for `MayAdd`.
  rcases Progress.runPass_added linkReturns_extends present with earlier | ⟨enabled, added⟩
  · rcases Progress.runPass_added linkDataflow_extends earlier with old | ⟨enabled, added⟩
    · exact absurd (new.symm.trans old) Bool.false_ne_true
    · exact ⟨.dataflow, enabled, added⟩
  · have enriches : ((Progress.start graph).runPass config .dataflow
        (linkDataflow tree analysis config)).graph.Enriches graph :=
      Progress.runPass_enriches (linkDataflow_enriches tree analysis config)
    exact ⟨.returnsTo, enabled, enriches.mayAdd.mp added⟩

end

/-- Linking keeps the nodes, the associations and the edges of a graph.  Each edge that it adds is
one that a pass of the configuration may add, no edge of the skeleton is among them, and the counter
says how many there are.  A valid bundle stays valid. -/
theorem linkUnit_additive (tree : SyntaxTree) (analysis : Analysis) (config : LinkConfig)
    (graph : FeatureGraph) :
    let linked := linkUnit tree analysis config graph
    linked.graph.nodes = graph.nodes ∧ linked.graph.treeNodes = graph.treeNodes ∧
      (∀ edge, graph.hasEdge edge = true → linked.graph.hasEdge edge = true) ∧
      (∀ edge, linked.graph.hasEdge edge = true → graph.hasEdge edge = false →
        ∃ pass, config.runs pass = true ∧ pass.MayAdd tree graph edge) ∧
      (∀ edge, edge.kind.isSkeleton = true →
        linked.graph.hasEdge edge = graph.hasEdge edge) ∧
      linked.graph.edgeCount = graph.edgeCount + linked.stats.edgesAdded ∧
      ∀ warnings, Bundle.validate ⟨tree, graph, analysis⟩ = .ok warnings →
        Bundle.validate ⟨tree, linked.graph, analysis⟩ = .ok warnings := by
  intro linked
  have enriches : linked.graph.Enriches graph := linkUnit_enriches tree analysis config graph
  refine ⟨enriches.nodes, enriches.treeNodes, enriches.kept, ?_, enriches.skeleton,
    linkUnit_accounts, ?_⟩
  · intro edge present new
    exact linkUnit_added present new
  · intro warnings valid
    exact Bundle.validate_of_enriches enriches valid

/-- A unit over its plain skeleton, with one method, which returns a variable.  The facts name the
returned variable itself as what was written last. -/
def Bundle.echo : Bundle :=
  let tree : SyntaxTree :=
    { elements := #[⟨⟨0⟩, .compilationUnit [⟨1⟩]⟩, ⟨⟨1⟩, .classDecl "C" [⟨2⟩]⟩,
        ⟨⟨2⟩, .methodDecl "f" [] (some ⟨3⟩)⟩, ⟨⟨3⟩, .returnStatement (some ⟨4⟩)⟩,
        ⟨⟨4⟩, .identifier "x"⟩]
      root := some ⟨0⟩ }
  { tree
    graph := .skeleton tree
    analysis := Analysis.empty.insert ⟨1⟩ ⟨2⟩
      ⟨(∅ : FactMap).insert ⟨4⟩ ((∅ : CandidateSet).insert ⟨4⟩), ∅⟩ }

theorem echo_linkUnit_additive :
    let linked := linkUnit Bundle.echo.tree Bundle.echo.analysis {} Bundle.echo.graph
    let kept : Edge := ⟨⟨4⟩, ⟨7⟩, .associatedToken⟩
    let new : Edge := ⟨⟨7⟩, ⟨2⟩, .returnsTo⟩
    (Bundle.echo.graph.hasEdge kept = true ∧ linked.graph.hasEdge kept = true) ∧
      (linked.graph.hasEdge new = true ∧ Bundle.echo.graph.hasEdge new = false ∧
        ∃ pass, LinkConfig.runs {} pass = true ∧
          pass.MayAdd Bundle.echo.tree Bundle.echo.graph new) ∧
      (kept.kind.isSkeleton = true ∧
        linked.graph.hasEdge kept = Bundle.echo.graph.hasEdge kept) ∧
      (Bundle.echo.validate = .ok [] ∧
        Bundle.validate ⟨Bundle.echo.tree, linked.graph, Bundle.echo.analysis⟩ = .ok []) := by
  intro linked kept new
  have present : Bundle.echo.graph.hasEdge kept = true := by decide
  have added : linked.graph.hasEdge new = true := by cbv
  have absent : Bundle.echo.graph.hasEdge new = false := by decide
  have valid : Bundle.echo.validate = .ok [] := by decide
  obtain ⟨_, _, keeps, adds, skeleton, _, staysValid⟩ :=
    linkUnit_additive Bundle.echo.tree Bundle.echo.analysis {} Bundle.echo.graph
  exact ⟨⟨present, keeps kept present⟩, ⟨added, absent, adds new added absent⟩,
    ⟨rfl, skeleton kept rfl⟩, valid, staysValid [] valid⟩

end FlowLink
