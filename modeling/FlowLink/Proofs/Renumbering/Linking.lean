import FlowLink.Proofs.Link.Counters
import FlowLink.Proofs.Renumbering.Traversal

namespace FlowLink

open FeatureGraph

/-! # Linking a renumbered unit

Each pass on a renumbered unit draws up the actions of the pass on the original one, under new ids.
Only the candidates of a fact are taken in another order, that of their new ids.  What a row of
actions counts and which edges it puts does not depend on the order, and an action looks at its
tokens only.
-/

section

variable {size : Nat} (new : Renumbering size)

def Event.renumber : Event → Event
  | methodNotAnalysed classId method => methodNotAnalysed (new classId) (new method)
  | siteWithoutNode site => siteWithoutNode (new site)
  | candidateWithoutNode candidate => candidateWithoutNode (new candidate)
  | methodWithoutNode method => methodWithoutNode (new method)
  | identifierWithoutNode identifier => identifierWithoutNode (new identifier)
  | event => event

def Action.renumber : Action → Action
  | notify event => notify (event.renumber new)
  | action => action

theorem FeatureGraph.putEdges_renumber (graph : FeatureGraph) (edges : List Edge) :
    (graph.renumber new).putEdges edges = (graph.putEdges edges).renumber new := by
  induction edges generalizing graph with
  | nil => rfl
  | cons edge rest ih =>
      have first : ((graph.renumber new).putEdge edge).1 = (graph.putEdge edge).1.renumber new := by
        unfold putEdge
        change (if graph.hasEnds edge && !graph.hasEdge edge then _ else _ :
          FeatureGraph × Bool).1 = _
        split <;> rfl
      change ((graph.renumber new).putEdge edge).1.putEdges rest = _
      rw [first]
      exact ih (graph.putEdge edge).1

theorem requested_renumber (actions : List Action) :
    requested (actions.map (Action.renumber new)) = requested actions := by
  rw [requested, List.flatMap_map]
  apply List.flatMap_congr
  intro action _
  cases action <;> rfl

/-! ## Rows of actions -/

/-- The first row consists of the actions of the second under new ids, in some order. -/
def Action.Renumbered (renumbered original : List Action) : Prop :=
  renumbered.Perm (original.map (Action.renumber new))

theorem Action.renumbered_flatMap {α β : Type} {view : α → β} {actions : α → List Action}
    {actions' : β → List Action}
    (alike : ∀ item, Renumbered new (actions' (view item)) (actions item)) (items : List α) :
    Renumbered new ((items.map view).flatMap actions') (items.flatMap actions) := by
  rw [Renumbered, List.flatMap_map, List.map_flatMap]
  exact List.Perm.flatMap_left items fun item _ => alike item

variable {graph : FeatureGraph}

theorem candidateActions_renumber (siteNode : NodeId) (kind : FactKind) (candidate : TreeId) :
    Action.Renumbered new (candidateActions (graph.renumber new) siteNode kind (new candidate))
      (candidateActions graph siteNode kind candidate) := by
  unfold candidateActions
  rw [treeNode?_renumber]
  cases graph.treeNode? candidate with
  | none => exact .refl _
  | some prior => exact .refl _

theorem factActions_renumber (outputs : MethodFacts) (site : TreeId) (kind : FactKind) :
    Action.Renumbered new
      (factActions (graph.renumber new) (outputs.renumber new) (new site) kind)
      (factActions graph outputs site kind) := by
  unfold factActions
  rw [MethodFacts.candidates?_renumber, treeNode?_renumber]
  cases outputs.candidates? kind site with
  | none => exact .refl _
  | some candidates =>
      simp only [Option.map_some, Renumbering.isEmpty_mapSet]
      cases candidates.isEmpty with
      | true => exact .refl _
      | false =>
          cases graph.treeNode? site with
          | none => exact .refl _
          | some siteNode =>
              exact ((new.toList_mapSet candidates).flatMap_right _).trans
                (Action.renumbered_flatMap new (candidateActions_renumber new siteNode kind)
                  candidates.toList)

theorem siteActions_renumber (analysis : Analysis) (visit : TreeId × Scope) :
    Action.Renumbered new
      (siteActions (graph.renumber new) (analysis.renumber new)
        (new visit.1, visit.2.renumber new))
      (siteActions graph analysis visit) := by
  unfold siteActions
  apply List.Perm.cons
  simp only [Scope.enclosing_renumber]
  cases visit.2.enclosing with
  | none => exact .refl _
  | some place =>
      obtain ⟨classId, method⟩ := place
      simp only [Option.map_some, Analysis.get?_renumber]
      cases analysis.get? classId method with
      | none => exact .refl _
      | some outputs =>
          rw [List.map_flatMap]
          exact List.Perm.flatMap_left FactKind.all fun kind _ =>
            factActions_renumber new outputs visit.1 kind

theorem identifierActions_renumber (methodNode : NodeId) (identifier : TreeId) :
    Action.Renumbered new (identifierActions (graph.renumber new) methodNode (new identifier))
      (identifierActions graph methodNode identifier) := by
  unfold identifierActions
  rw [treeNode?_renumber]
  cases graph.treeNode? identifier with
  | none => exact .refl _
  | some node => exact .refl _

theorem returnedActions_renumber (method : TreeId) (identifiers : List TreeId) :
    Action.Renumbered new
      (returnedActions (graph.renumber new) (new method) (identifiers.map new))
      (returnedActions graph method identifiers) := by
  unfold returnedActions
  rw [List.isEmpty_map, treeNode?_renumber, List.length_map]
  cases identifiers.isEmpty with
  | true => exact .refl _
  | false =>
      cases graph.treeNode? method with
      | none => exact .refl _
      | some methodNode =>
          exact (Action.renumbered_flatMap new (identifierActions_renumber new methodNode)
            identifiers).cons _

end

/-! ## Passes -/

section

variable {tree : SyntaxTree} (new : Renumbering tree.size) {graph : FeatureGraph}

theorem dataflowActions_renumber (analysis : Analysis) (root : TreeId) :
    Action.Renumbered new
      (dataflowActions (tree.renumber new) (analysis.renumber new) (new root) (graph.renumber new))
      (dataflowActions tree analysis root graph) := by
  rw [dataflowActions, SyntaxTree.sites_renumber]
  exact Action.renumbered_flatMap new (siteActions_renumber new analysis) (tree.sites root)

theorem methodActions_renumber (mode : ReturnMode) (declaration : TreeId × TreeId) :
    Action.Renumbered new
      (methodActions (tree.renumber new) mode (graph.renumber new)
        (new declaration.1, new declaration.2))
      (methodActions tree mode graph declaration) := by
  obtain ⟨method, body⟩ := declaration
  have expressions : ((tree.returns mode body).map (Option.map new)).filterMap id =
      ((tree.returns mode body).filterMap id).map new := by
    rw [List.filterMap_map, List.map_filterMap]
    rfl
  have bare : ((tree.returns mode body).map (Option.map new)).count none =
      (tree.returns mode body).count none := by
    simp only [List.count, List.countP_map, Function.comp_def, Option.beq_none, Option.isNone_map]
  have identifiers : ∀ selected : List TreeId,
      (selected.map new).flatMap (tree.renumber new).identifiers =
        (selected.flatMap tree.identifiers).map new := by
    intro selected
    simp only [List.flatMap_map, List.map_flatMap, SyntaxTree.identifiers_renumber]
  simp only [methodActions, SyntaxTree.returns_renumber, expressions, ReturnMode.select_map,
    identifiers, bare, List.length_map]
  exact ((returnedActions_renumber new method _).cons _).cons _

theorem returnActions_renumber (mode : ReturnMode) (root : TreeId) :
    Action.Renumbered new
      (returnActions (tree.renumber new) mode (new root) (graph.renumber new))
      (returnActions tree mode root graph) := by
  rw [returnActions, SyntaxTree.methodBodies_renumber]
  exact Action.renumbered_flatMap new (methodActions_renumber new mode) (tree.methodBodies root)

end

namespace Progress

variable {size : Nat} (new : Renumbering size)

/-- Two runs have come equally far, the first one on a graph that names tree elements by new ids. -/
structure Mirrors (renumbered original : Progress) : Prop where
  graph : renumbered.graph = original.graph.renumber new
  stats : renumbered.stats = original.stats

variable {config : LinkConfig} {renumbered original : Progress}

theorem performAll_mirrors {actions others : List Action}
    (same : Action.Renumbered new others actions) (graph : FeatureGraph) :
    Mirrors new ((start (graph.renumber new)).performAll config others)
      ((start graph).performAll config actions) := by
  obtain ⟨graphs, stats⟩ := performAll_perm config (graph.renumber new) same
  have put : (graph.renumber new).putEdges (requested (actions.map (Action.renumber new))) =
      (graph.putEdges (requested actions)).renumber new := by
    rw [requested_renumber, putEdges_renumber]
  constructor
  · rw [graphs, performAll_graph, performAll_graph]
    exact put
  · rw [stats]
    apply performAll_stats_congr
    · rw [List.map_map]
      apply congrArg
      apply List.map_congr_left
      intro action _
      cases action <;> rfl
    · rfl
    · rw [put]
      rfl

theorem runPass_mirrors (config : LinkConfig) (pass : Pass) {run run' : FeatureGraph → Progress}
    (mirrors : Mirrors new renumbered original)
    (runs : ∀ graph, Mirrors new (run' (graph.renumber new)) (run graph)) :
    Mirrors new (renumbered.runPass config pass run') (original.runPass config pass run) := by
  have pass := runs original.graph
  unfold runPass
  split
  · constructor
    · change (run' renumbered.graph).graph = _
      rw [mirrors.graph]
      exact pass.graph
    · change renumbered.stats + (run' renumbered.graph).stats = _
      rw [mirrors.graph, mirrors.stats, pass.stats]
  · exact mirrors

end Progress

section

variable {tree : SyntaxTree} (new : Renumbering tree.size) (config : LinkConfig)

theorem linkDataflow_mirrors (analysis : Analysis) (graph : FeatureGraph) :
    Progress.Mirrors new
      (linkDataflow (tree.renumber new) (analysis.renumber new) config (graph.renumber new))
      (linkDataflow tree analysis config graph) := by
  cases rooted : tree.root with
  | none =>
      have rootless : (tree.renumber new).root = none := congrArg (Option.map new) rooted
      rw [linkDataflow_of_rootless rooted, linkDataflow_of_rootless rootless]
      exact ⟨rfl, rfl⟩
  | some root =>
      have rooted' : (tree.renumber new).root = some (new root) :=
        congrArg (Option.map new) rooted
      rw [linkDataflow_of_root rooted (.refl graph), linkDataflow_of_root rooted' (.refl _)]
      obtain ⟨graphs, stats⟩ := Progress.performAll_mirrors new
        (dataflowActions_renumber new analysis root) graph
      exact ⟨graphs, stats⟩

theorem linkReturns_mirrors (graph : FeatureGraph) :
    Progress.Mirrors new (linkReturns (tree.renumber new) config (graph.renumber new))
      (linkReturns tree config graph) := by
  cases rooted : tree.root with
  | none =>
      have rootless : (tree.renumber new).root = none := congrArg (Option.map new) rooted
      rw [linkReturns_of_rootless rooted, linkReturns_of_rootless rootless]
      exact ⟨rfl, rfl⟩
  | some root =>
      have rooted' : (tree.renumber new).root = some (new root) :=
        congrArg (Option.map new) rooted
      rw [linkReturns_of_root rooted (.refl graph), linkReturns_of_root rooted' (.refl _)]
      obtain ⟨graphs, stats⟩ := Progress.performAll_mirrors new
        (returnActions_renumber new config.returnMode root) graph
      exact ⟨graphs, stats⟩

end

/-- Linking does not depend on how elements are numbered: a renumbered unit gives the same counters
and the same edges, and the graph that comes out differs by the ids of tree elements only. -/
theorem linkUnit_renumber (tree : SyntaxTree) (analysis : Analysis) (config : LinkConfig)
    (graph : FeatureGraph) (new : Renumbering tree.size) :
    let linked := linkUnit tree analysis config graph
    let renumbered :=
      linkUnit (tree.renumber new) (analysis.renumber new) config (graph.renumber new)
    renumbered.stats = linked.stats ∧ renumbered.graph = linked.graph.renumber new ∧
      ∀ edge, renumbered.graph.hasEdge edge = linked.graph.hasEdge edge := by
  intro linked renumbered
  have start : Progress.Mirrors new (.start (graph.renumber new)) (.start graph) := ⟨rfl, rfl⟩
  have dataflow := Progress.runPass_mirrors new config .dataflow start
    (linkDataflow_mirrors new config analysis)
  obtain ⟨graphs, stats⟩ := Progress.runPass_mirrors new config .returnsTo dataflow
    (linkReturns_mirrors new config)
  refine ⟨stats, graphs, ?_⟩
  intro edge
  exact congrArg (fun graph => graph.hasEdge edge) graphs

/-- The class and the returned variable change places. -/
theorem echo_linkUnit_renumber :
    let new : Renumbering Bundle.echo.tree.size := .swap ⟨1, by decide⟩ ⟨4, by decide⟩
    let linked := linkUnit Bundle.echo.tree Bundle.echo.analysis {} Bundle.echo.graph
    let renumbered := linkUnit (Bundle.echo.tree.renumber new)
      (Bundle.echo.analysis.renumber new) {} (Bundle.echo.graph.renumber new)
    (Bundle.echo.tree.renumber new).shape? ⟨4⟩ = some (.classDecl "C" [⟨2⟩]) ∧
      renumbered.stats = linked.stats ∧ linked.stats.edgesAdded = 2 ∧
      renumbered.graph.hasEdge ⟨⟨7⟩, ⟨7⟩, .lastWrite⟩ = true ∧
      renumbered.graph.hasEdge ⟨⟨7⟩, ⟨2⟩, .returnsTo⟩ = true := by
  intro new linked renumbered
  obtain ⟨stats, _, edges⟩ :=
    linkUnit_renumber Bundle.echo.tree Bundle.echo.analysis {} Bundle.echo.graph new
  refine ⟨by decide, stats, by cbv, (edges _).trans ?_, (edges _).trans ?_⟩
  · cbv
  · cbv

end FlowLink
