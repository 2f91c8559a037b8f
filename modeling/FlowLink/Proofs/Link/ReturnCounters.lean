import FlowLink.Proofs.Link.Counters
import FlowLink.Proofs.Link.LastReturns

namespace FlowLink

open Std FeatureGraph

/-! # The counters of the return pass

The pass comes to the methods that have a body.  What the search of a body finds is counted before
anything is selected from it, and what the method returns is counted afterwards, in one way if the
method is registered and in another if it is not.  So every counter is a sum over methods, to which
a method contributes by itself, wherever it stands.
-/

namespace SyntaxTree

/-- The return statements that the search of a body meets. -/
def statements (tree : SyntaxTree) (mode : ReturnMode) (body : TreeId) : List TreeId :=
  (tree.walk (mode.searches body) body).filter fun id => (tree.shape? id).any Shape.isReturn

variable {tree : SyntaxTree} {mode : ReturnMode} {root body statement : TreeId}

theorem mem_statements_iff :
    statement ∈ tree.statements mode body ↔
      tree.Reaches (mode.searches body) body statement ∧
        ∃ expression, tree.shape? statement = some (.returnStatement expression) := by
  rw [statements, List.mem_filter, mem_walk_iff, Option.any_eq_true]
  apply and_congr_right
  intro _
  constructor
  · intro isReturn
    obtain ⟨shape, found, isReturn⟩ := isReturn
    cases shape with
    | returnStatement expression => exact ⟨expression, found⟩
    | _ => contradiction
  · intro isReturn
    obtain ⟨expression, found⟩ := isReturn
    exact ⟨_, found, rfl⟩

theorem statements_nodup : (tree.statements mode body).Nodup := walk_nodup.filter _

theorem returns_eq_map :
    tree.returns mode body = (tree.statements mode body).map tree.returned? := by
  rw [returns, statements, ← List.filterMap_eq_map, List.filterMap_filter]
  apply List.filterMap_congr
  intro id _
  cases found : tree.shape? id with
  | none => rfl
  | some shape => cases shape <;> simp [returned?, found, Shape.isReturn]

theorem methodBodies_nodup : ((tree.methodBodies root).map Prod.fst).Nodup := by
  rw [methodBodies, List.map_filterMap]
  apply List.Nodup.filterMap _ walk_nodup
  intro left right method isLeft isRight
  simp only [Option.map_map, Option.mem_def, Option.map_eq_some_iff] at isLeft isRight
  obtain ⟨_, _, rfl⟩ := isLeft
  obtain ⟨_, _, rfl⟩ := isRight
  rfl

end SyntaxTree

/-- How many tokens stand for an element, if it is registered. -/
def FeatureGraph.tokenCount? (graph : FeatureGraph) (id : TreeId) : Option Nat :=
  (graph.treeNode? id).map fun node => (graph.tokens node).size

/-! ## What a method counts -/

def identifierCounts (graph : FeatureGraph) (identifier : TreeId) : LinkStats where
  sitesVisited := 1
  missingFeatureNode := (graph.treeNode? identifier).isNone.toNat
  ambiguousTokens := ((graph.tokenCount? identifier).any (· ≠ 1)).toNat
  edgesExisting := (graph.tokenCount? identifier).getD 0

def searchCounts (tree : SyntaxTree) (mode : ReturnMode) (body : TreeId) : LinkStats where
  returnsSeen := (tree.statements mode body).length
  bareReturns := (tree.statements mode body).countP fun id => (tree.returned? id).isNone

def returnedCounts (graph : FeatureGraph) (method : TreeId) (identifiers : List TreeId) :
    LinkStats :=
  if (graph.treeNode? method).isSome then
    { methodsLinked := (!identifiers.isEmpty).toNat : LinkStats } +
      (identifiers.map (identifierCounts graph)).sum
  else
    { missingFeatureNode := identifiers.length }

def methodCounts (tree : SyntaxTree) (mode : ReturnMode) (graph : FeatureGraph)
    (declaration : TreeId × TreeId) : LinkStats :=
  searchCounts tree mode declaration.2 +
    returnedCounts graph declaration.1 (tree.returnedIdentifiers mode declaration.2)

section

variable {tree : SyntaxTree} {mode : ReturnMode} {config : LinkConfig} {graph : FeatureGraph}
  {root method identifier : TreeId} {methodNode : NodeId}

theorem rowCounts_identifierActions (known : graph.hasNode methodNode = true) :
    rowCounts graph (identifierActions graph methodNode identifier) =
      identifierCounts graph identifier := by
  unfold identifierActions identifierCounts FeatureGraph.tokenCount?
  cases graph.treeNode? identifier with
  | none => rfl
  | some node =>
      have counted : (productEdges (graph.tokens node) (.ofList [methodNode]) .returnsTo).countP
          graph.admits = (graph.tokens node).size := by
        rw [countP_admits_productEdges (fun _ member => hasNode_of_mem_tokens member),
          size_singleton_ofList, Nat.mul_one]
        intro dest member
        rw [mem_singleton_ofList.mp member, known]
      have ambiguous : ∀ sources dests : Nat, dests = 1 →
          (if sources ≠ 1 || dests ≠ 1 then 1 else 0) = (decide (sources ≠ 1)).toNat := by
        rintro sources _ rfl
        by_cases one : sources = 1 <;> simp [one]
      simp only [rowCounts_cons, rowCounts_nil, add_zero, Action.counts, counted,
        ambiguous _ _ (size_singleton_ofList methodNode)]
      simp only [LinkStats.zero_def, LinkStats.advance, LinkStats.add_def, LinkStats.add,
        Nat.zero_add]
      rfl

theorem rowCounts_returnedActions (intact : graph.Intact) (identifiers : List TreeId) :
    rowCounts graph (returnedActions graph method identifiers) =
      returnedCounts graph method identifiers := by
  unfold returnedActions returnedCounts
  cases identifiers with
  | nil => cases graph.treeNode? method <;> rfl
  | cons first rest =>
      rw [List.isEmpty_cons, if_neg Bool.false_ne_true]
      cases registered : graph.treeNode? method with
      | none =>
          simp only [rowCounts_cons, rowCounts_nil, add_zero, zero_add, Action.counts]
          simp only [LinkStats.zero_def, LinkStats.advance, Nat.zero_add]
          rfl
      | some methodNode =>
          have known := intact.registered method methodNode registered
          simp only [rowCounts_cons, rowCounts_flatMap, rowCounts_identifierActions known]
          rfl

theorem methodActions_eq (declaration : TreeId × TreeId) :
    methodActions tree mode graph declaration =
      .tally .returnsSeen (tree.statements mode declaration.2).length ::
        .tally .bareReturns
          ((tree.statements mode declaration.2).countP fun id => (tree.returned? id).isNone) ::
        returnedActions graph declaration.1 (tree.returnedIdentifiers mode declaration.2) := by
  have bare : (tree.returns mode declaration.2).count none =
      (tree.statements mode declaration.2).countP fun id => (tree.returned? id).isNone := by
    simp only [SyntaxTree.returns_eq_map, List.count, List.countP_map, Function.comp_def,
      Option.beq_none]
  have seen : (tree.returns mode declaration.2).length =
      (tree.statements mode declaration.2).length := by
    rw [SyntaxTree.returns_eq_map, List.length_map]
  simp only [methodActions]
  rw [bare, seen]
  rfl

theorem rowCounts_methodActions (intact : graph.Intact) (declaration : TreeId × TreeId) :
    rowCounts graph (methodActions tree mode graph declaration) =
      methodCounts tree mode graph declaration := by
  rw [methodActions_eq, methodCounts, rowCounts_cons, rowCounts_cons,
    rowCounts_returnedActions intact, ← add_assoc]
  apply congrArg (· + returnedCounts graph declaration.1 _)
  simp only [searchCounts, Action.counts, LinkStats.zero_def, LinkStats.advance, LinkStats.add_def,
    LinkStats.add, Nat.zero_add, Nat.add_zero]

theorem linkReturns_settled (rooted : tree.root = some root) (intact : graph.Intact) :
    (linkReturns tree config graph).stats.settled =
      ((tree.methodBodies root).map (methodCounts tree config.returnMode graph)).sum := by
  have counted : (linkReturns tree config graph).stats.settled =
      rowCounts graph (returnActions tree config.returnMode root graph) := by
    rw [linkReturns_of_root rooted (.refl graph)]
    exact (Progress.performAll_settled config (.start graph) _).trans (zero_add _)
  rw [counted, returnActions, rowCounts_flatMap]
  simp only [rowCounts_methodActions intact]

/-- A counter of the pass is a sum over methods: of what the search of the body counts towards it,
and of what the method returns does. -/
theorem linkReturns_field (rooted : tree.root = some root) (intact : graph.Intact)
    (field : LinkStats → Nat) (zero : field 0 = 0)
    (adds : ∀ left right, field (left + right) = field left + field right)
    (settles : ∀ stats : LinkStats, field stats.settled = field stats) :
    field (linkReturns tree config graph).stats =
      ((tree.methodBodies root).map fun (method, body) =>
        let identifiers := tree.returnedIdentifiers config.returnMode body
        field (searchCounts tree config.returnMode body) +
          if (graph.treeNode? method).isSome then
            field { methodsLinked := (!identifiers.isEmpty).toNat } +
              (identifiers.map fun id => field (identifierCounts graph id)).sum
          else
            field { missingFeatureNode := identifiers.length }).sum := by
  rw [← settles, linkReturns_settled rooted intact, LinkStats.field_sum field zero adds]
  apply congrArg List.sum
  apply List.map_congr_left
  intro declaration _
  rw [methodCounts, adds, returnedCounts, apply_ite field, adds, LinkStats.field_sum field zero adds]

/-! ## The counters -/

/-- The counters of a run of the return pass, by the methods with a body that it comes to. -/
structure LinkStats.CountsReturns (stats : LinkStats) (tree : SyntaxTree) (mode : ReturnMode)
    (graph : FeatureGraph) (declarations : List (TreeId × TreeId)) : Prop where
  returnsSeen : stats.returnsSeen =
    (declarations.map fun (_, body) => (tree.statements mode body).length).sum
  bareReturns : stats.bareReturns =
    (declarations.map fun (_, body) =>
      (tree.statements mode body).countP fun id => (tree.returned? id).isNone).sum
  /-- What is seen and not bare is an expression that was collected. -/
  collected : stats.returnsSeen = stats.bareReturns +
    (declarations.map fun (_, body) =>
      ((tree.statements mode body).filterMap tree.returned?).length).sum
  methodsLinked : stats.methodsLinked =
    declarations.countP fun (method, body) =>
      (graph.treeNode? method).isSome && !(tree.returnedIdentifiers mode body).isEmpty
  sitesVisited : stats.sitesVisited =
    ((declarations.filter fun (method, body) =>
        (graph.treeNode? method).isSome && !(tree.returnedIdentifiers mode body).isEmpty).map
      fun (_, body) => (tree.returnedIdentifiers mode body).length).sum
  missingFeatureNode : stats.missingFeatureNode =
    ((declarations.filter fun (method, _) => (graph.treeNode? method).isNone).map
      fun (_, body) => (tree.returnedIdentifiers mode body).length).sum +
    ((declarations.filter fun (method, _) => (graph.treeNode? method).isSome).map
      fun (_, body) => (tree.returnedIdentifiers mode body).countP fun id =>
        (graph.treeNode? id).isNone).sum
  ambiguousTokens : stats.ambiguousTokens =
    ((declarations.filter fun (method, _) => (graph.treeNode? method).isSome).map
      fun (_, body) => ((tree.returnedIdentifiers mode body).filterMap graph.tokenCount?).countP
        (· ≠ 1)).sum
  edges : stats.edgesAdded + stats.edgesExisting =
    ((declarations.filter fun (method, _) => (graph.treeNode? method).isSome).map
      fun (_, body) => ((tree.returnedIdentifiers mode body).filterMap graph.tokenCount?).sum).sum
  skippedOutsideMethod : stats.skippedOutsideMethod = 0
  skippedUnanalyzed : stats.skippedUnanalyzed = 0
  skippedNoFact : stats.skippedNoFact = 0

theorem linkReturns_counts (rooted : tree.root = some root) (intact : graph.Intact) :
    (linkReturns tree config graph).stats.CountsReturns tree config.returnMode graph
      (tree.methodBodies root) := by
  have field := @linkReturns_field tree config graph root rooted intact
  have seen : (linkReturns tree config graph).stats.returnsSeen =
      ((tree.methodBodies root).map fun (_, body) =>
        (tree.statements config.returnMode body).length).sum := by
    rw [field (fun stats => stats.returnsSeen) rfl (fun _ _ => rfl) fun _ => rfl]
    simp [searchCounts, identifierCounts]
  have bare : (linkReturns tree config graph).stats.bareReturns =
      ((tree.methodBodies root).map fun (_, body) =>
        (tree.statements config.returnMode body).countP fun id =>
          (tree.returned? id).isNone).sum := by
    rw [field (fun stats => stats.bareReturns) rfl (fun _ _ => rfl) fun _ => rfl]
    simp [searchCounts, identifierCounts]
  refine ⟨seen, bare, ?collected, ?methodsLinked, ?sitesVisited, ?missingFeatureNode,
    ?ambiguousTokens, ?edges, ?skippedOutsideMethod, ?skippedUnanalyzed, ?skippedNoFact⟩
  case collected =>
    rw [seen, bare, ← List.sum_map_add]
    exact sum_map_congr fun _ => length_eq_countP_isNone_add tree.returned? _
  -- The other counters are compared method by method, by whether the method is registered.
  case methodsLinked =>
    rw [field (fun stats => stats.methodsLinked) rfl (fun _ _ => rfl) fun _ => rfl, countP_eq_sum]
    apply sum_map_congr
    rintro ⟨method, body⟩
    cases registered : graph.treeNode? method <;>
      simp [searchCounts, identifierCounts, registered]
  case sitesVisited =>
    rw [field (fun stats => stats.sitesVisited) rfl (fun _ _ => rfl) fun _ => rfl, sum_map_filter]
    apply sum_map_congr
    rintro ⟨method, body⟩
    cases registered : graph.treeNode? method <;>
      cases returned : tree.returnedIdentifiers config.returnMode body <;>
        simp [searchCounts, identifierCounts, registered, returned, Nat.add_comm]
  case missingFeatureNode =>
    rw [field (fun stats => stats.missingFeatureNode) rfl (fun _ _ => rfl) fun _ => rfl,
      sum_map_filter, sum_map_filter, ← List.sum_map_add]
    apply sum_map_congr
    rintro ⟨method, body⟩
    cases registered : graph.treeNode? method <;>
      simp [searchCounts, identifierCounts, registered, countP_eq_sum]
  case ambiguousTokens =>
    rw [field (fun stats => stats.ambiguousTokens) rfl (fun _ _ => rfl) fun _ => rfl,
      sum_map_filter]
    apply sum_map_congr
    rintro ⟨method, body⟩
    simp only [countP_filterMap_any]
    cases graph.treeNode? method <;> simp [searchCounts, identifierCounts, countP_eq_sum]
  case edges =>
    rw [field (fun stats => stats.edgesAdded + stats.edgesExisting) rfl LinkStats.edges_add
      fun _ => Nat.zero_add _, sum_map_filter]
    apply sum_map_congr
    rintro ⟨method, body⟩
    have counts := sum_map_filterMap graph.tokenCount? id
      (tree.returnedIdentifiers config.returnMode body)
    simp only [List.map_id, Option.map_id_fun, id_eq] at counts
    cases registered : graph.treeNode? method <;>
      simp [searchCounts, identifierCounts, registered, counts]
  case skippedOutsideMethod =>
    rw [field (fun stats => stats.skippedOutsideMethod) rfl (fun _ _ => rfl) fun _ => rfl]
    simp [searchCounts, identifierCounts]
  case skippedUnanalyzed =>
    rw [field (fun stats => stats.skippedUnanalyzed) rfl (fun _ _ => rfl) fun _ => rfl]
    simp [searchCounts, identifierCounts]
  case skippedNoFact =>
    rw [field (fun stats => stats.skippedNoFact) rfl (fun _ _ => rfl) fun _ => rfl]
    simp [searchCounts, identifierCounts]

end

/-- The counters of a run over a valid graph are exact.  Methods, return statements and the
identifiers of one expression are gone through without repetitions.  What is seen and what is bare
depends on the search of each body alone, and the other counters on the identifiers of the selected
expressions, on whether they and the method are registered, and on their tokens. -/
theorem linkReturns_counters (tree : SyntaxTree) (config : LinkConfig) (graph : FeatureGraph)
    {root : TreeId} (rooted : tree.root = some root) (valid : graph.defect? = none) :
    let mode := config.returnMode
    let selected := fun body => mode.select ((tree.statements mode body).filterMap tree.returned?)
    ((tree.methodBodies root).map Prod.fst).Nodup ∧
      (∀ method body, (method, body) ∈ tree.methodBodies root ↔
        tree.Leads root method ∧
          ∃ shape, tree.shape? method = some shape ∧ shape.methodBody? = some body) ∧
      (∀ body, (tree.statements mode body).Nodup) ∧
      (∀ body statement, statement ∈ tree.statements mode body ↔
        tree.Reaches (mode.searches body) body statement ∧
          ∃ expression, tree.shape? statement = some (.returnStatement expression)) ∧
      (∀ body expression, expression ∈ selected body ↔ tree.Selects body expression mode) ∧
      (∀ body, tree.returnedIdentifiers mode body = (selected body).flatMap tree.identifiers) ∧
      (∀ expression, (tree.identifiers expression).Nodup) ∧
      (∀ expression identifier, identifier ∈ tree.identifiers expression ↔
        tree.Leads expression identifier ∧
          ∃ shape, tree.shape? identifier = some shape ∧ shape.isIdentifier = true) ∧
      (linkReturns tree config graph).stats.CountsReturns tree mode graph
        (tree.methodBodies root) := by
  intro mode selected
  have collected : ∀ body, selected body =
      mode.select ((tree.returns mode body).filterMap id) := by
    intro body
    rw [SyntaxTree.returns_eq_map, List.filterMap_map, Function.id_comp]
  refine ⟨SyntaxTree.methodBodies_nodup, fun _ _ => SyntaxTree.mem_methodBodies_iff,
    fun _ => SyntaxTree.statements_nodup, fun _ _ => SyntaxTree.mem_statements_iff, ?_, ?_,
    fun _ => SyntaxTree.walk_nodup.filter _, fun _ _ => SyntaxTree.mem_identifiers_iff,
    linkReturns_counts rooted (defect?_eq_none_iff.mp valid)⟩
  · intro body expression
    rw [collected]
    exact SyntaxTree.mem_select_iff
  · intro body
    rw [collected, SyntaxTree.returnedIdentifiers]

/-- A class with two methods.  One has three return statements: of a variable, of nothing, and of
two variables. -/
def SyntaxTree.patchwork : SyntaxTree where
  elements :=
    #[⟨⟨0⟩, .identifier "x"⟩, ⟨⟨1⟩, .returnStatement (some ⟨0⟩)⟩, ⟨⟨2⟩, .returnStatement none⟩,
      ⟨⟨3⟩, .identifier "y"⟩, ⟨⟨4⟩, .identifier "z"⟩, ⟨⟨5⟩, .binary "+" ⟨3⟩ ⟨4⟩⟩,
      ⟨⟨6⟩, .returnStatement (some ⟨5⟩)⟩, ⟨⟨7⟩, .block [⟨1⟩, ⟨2⟩, ⟨6⟩]⟩,
      ⟨⟨8⟩, .methodDecl "f" [] (some ⟨7⟩)⟩, ⟨⟨9⟩, .identifier "x"⟩,
      ⟨⟨10⟩, .returnStatement (some ⟨9⟩)⟩, ⟨⟨11⟩, .methodDecl "g" [] (some ⟨10⟩)⟩,
      ⟨⟨12⟩, .classDecl "C" [⟨8⟩, ⟨11⟩]⟩, ⟨⟨13⟩, .compilationUnit [⟨12⟩]⟩]
  root := some ⟨13⟩

/-- A skeleton in which the second method and one variable are not registered, and another variable
has the node of the unit, which has no token. -/
def FeatureGraph.patchwork : FeatureGraph :=
  let graph : FeatureGraph := .skeleton .patchwork
  { graph with treeNodes := ((graph.treeNodes.erase ⟨3⟩).erase ⟨11⟩).insert ⟨4⟩ ⟨13⟩ }

theorem patchwork_counters :
    let stats := (linkReturns SyntaxTree.patchwork {} FeatureGraph.patchwork).stats
    SyntaxTree.patchwork.root = some ⟨13⟩ ∧ FeatureGraph.patchwork.defect? = none ∧
      stats.returnsSeen = 4 ∧ stats.bareReturns = 1 ∧ stats.methodsLinked = 1 ∧
      stats.sitesVisited = 3 ∧ stats.missingFeatureNode = 2 ∧ stats.ambiguousTokens = 1 ∧
      stats.edgesAdded + stats.edgesExisting = 1 ∧ stats.skippedOutsideMethod = 0 ∧
      stats.skippedUnanalyzed = 0 ∧ stats.skippedNoFact = 0 := by
  intro stats
  have rooted : SyntaxTree.patchwork.root = some ⟨13⟩ := rfl
  have valid : FeatureGraph.patchwork.defect? = none := by decide +kernel
  have declarations : SyntaxTree.patchwork.methodBodies ⟨13⟩ = [(⟨8⟩, ⟨7⟩), (⟨11⟩, ⟨10⟩)] := by
    cbv
  have first : SyntaxTree.patchwork.statements .all ⟨7⟩ = [⟨1⟩, ⟨2⟩, ⟨6⟩] := by cbv
  have second : SyntaxTree.patchwork.statements .all ⟨10⟩ = [⟨10⟩] := by cbv
  have returned : SyntaxTree.patchwork.returnedIdentifiers .all ⟨7⟩ = [⟨0⟩, ⟨3⟩, ⟨4⟩] := by cbv
  have other : SyntaxTree.patchwork.returnedIdentifiers .all ⟨10⟩ = [⟨9⟩] := by cbv
  have known : FeatureGraph.patchwork.treeNode? ⟨8⟩ = some ⟨8⟩ := by decide +kernel
  have unknown : FeatureGraph.patchwork.treeNode? ⟨11⟩ = none := by decide +kernel
  have bare : [⟨1⟩, ⟨2⟩, ⟨6⟩].countP (fun id => (SyntaxTree.patchwork.returned? id).isNone) = 1 := by
    decide
  have valued : SyntaxTree.patchwork.returned? ⟨10⟩ = some ⟨9⟩ := rfl
  have missing : [⟨0⟩, ⟨3⟩, ⟨4⟩].countP (fun id => (FeatureGraph.patchwork.treeNode? id).isNone) =
      1 := by decide +kernel
  have tokens : [⟨0⟩, ⟨3⟩, ⟨4⟩].filterMap FeatureGraph.patchwork.tokenCount? = [1, 0] := by
    decide +kernel
  obtain ⟨_, _, _, _, _, _, _, _, counts⟩ :=
    linkReturns_counters SyntaxTree.patchwork {} FeatureGraph.patchwork rooted valid
  change stats.CountsReturns SyntaxTree.patchwork .all FeatureGraph.patchwork _ at counts
  rw [declarations] at counts
  refine ⟨rooted, valid, counts.returnsSeen.trans ?_, counts.bareReturns.trans ?_,
    counts.methodsLinked.trans ?_, counts.sitesVisited.trans ?_,
    counts.missingFeatureNode.trans ?_, counts.ambiguousTokens.trans ?_, counts.edges.trans ?_,
    counts.skippedOutsideMethod, counts.skippedUnanalyzed, counts.skippedNoFact⟩
  all_goals
    simp [first, second, returned, other, known, unknown, bare, valued, missing, tokens]

end FlowLink
