import FlowLink.Link.Returns
import FlowLink.Proofs.Link.Actions
import FlowLink.Proofs.Tree.Reachability

namespace FlowLink

open Std

/-! # The edges of the return pass

Which returned expressions count is said without the pass: in one mode by the paths that lead to a
return statement, in the other by the order in which a search of the body meets them.  The edges of
the pass are then read off the row of actions that it performs.
-/

namespace Shape

def isReturn : Shape → Bool
  | returnStatement _ => true
  | _ => false

/-- Returns inside of these belong to them and not to the method around them. -/
def keepsReturns : Shape → Bool
  | classDecl .. | lambda .. => true
  | _ => false

end Shape

namespace SyntaxTree

def returned? (tree : SyntaxTree) (id : TreeId) : Option TreeId :=
  match tree.shape? id with
  | some (.returnStatement expression) => expression
  | _ => none

/-- The expression is returned in a body and counts.  Either it is any expression that the body's
own return statements have, or the last one that a search of the whole body meets. -/
def Selects (tree : SyntaxTree) (body expression : TreeId) : ReturnMode → Prop
  | .all => ∃ statement,
      tree.Reaches (fun id shape => !shape.isReturn && (!shape.keepsReturns || id = body)) body
        statement ∧ tree.returned? statement = some expression
  | .last => ∃ before statement after,
      tree.recursiveWalk (fun _ shape => !shape.isReturn) body = before ++ statement :: after ∧
        tree.returned? statement = some expression ∧ ∀ later ∈ after, tree.returned? later = none

/-- A method that the root leads to has a body, and the identifier is part of a returned expression
of this body that counts. -/
inductive Returns (tree : SyntaxTree) (mode : ReturnMode) (method identifier : TreeId) : Prop
  | intro {root body expression : TreeId} {declaration shape : Shape}
      (rooted : tree.root = some root) (leads : tree.Leads root method)
      (declared : tree.shape? method = some declaration)
      (hasBody : declaration.methodBody? = some body)
      (selected : tree.Selects body expression mode) (contained : tree.Leads expression identifier)
      (found : tree.shape? identifier = some shape) (isIdentifier : shape.isIdentifier = true)

variable {tree : SyntaxTree} {mode : ReturnMode} {body expression identifier method root : TreeId}

theorem searches_all :
    ReturnMode.all.searches body =
      fun id shape => !shape.isReturn && (!shape.keepsReturns || id = body) := by
  funext id shape
  cases shape <;> simp [ReturnMode.searches, Shape.isReturn, Shape.keepsReturns]

theorem searches_last : ReturnMode.last.searches body = fun _ shape => !shape.isReturn := by
  funext id shape
  cases shape <;> simp [ReturnMode.searches, Shape.isReturn]

theorem returned?_eq_some_iff {id : TreeId} :
    tree.returned? id = some expression ↔
      tree.shape? id = some (.returnStatement (some expression)) := by
  unfold returned?
  split
  · simp_all
  · simp_all

theorem returns_filterMap :
    (tree.returns mode body).filterMap id =
      (tree.walk (mode.searches body) body).filterMap tree.returned? := by
  rw [returns, List.filterMap_filterMap]
  apply List.filterMap_congr
  intro statement _
  unfold returned?
  cases tree.shape? statement with
  | none => rfl
  | some shape => cases shape <;> rfl

theorem mem_select_iff :
    expression ∈ mode.select ((tree.returns mode body).filterMap id) ↔
      tree.Selects body expression mode := by
  rw [returns_filterMap]
  cases mode with
  | all => simp only [ReturnMode.select, List.mem_filterMap, mem_walk_iff, searches_all, Selects]
  | last =>
      rw [searches_last, walk_eq_recursiveWalk, ReturnMode.select, Option.mem_toList,
        List.getLast?_filterMap, List.findSome?_eq_some_iff]
      constructor
      · intro first
        obtain ⟨later, statement, earlier, split, returned, none⟩ := first
        refine ⟨earlier.reverse, statement, later.reverse, ?_, returned, ?_⟩
        · simpa using congrArg List.reverse split
        · intro other member
          exact none other (List.mem_reverse.mp member)
      · intro last
        obtain ⟨before, statement, after, split, returned, none⟩ := last
        refine ⟨after.reverse, statement, before.reverse, ?_, returned, ?_⟩
        · rw [split]
          simp
        · intro other member
          exact none other (List.mem_reverse.mp member)

theorem mem_identifiers_iff :
    identifier ∈ tree.identifiers expression ↔
      tree.Leads expression identifier ∧
        ∃ shape, tree.shape? identifier = some shape ∧ shape.isIdentifier = true := by
  rw [identifiers, List.mem_filter, mem_preorder_iff, Option.any_eq_true]

theorem mem_methodBodies_iff :
    (method, body) ∈ tree.methodBodies root ↔
      tree.Leads root method ∧
        ∃ shape, tree.shape? method = some shape ∧ shape.methodBody? = some body := by
  simp only [methodBodies, List.mem_filterMap, mem_preorder_iff, Option.map_eq_some_iff,
    Option.bind_eq_some_iff, Prod.mk.injEq]
  constructor
  · intro declared
    obtain ⟨_, leads, _, ⟨shape, found, hasBody⟩, rfl, rfl⟩ := declared
    exact ⟨leads, shape, found, hasBody⟩
  · intro declared
    obtain ⟨leads, shape, found, hasBody⟩ := declared
    exact ⟨method, leads, body, ⟨shape, found, hasBody⟩, rfl, rfl⟩

theorem methodBodies_isChild (declared : (method, body) ∈ tree.methodBodies root) :
    ∃ name params, tree.shape? method = some (.methodDecl name params (some body)) ∧
      body ∈ (Shape.methodDecl name params (some body)).children := by
  obtain ⟨_, shape, found, hasBody⟩ := mem_methodBodies_iff.mp declared
  cases shape with
  | methodDecl name params _ =>
      cases hasBody
      exact ⟨name, params, found, by simp [Shape.children]⟩
  | _ => contradiction

end SyntaxTree

def identifierActions (graph : FeatureGraph) (methodNode : NodeId) (identifier : TreeId) :
    List Action :=
  .tally .sitesVisited 1 ::
    match graph.treeNode? identifier with
    | none => [.notify (.identifierWithoutNode identifier), .tally .missingFeatureNode 1]
    | some node => [.link ⟨node, methodNode, .returnsTo⟩ (graph.tokens node) (.ofList [methodNode])]

def returnedActions (graph : FeatureGraph) (method : TreeId) (identifiers : List TreeId) :
    List Action :=
  if identifiers.isEmpty then
    []
  else
    match graph.treeNode? method with
    | none =>
      [.notify (.methodWithoutNode method), .tally .missingFeatureNode identifiers.length]
    | some methodNode =>
      .tally .methodsLinked 1 :: identifiers.flatMap (identifierActions graph methodNode)

def methodActions (tree : SyntaxTree) (mode : ReturnMode) (graph : FeatureGraph)
    (declaration : TreeId × TreeId) : List Action :=
  let returns := tree.returns mode declaration.2
  let expressions := returns.filterMap id
  .tally .returnsSeen returns.length ::
    .tally .bareReturns (returns.count none) ::
    returnedActions graph declaration.1 ((mode.select expressions).flatMap tree.identifiers)

def returnActions (tree : SyntaxTree) (mode : ReturnMode) (root : TreeId) (graph : FeatureGraph) :
    List Action :=
  (tree.methodBodies root).flatMap (methodActions tree mode graph)

section

variable {tree : SyntaxTree} {mode : ReturnMode} {config : LinkConfig} {graph : FeatureGraph}
  {progress : Progress} {method : TreeId} {edge : Edge}

theorem mem_identifierActions {methodNode : NodeId} {identifier : TreeId} :
    edge ∈ requested (identifierActions graph methodNode identifier) ↔
      ∃ node, graph.treeNode? identifier = some node ∧ edge.source ∈ graph.tokens node ∧
        edge.target = methodNode ∧ edge.kind = .returnsTo := by
  cases registered : graph.treeNode? identifier with
  | none => simp [identifierActions, registered, Action.edges]
  | some node =>
      simp only [identifierActions, registered, requested_cons, requested_nil, Action.edges,
        List.nil_append, List.append_nil, mem_productEdges, ExtTreeSet.mem_ofList,
        List.contains_iff_mem, List.mem_singleton, Option.some.injEq, exists_eq_left']

theorem mem_returnedActions {identifiers : List TreeId} :
    edge ∈ requested (returnedActions graph method identifiers) ↔
      graph.treeNode? method = some edge.target ∧ edge.kind = .returnsTo ∧
        ∃ identifier ∈ identifiers, ∃ node, graph.treeNode? identifier = some node ∧
          edge.source ∈ graph.tokens node := by
  unfold returnedActions
  cases identifiers with
  | nil => simp
  | cons first rest =>
      rw [List.isEmpty_cons, if_neg Bool.false_ne_true]
      cases registered : graph.treeNode? method with
      | none => simp [Action.edges]
      | some methodNode =>
          simp only [requested_cons, Action.edges, List.nil_append, mem_requested_flatMap,
            mem_identifierActions, Option.some.injEq]
          constructor
          · intro request
            obtain ⟨identifier, member, node, isNode, isSource, rfl, recorded⟩ := request
            exact ⟨rfl, recorded, identifier, member, node, isNode, isSource⟩
          · intro request
            obtain ⟨rfl, recorded, identifier, member, node, isNode, isSource⟩ := request
            exact ⟨identifier, member, node, isNode, isSource, rfl, recorded⟩

theorem mem_methodActions {body : TreeId} :
    edge ∈ requested (methodActions tree mode graph (method, body)) ↔
      graph.treeNode? method = some edge.target ∧ edge.kind = .returnsTo ∧
        ∃ expression identifier node, tree.Selects body expression mode ∧
          identifier ∈ tree.identifiers expression ∧ graph.treeNode? identifier = some node ∧
          edge.source ∈ graph.tokens node := by
  simp only [methodActions, requested_cons, Action.edges, List.nil_append, mem_returnedActions,
    List.mem_flatMap, SyntaxTree.mem_select_iff]
  apply and_congr_right
  intro _
  apply and_congr_right
  intro _
  constructor
  · intro request
    obtain ⟨identifier, ⟨expression, selected, contained⟩, node, ends⟩ := request
    exact ⟨expression, identifier, node, selected, contained, ends⟩
  · intro request
    obtain ⟨expression, identifier, node, selected, contained, ends⟩ := request
    exact ⟨identifier, ⟨expression, selected, contained⟩, node, ends⟩

theorem identifierActions_semantic {methodNode : NodeId} (identifier : TreeId) :
    ∀ edge ∈ requested (identifierActions graph methodNode identifier),
      edge.kind.isSkeleton = false := by
  intro edge member
  obtain ⟨_, _, _, _, recorded⟩ := mem_identifierActions.mp member
  rw [recorded]
  rfl

theorem methodActions_semantic (declaration : TreeId × TreeId) :
    ∀ edge ∈ requested (methodActions tree mode graph declaration),
      edge.kind.isSkeleton = false := by
  intro edge member
  obtain ⟨_, recorded, _⟩ := mem_methodActions.mp member
  rw [recorded]
  rfl

namespace Progress

theorem count_enriches (update : LinkStats → LinkStats) (enriches : progress.graph.Enriches graph) :
    (progress.count update).graph.Enriches graph := enriches

theorem linkIdentifier_eq_performAll {methodNode : NodeId} (identifier : TreeId)
    (enriches : progress.graph.Enriches graph) :
    linkIdentifier config methodNode progress identifier =
      progress.performAll config (identifierActions graph methodNode identifier) := by
  unfold linkIdentifier identifierActions
  simp only
  rw [(count_enriches _ enriches).treeNode?]
  cases graph.treeNode? identifier with
  | none => rfl
  | some node =>
      simp only [← enriches.tokens]
      rfl

theorem linkIdentifiers_eq_performAll (identifiers : List TreeId)
    (enriches : progress.graph.Enriches graph) :
    linkIdentifiers config method identifiers progress =
      progress.performAll config (returnedActions graph method identifiers) := by
  unfold linkIdentifiers returnedActions
  cases identifiers.isEmpty with
  | true => rfl
  | false =>
      simp only [enriches.treeNode?, Bool.false_eq_true, if_false]
      cases graph.treeNode? method with
      | none => rfl
      | some methodNode =>
          exact foldl_eq_performAll identifiers
            (fun progress identifier enriches => linkIdentifier_eq_performAll identifier enriches)
            identifierActions_semantic (count_enriches _ enriches)

theorem linkMethod_eq_performAll (declaration : TreeId × TreeId)
    (enriches : progress.graph.Enriches graph) :
    linkMethod tree config progress declaration =
      progress.performAll config (methodActions tree config.returnMode graph declaration) :=
  linkIdentifiers_eq_performAll _ (count_enriches _ enriches)

end Progress

/-- The return pass performs actions that can be drawn up from any graph that was only enriched
since. -/
theorem linkReturns_of_root {root : TreeId} {after : FeatureGraph}
    (rooted : tree.root = some root) (enriches : after.Enriches graph) :
    linkReturns tree config after =
      let linked := (Progress.start after).performAll config
        (returnActions tree config.returnMode root graph)
      linked.report (.returnsFinished linked.stats.edgesAdded linked.stats.methodsLinked) := by
  unfold linkReturns
  rw [rooted]
  simp only
  rw [Progress.foldl_eq_performAll (tree.methodBodies root)
    (fun progress declaration enriches => Progress.linkMethod_eq_performAll declaration enriches)
    methodActions_semantic enriches]
  rfl

theorem linkReturns_of_rootless (rootless : tree.root = none) :
    linkReturns tree config graph =
      (Progress.start graph).report (.unitWithoutRoot .returnsTo) := by
  unfold linkReturns
  rw [rootless]

theorem linkReturns_graph_of_root {root : TreeId} (rooted : tree.root = some root) :
    (linkReturns tree config graph).graph =
      graph.putEdges (requested (returnActions tree config.returnMode root graph)) := by
  rw [linkReturns_of_root rooted (.refl graph)]
  exact Progress.performAll_graph config (.start graph) _

theorem mem_returnActions {root : TreeId} (rooted : tree.root = some root) :
    edge ∈ requested (returnActions tree mode root graph) ↔
      edge.kind = .returnsTo ∧ ∃ method identifier node, tree.Returns mode method identifier ∧
        graph.treeNode? method = some edge.target ∧ graph.treeNode? identifier = some node ∧
        edge.source ∈ graph.tokens node := by
  rw [returnActions, mem_requested_flatMap]
  constructor
  · intro request
    obtain ⟨⟨method, body⟩, isMethod, asked⟩ := request
    obtain ⟨leads, _, declared, hasBody⟩ := SyntaxTree.mem_methodBodies_iff.mp isMethod
    obtain ⟨isTarget, recorded, expression, identifier, node, selected, contained, isNode,
      isSource⟩ := mem_methodActions.mp asked
    obtain ⟨contained, _, found, isIdentifier⟩ := SyntaxTree.mem_identifiers_iff.mp contained
    exact ⟨recorded, method, identifier, node,
      .intro rooted leads declared hasBody selected contained found isIdentifier, isTarget, isNode,
      isSource⟩
  · intro flow
    obtain ⟨recorded, method, identifier, node, returned, isTarget, isNode, isSource⟩ := flow
    obtain ⟨rooted', leads, declared, hasBody, selected, contained, found, isIdentifier⟩ := returned
    cases rooted.symm.trans rooted'
    exact ⟨_, SyntaxTree.mem_methodBodies_iff.mpr ⟨leads, _, declared, hasBody⟩,
      mem_methodActions.mpr ⟨isTarget, recorded, _, identifier, node, selected,
        SyntaxTree.mem_identifiers_iff.mpr ⟨contained, _, found, isIdentifier⟩, isNode, isSource⟩⟩

/-- The return pass leaves the edges that were there and adds those from the tokens of each
identifier that a method returns to the method's own node, if the graph has that node, no others.
Tokens are those of the graph before the pass. -/
theorem linkReturns_hasEdge_iff (tree : SyntaxTree) (config : LinkConfig) (graph : FeatureGraph)
    (edge : Edge) :
    (linkReturns tree config graph).graph.hasEdge edge = true ↔
      graph.hasEdge edge = true ∨
        edge.kind = .returnsTo ∧ graph.hasNode edge.target = true ∧
          ∃ method identifier node, tree.Returns config.returnMode method identifier ∧
            graph.treeNode? method = some edge.target ∧ graph.treeNode? identifier = some node ∧
            edge.source ∈ graph.tokens node := by
  cases rooted : tree.root with
  | none =>
      rw [linkReturns_of_rootless rooted]
      constructor
      · exact Or.inl
      · intro edges
        rcases edges with present | ⟨_, _, _, _, _, ⟨rooted', _⟩, _⟩
        · exact present
        · rw [rooted] at rooted'
          contradiction
  | some root =>
      rw [linkReturns_graph_of_root rooted, FeatureGraph.hasEdge_putEdges, mem_returnActions rooted]
      apply or_congr_right
      constructor
      · intro request
        obtain ⟨⟨recorded, requests⟩, ends⟩ := request
        rw [FeatureGraph.hasEnds, Bool.and_eq_true] at ends
        exact ⟨recorded, ends.2, requests⟩
      · intro flow
        obtain ⟨recorded, hasTarget, method, identifier, node, returned, isTarget, isNode,
          isSource⟩ := flow
        refine ⟨⟨recorded, method, identifier, node, returned, isTarget, isNode, isSource⟩, ?_⟩
        rw [FeatureGraph.hasEnds, Bool.and_eq_true]
        exact ⟨FeatureGraph.hasNode_of_mem_tokens isSource, hasTarget⟩

end

end FlowLink
