import FlowLink.Proofs.Graph.Representation
import FlowLink.Proofs.Link.Consultation
import FlowLink.Proofs.Link.DataflowCounters
import FlowLink.Proofs.Link.ReturnCounters
import FlowLink.Proofs.Link.ReturnOwners
import Mathlib.Data.List.Dedup

namespace FlowLink

open Std

/-! # Edge counts over a plain skeleton

In a plain skeleton an element has one token or none, and no two elements share one.  So what leads
to a token or to a method after linking can be counted by elements: a site has one edge for each
candidate that has a token, and a method one for each identifier that it returns.
-/

/-! ## Elements with a token -/

/-- The kinds of elements that have a token in a plain skeleton. -/
def Shape.isSpelled : Shape → Bool
  | identifier _ | variableDecl .. | methodDecl .. | classDecl .. | literal _ => true
  | _ => false

theorem Shape.isSpelled_eq (shape : Shape) : shape.isSpelled = shape.token?.isSome := by
  cases shape <;> rfl

namespace SyntaxTree

variable {tree : SyntaxTree} {id : TreeId} {token : NodeId} {shape : Shape}

def isSpelled (tree : SyntaxTree) (id : TreeId) : Bool := (tree.shape? id).any Shape.isSpelled

theorem isSome_tokenNode? : (tree.tokenNode? id).isSome = tree.isSpelled id := by
  rw [tokenNode?, Option.isSome_map, isSpelled]
  cases tree.shape? id with
  | none => rfl
  | some shape => exact shape.isSpelled_eq.symm

theorem isSpelled_of_isSite (found : tree.shape? id = some shape) (isSite : shape.isSite = true) :
    tree.isSpelled id = true := by
  rw [isSpelled, found]
  cases shape <;> first | rfl | contradiction

theorem tokenNode?_of_isSpelled (spelled : tree.isSpelled id = true) :
    tree.tokenNode? id = some (tree.tokenSlot id) := by
  rw [← isSome_tokenNode?, Option.isSome_iff_exists] at spelled
  obtain ⟨token, represented⟩ := spelled
  rw [represented, (tokenNode?_eq_some_iff.mp represented).1]

/-- The tokens of elements without repetitions have none either. -/
theorem tokenNodes_nodup {ids : List TreeId} (nodup : ids.Nodup) :
    (ids.filterMap tree.tokenNode?).Nodup :=
  nodup.filterMap fun _ _ _ isLeft isRight => tokenNode?_injective isLeft isRight

theorem length_tokenNodes (ids : List TreeId) :
    (ids.filterMap tree.tokenNode?).length = ids.countP tree.isSpelled := by
  rw [List.length_filterMap_eq_countP]
  simp only [isSome_tokenNode?]

end SyntaxTree

namespace FeatureGraph

open SyntaxTree

variable {tree : SyntaxTree} {graph : FeatureGraph} {node : NodeId} {kind : EdgeKind} {id : TreeId}

/-- How many edges of a kind lead to a node. -/
def inDegree (graph : FeatureGraph) (node : NodeId) (kind : EdgeKind) : Nat :=
  graph.edges.countP fun edge => edge.target = node ∧ edge.kind = kind

theorem inDegree_eq_length {sources : List NodeId} (nodup : sources.Nodup)
    (lead : ∀ source, graph.hasEdge ⟨source, node, kind⟩ = true ↔ source ∈ sources) :
    graph.inDegree node kind = sources.length := by
  have distinct : (sources.map fun source => (⟨source, node, kind⟩ : Edge)).Nodup :=
    nodup.map fun _ _ same => congrArg Edge.source same
  have same : (graph.edges.filter fun edge => edge.target = node ∧ edge.kind = kind).Perm
      (sources.map fun source => ⟨source, node, kind⟩) := by
    rw [List.perm_ext_iff_of_nodup ((edges_nodup graph).filter _) distinct]
    intro edge
    rw [List.mem_filter, mem_edges_iff, List.mem_map, decide_eq_true_eq]
    constructor
    · intro listed
      obtain ⟨present, rfl, rfl⟩ := listed
      exact ⟨edge.source, (lead edge.source).mp present, rfl⟩
    · intro listed
      obtain ⟨source, member, rfl⟩ := listed
      exact ⟨(lead source).mpr member, rfl, rfl⟩
  rw [inDegree, List.countP_eq_length_filter, same.length_eq, List.length_map]

theorem inDegree_eq_zero
    (unlinked : ∀ source, graph.hasEdge ⟨source, node, kind⟩ = true → False) :
    graph.inDegree node kind = 0 :=
  inDegree_eq_length List.nodup_nil fun source =>
    ⟨fun present => (unlinked source present).elim, fun member => absurd member List.not_mem_nil⟩

theorem size_tokens_skeleton (sound : tree.Sound) :
    ((skeleton tree).tokens ⟨id.index⟩).size = (tree.isSpelled id).toNat := by
  rw [tokens_skeleton sound, ← isSome_tokenNode?]
  cases tree.tokenNode? id <;> rfl

end FeatureGraph

/-! ## What leads to a site -/

section

open FeatureGraph SyntaxTree

variable {tree : SyntaxTree} {analysis : Analysis} {config : LinkConfig} {kind : FactKind}
  {root site candidate classId method : TreeId} {outputs : MethodFacts} {source target : NodeId}

theorem FactKind.edgeKind_injective {first second : FactKind}
    (same : first.edgeKind = second.edgeKind) : first = second := by
  cases first <;> cases second <;> first | rfl | contradiction

theorem mem_getD_iff {entry : Option CandidateSet} :
    candidate ∈ entry.getD ∅ ↔ ∃ candidates, entry = some candidates ∧ candidate ∈ candidates := by
  cases entry <;> simp

/-- What the facts name for a site, by the method that the site is processed in. -/
theorem mem_namings_iff_processes {naming : Naming} (rooted : tree.root = some root) :
    naming ∈ tree.namings analysis root ↔
      ∃ classId method outputs, tree.Processes naming.site classId method ∧
        analysis.get? classId method = some outputs ∧
        naming.candidate ∈ (outputs.candidates? naming.kind naming.site).getD ∅ := by
  simp only [mem_namings_iff, mem_queries_iff, mem_getD_iff]
  constructor
  · intro named
    obtain ⟨candidates, ⟨scope, classId, method, outputs, visited, enclosed, analysed, answers⟩,
      member⟩ := named
    exact ⟨classId, method, outputs, .intro (.intro rooted visited) enclosed, analysed, candidates,
      answers.symm, member⟩
  · intro named
    obtain ⟨classId, method, outputs, ⟨⟨rooted', visited⟩, enclosed⟩, analysed, candidates, answers,
      member⟩ := named
    cases rooted.symm.trans rooted'
    exact ⟨candidates, ⟨_, classId, method, outputs, visited, enclosed, analysed, answers.symm⟩,
      member⟩

theorem mem_namings_iff_flowsTo (rooted : tree.root = some root) :
    ⟨site, kind, candidate⟩ ∈ tree.namings analysis root ↔
      FlowsTo tree analysis kind candidate site := by
  simp only [mem_namings_iff, mem_queries_iff, mem_sites_iff]
  constructor
  · intro named
    obtain ⟨candidates, ⟨_, _, _, _, ⟨⟨leads, rfl⟩, _, found, isSite⟩, enclosed, analysed,
      answers⟩, member⟩ := named
    exact .intro rooted leads found isSite enclosed analysed answers.symm member
  · intro flows
    obtain ⟨rooted', leads, found, isSite, enclosed, analysed, known, named⟩ := flows
    cases rooted.symm.trans rooted'
    exact ⟨_, ⟨_, _, _, _, ⟨⟨leads, rfl⟩, _, found, isSite⟩, enclosed, analysed, known.symm⟩, named⟩

/-- A site is processed in one method only. -/
theorem SyntaxTree.Processes.unique {otherClass otherMethod : TreeId}
    (processed : tree.Processes site classId method)
    (again : tree.Processes site otherClass otherMethod) :
    classId = otherClass ∧ method = otherMethod := by
  obtain ⟨⟨rooted, visited⟩, enclosed⟩ := processed
  obtain ⟨⟨rooted', visited'⟩, enclosed'⟩ := again
  cases rooted.symm.trans rooted'
  cases List.inj_on_of_nodup_map sites_nodup visited visited' rfl
  cases enclosed.symm.trans enclosed'
  exact ⟨rfl, rfl⟩

theorem SyntaxTree.Processes.isSpelled (processed : tree.Processes site classId method) :
    tree.isSpelled site = true := by
  obtain ⟨⟨_, visited⟩, _⟩ := processed
  obtain ⟨_, shape, found, isSite⟩ := mem_sites_iff.mp visited
  exact isSpelled_of_isSite found isSite

/-- An edge of the dataflow pass joins the token of a candidate to the token of the site. -/
theorem hasEdge_flow_skeleton (sound : tree.Sound) (rooted : tree.root = some root)
    (flows : config.runs .dataflow = true) :
    (linkUnit tree analysis config (skeleton tree)).graph.hasEdge
        ⟨source, target, kind.edgeKind⟩ = true ↔
      ∃ candidate site, ⟨site, kind, candidate⟩ ∈ tree.namings analysis root ∧
        tree.tokenNode? candidate = some source ∧ tree.tokenNode? site = some target := by
  have absent : (skeleton tree).hasEdge ⟨source, target, kind.edgeKind⟩ ≠ true := by
    intro present
    generalize isEdge : (⟨source, target, kind.edgeKind⟩ : Edge) = edge at present
    cases (hasEdge_skeleton sound).mp present <;> cases kind <;> cases isEdge
  have unasked : (⟨source, target, kind.edgeKind⟩ : Edge) ∉
      requested (returnActions tree config.returnMode root (skeleton tree)) := by
    intro asked
    have adds := returnActions_kinds _ asked
    cases kind <;> contradiction
  rw [linkUnit_hasEdge_iff rooted, or_iff_right absent, mem_dataflowActions rooted]
  simp only [mem_namings_iff_flowsTo rooted]
  constructor
  · intro flow
    obtain ⟨_, ⟨_, _, candidate, site, prior, siteNode, flowsTo, isPrior, isSite, isSource, isTarget,
      recorded⟩ | ⟨_, asked⟩⟩ := flow
    · cases FactKind.edgeKind_injective recorded
      obtain ⟨_, rfl⟩ := (treeNode?_skeleton_eq_some_iff sound).mp isPrior
      obtain ⟨_, rfl⟩ := (treeNode?_skeleton_eq_some_iff sound).mp isSite
      exact ⟨candidate, site, flowsTo, (mem_tokens_skeleton sound).mp isSource,
        (mem_tokens_skeleton sound).mp isTarget⟩
    · exact absurd asked unasked
  · intro flow
    obtain ⟨candidate, site, flowsTo, spelled, represented⟩ := flow
    obtain ⟨_, _, found, _⟩ := exists_of_tokenNode? spelled
    obtain ⟨_, _, found', _⟩ := exists_of_tokenNode? represented
    have isSource := (mem_tokens_skeleton sound).mpr spelled
    have isTarget := (mem_tokens_skeleton sound).mpr represented
    refine ⟨?_, .inl ⟨flows, kind, candidate, site, ⟨candidate.index⟩, ⟨site.index⟩, flowsTo,
      (treeNode?_skeleton_eq_some_iff sound).mpr ⟨lt_size_iff.mpr ⟨_, found⟩, rfl⟩,
      (treeNode?_skeleton_eq_some_iff sound).mpr ⟨lt_size_iff.mpr ⟨_, found'⟩, rfl⟩, isSource,
      isTarget, rfl⟩⟩
    rw [hasEnds, Bool.and_eq_true]
    exact ⟨hasNode_of_mem_tokens isSource, hasNode_of_mem_tokens isTarget⟩

/-- As many edges of a kind lead to a site as candidates with a token are named for it. -/
theorem inDegree_site (sound : tree.Sound) (rooted : tree.root = some root)
    (flows : config.runs .dataflow = true) (processed : tree.Processes site classId method)
    (analysed : analysis.get? classId method = some outputs)
    (represented : tree.tokenNode? site = some target) :
    (linkUnit tree analysis config (skeleton tree)).graph.inDegree target kind.edgeKind =
      ((outputs.candidates? kind site).getD ∅).toList.countP tree.isSpelled := by
  have distinct : ((outputs.candidates? kind site).getD ∅).toList.Nodup :=
    ExtTreeSet.distinct_toList.imp fun apart same => apart (Std.compare_eq_iff_eq.mpr same)
  rw [← length_tokenNodes]
  apply inDegree_eq_length (tokenNodes_nodup distinct)
  intro source
  simp only [hasEdge_flow_skeleton sound rooted flows, mem_namings_iff_processes rooted,
    List.mem_filterMap, ExtTreeSet.mem_toList]
  constructor
  · intro flow
    obtain ⟨candidate, other, ⟨_, _, _, processed', analysed', named⟩, spelled, represented'⟩ := flow
    cases tokenNode?_injective represented represented'
    obtain ⟨rfl, rfl⟩ := processed.unique processed'
    cases analysed.symm.trans analysed'
    exact ⟨candidate, named, spelled⟩
  · intro flow
    obtain ⟨candidate, named, spelled⟩ := flow
    exact ⟨candidate, site, ⟨classId, method, outputs, processed, analysed, named⟩, spelled,
      represented⟩

/-- Nothing leads to a node that is not the token of a site in an analysed method. -/
theorem inDegree_elsewhere (sound : tree.Sound) (rooted : tree.root = some root)
    (flows : config.runs .dataflow = true)
    (elsewhere : ∀ site classId method, tree.Processes site classId method →
      (analysis.get? classId method).isSome = true → tree.tokenNode? site ≠ some target) :
    (linkUnit tree analysis config (skeleton tree)).graph.inDegree target kind.edgeKind = 0 := by
  apply inDegree_eq_zero
  intro source present
  obtain ⟨_, site, named, _, represented⟩ :=
    (hasEdge_flow_skeleton sound rooted flows).mp present
  obtain ⟨classId, method, outputs, processed, analysed, _⟩ :=
    (mem_namings_iff_processes rooted).mp named
  exact elsewhere site classId method processed (Option.isSome_of_eq_some analysed) represented

/-! ## What leads to a method -/

theorem mem_returnedIdentifiers_iff {mode : ReturnMode} {body identifier : TreeId} :
    identifier ∈ tree.returnedIdentifiers mode body ↔
      ∃ expression, tree.Selects body expression mode ∧ identifier ∈ tree.identifiers expression := by
  simp only [returnedIdentifiers, List.mem_flatMap, mem_select_iff]

theorem returns_iff_mem_returnedIdentifiers {mode : ReturnMode} {body identifier : TreeId}
    (rooted : tree.root = some root) (declared : (method, body) ∈ tree.methodBodies root) :
    tree.Returns mode method identifier ↔ identifier ∈ tree.returnedIdentifiers mode body := by
  obtain ⟨leads, shape, found, hasBody⟩ := mem_methodBodies_iff.mp declared
  simp only [mem_returnedIdentifiers_iff, mem_identifiers_iff]
  constructor
  · intro returned
    obtain ⟨_, _, found', hasBody', selected, contained, named, isIdentifier⟩ := returned
    cases found.symm.trans found'
    cases hasBody.symm.trans hasBody'
    exact ⟨_, selected, contained, _, named, isIdentifier⟩
  · intro returned
    obtain ⟨expression, selected, contained, shape, named, isIdentifier⟩ := returned
    exact .intro rooted leads found hasBody selected contained named isIdentifier

theorem isSpelled_of_mem_returnedIdentifiers {mode : ReturnMode} {body identifier : TreeId}
    (returned : identifier ∈ tree.returnedIdentifiers mode body) :
    tree.isSpelled identifier = true := by
  obtain ⟨_, _, contained⟩ := mem_returnedIdentifiers_iff.mp returned
  obtain ⟨_, shape, found, isIdentifier⟩ := mem_identifiers_iff.mp contained
  rw [SyntaxTree.isSpelled, found]
  cases shape <;> first | rfl | contradiction

/-- As many edges lead to a method as it returns different identifiers. -/
theorem inDegree_method {body : TreeId} (sound : tree.Sound) (rooted : tree.root = some root)
    (returns : config.runs .returnsTo = true)
    (declared : (method, body) ∈ tree.methodBodies root) :
    (linkUnit tree analysis config (skeleton tree)).graph.inDegree ⟨method.index⟩ .returnsTo =
      (tree.returnedIdentifiers config.returnMode body).dedup.length := by
  have spelled : (tree.returnedIdentifiers config.returnMode body).dedup.countP tree.isSpelled =
      (tree.returnedIdentifiers config.returnMode body).dedup.length := by
    rw [List.countP_eq_length]
    intro identifier member
    exact isSpelled_of_mem_returnedIdentifiers (List.mem_dedup.mp member)
  rw [← spelled, ← length_tokenNodes]
  apply inDegree_eq_length (tokenNodes_nodup (List.nodup_dedup _))
  intro source
  rw [hasEdge_returnsTo_skeleton sound rooted, and_iff_right returns, List.mem_filterMap]
  simp only [List.mem_dedup, ← returns_iff_mem_returnedIdentifiers rooted declared]
  constructor
  · intro flow
    obtain ⟨⟨slot⟩, identifier, returned, isTarget, represented⟩ := flow
    cases isTarget
    exact ⟨identifier, returned, represented⟩
  · intro flow
    obtain ⟨identifier, returned, represented⟩ := flow
    exact ⟨method, identifier, returned, rfl, represented⟩

theorem declared_of_returns {mode : ReturnMode} {identifier : TreeId}
    (rooted : tree.root = some root) (returned : tree.Returns mode method identifier) :
    ∃ body, (method, body) ∈ tree.methodBodies root := by
  obtain ⟨rooted', leads, declared, hasBody, _⟩ := returned
  cases rooted.symm.trans rooted'
  exact ⟨_, mem_methodBodies_iff.mpr ⟨leads, _, declared, hasBody⟩⟩

theorem inDegree_apart (sound : tree.Sound) (rooted : tree.root = some root)
    (apart : ∀ method body, (method, body) ∈ tree.methodBodies root → target ≠ ⟨method.index⟩) :
    (linkUnit tree analysis config (skeleton tree)).graph.inDegree target .returnsTo = 0 := by
  apply inDegree_eq_zero
  intro source present
  obtain ⟨_, method, _, returned, isTarget, _⟩ :=
    (hasEdge_returnsTo_skeleton sound rooted).mp present
  obtain ⟨body, declared⟩ := declared_of_returns rooted returned
  exact apart method body declared isTarget

/-! ## Counters -/

theorem treeNode?_skeleton_eq_map {id : TreeId} (sound : tree.Sound) :
    (skeleton tree).treeNode? id = (tree.shape? id).map fun _ => ⟨id.index⟩ := by
  rw [treeNode?_skeleton sound]
  cases found : tree.shape? id with
  | none =>
      apply if_neg
      rw [lt_size_iff, found]
      simp
  | some shape => exact if_pos (lt_size_iff.mpr ⟨_, found⟩)

/-- A processed site is registered and has its token. -/
theorem tokenCounts?_skeleton {naming : Naming} (sound : tree.Sound) (rooted : tree.root = some root)
    (named : naming ∈ tree.namings analysis root) :
    ((skeleton tree).treeNode? naming.site).isSome = true ∧
      naming.tokenCounts? (skeleton tree) =
        (tree.shape? naming.candidate).map fun shape => (shape.isSpelled.toNat, 1) := by
  obtain ⟨_, _, _, processed, _⟩ := (mem_namings_iff_processes rooted).mp named
  have spelled := processed.isSpelled
  obtain ⟨_, found, _⟩ := (Option.any_eq_true _ _).mp spelled
  have registered : (skeleton tree).treeNode? naming.site = some ⟨naming.site.index⟩ := by
    rw [treeNode?_skeleton_eq_map sound, found]
    rfl
  refine ⟨Option.isSome_of_eq_some registered, ?_⟩
  simp only [Naming.tokenCounts?, registered, Option.map_some, treeNode?_skeleton_eq_map sound]
  cases isShape : tree.shape? naming.candidate with
  | none => rfl
  | some shape =>
      simp only [Option.map_some, Option.bind_some, size_tokens_skeleton sound, spelled]
      rw [SyntaxTree.isSpelled, isShape]
      rfl

/-- The dataflow pass comes across candidates without a token and across some outside the tree. -/
theorem linkDataflow_skeleton_counters (analysis : Analysis) (config : LinkConfig)
    (sound : tree.Sound) (rooted : tree.root = some root) :
    (linkDataflow tree analysis config (skeleton tree)).stats.ambiguousTokens =
        (tree.namings analysis root).countP (fun naming =>
          (tree.shape? naming.candidate).any fun shape => !shape.isSpelled) ∧
      (linkDataflow tree analysis config (skeleton tree)).stats.missingFeatureNode =
        (tree.namings analysis root).countP fun naming =>
          (tree.shape? naming.candidate).isNone := by
  have counts : (linkDataflow tree analysis config (skeleton tree)).stats.CountsDataflow
      (skeleton tree) analysis (tree.sites root) (tree.queries analysis root)
      (tree.namings analysis root) := linkDataflow_counts rooted
  constructor
  · rw [counts.ambiguousTokens, countP_filterMap_any]
    apply List.countP_congr
    intro naming named
    rw [(tokenCounts?_skeleton sound rooted named).2, Option.any_map]
    cases tree.shape? naming.candidate with
    | none => rfl
    | some shape => cases spelled : shape.isSpelled <;> simp [spelled]
  · have registered : (tree.queries analysis root).countP (fun query =>
        query.entry.any (fun candidates => !candidates.isEmpty) &&
          ((skeleton tree).treeNode? query.site).isNone) = 0 := by
      rw [List.countP_eq_zero]
      intro query asked
      obtain ⟨_, _, _, _, visited, _⟩ := mem_queries_iff.mp asked
      obtain ⟨_, _, found, _⟩ := mem_sites_iff.mp visited
      rw [treeNode?_skeleton_eq_map sound, found]
      simp
    rw [counts.missingFeatureNode, registered, Nat.zero_add]
    apply List.countP_congr
    intro naming named
    rw [(tokenCounts?_skeleton sound rooted named).1, Bool.true_and, treeNode?_skeleton_eq_map sound,
      Option.isNone_map]

/-- The return pass only asks for methods and identifiers, which all have what it needs. -/
theorem linkReturns_skeleton_counters (config : LinkConfig) (sound : tree.Sound)
    (rooted : tree.root = some root) :
    (linkReturns tree config (skeleton tree)).stats.ambiguousTokens = 0 ∧
      (linkReturns tree config (skeleton tree)).stats.missingFeatureNode = 0 := by
  have counts : (linkReturns tree config (skeleton tree)).stats.CountsReturns tree
      config.returnMode (skeleton tree) (tree.methodBodies root) :=
    linkReturns_counts rooted (skeleton_intact tree)
  have registered : ∀ {body identifier},
      identifier ∈ tree.returnedIdentifiers config.returnMode body →
        (skeleton tree).treeNode? identifier = some ⟨identifier.index⟩ ∧
          (skeleton tree).tokenCount? identifier = some 1 := by
    intro body identifier returned
    have spelled := isSpelled_of_mem_returnedIdentifiers returned
    obtain ⟨_, found, _⟩ := (Option.any_eq_true _ _).mp spelled
    rw [FeatureGraph.tokenCount?, treeNode?_skeleton_eq_map sound, found, Option.map_some,
      Option.map_some, size_tokens_skeleton sound, spelled]
    exact ⟨rfl, rfl⟩
  have declared : ∀ declaration ∈ tree.methodBodies root,
      ((skeleton tree).treeNode? declaration.1).isNone = false := by
    rintro ⟨method, body⟩ declared
    obtain ⟨_, _, found, _⟩ := mem_methodBodies_iff.mp declared
    rw [treeNode?_skeleton_eq_map sound, found]
    rfl
  constructor
  · rw [counts.ambiguousTokens, List.sum_eq_zero_iff_forall_eq_nat]
    intro amount member
    obtain ⟨⟨method, body⟩, _, rfl⟩ := List.mem_map.mp member
    simp only [countP_filterMap_any, List.countP_eq_zero]
    intro identifier returned
    rw [(registered returned).2]
    simp
  · rw [counts.missingFeatureNode, List.filter_eq_nil_iff.mpr ?allDeclared, List.map_nil,
      List.sum_nil, Nat.zero_add, List.sum_eq_zero_iff_forall_eq_nat]
    case allDeclared =>
      rintro ⟨method, body⟩ member
      exact Bool.eq_false_iff.mp (declared (method, body) member)
    intro amount member
    obtain ⟨⟨method, body⟩, _, rfl⟩ := List.mem_map.mp member
    simp only [List.countP_eq_zero]
    intro identifier returned
    rw [(registered returned).1]
    simp

end

/-- Linking a unit over its plain skeleton, by number.  To the token of a site in an analysed method
lead as many edges of a kind as candidates with a token are named for it, and to no other node does
any such edge lead.  To a method that has a body lead as many edges as it returns different
identifiers, and to no other node does any.  The ambiguous requests are those for candidates that
have no token, and what is missing are candidates outside the tree, each counted for every site and
kind of facts that names it. -/
theorem skeleton_degrees (tree : SyntaxTree) (analysis : Analysis) (config : LinkConfig)
    {root : TreeId} (valid : tree.defect? = none) (rooted : tree.root = some root)
    (flows : config.runs .dataflow = true) (returns : config.runs .returnsTo = true) :
    let graph := FeatureGraph.skeleton tree
    let linked := linkUnit tree analysis config graph
    let returned := tree.returnedIdentifiers config.returnMode
    let namings := tree.namings analysis root
    (∀ site classId method outputs kind, tree.Processes site classId method →
        analysis.get? classId method = some outputs →
        ∃ token, graph.tokenOf? site = some token ∧
          linked.graph.inDegree token kind.edgeKind =
            ((outputs.candidates? kind site).getD ∅).toList.countP tree.isSpelled) ∧
      (∀ node kind, (∀ site classId method, tree.Processes site classId method →
          (analysis.get? classId method).isSome = true → graph.tokenOf? site ≠ some node) →
        linked.graph.inDegree node (FactKind.edgeKind kind) = 0) ∧
      (∀ method body, (method, body) ∈ tree.methodBodies root →
        ∃ node, graph.treeNode? method = some node ∧
          linked.graph.inDegree node .returnsTo = (returned body).dedup.length) ∧
      (∀ body identifier, identifier ∈ returned body ↔
        ∃ expression, tree.Selects body expression config.returnMode ∧
          identifier ∈ tree.identifiers expression) ∧
      (∀ node, (∀ method body, (method, body) ∈ tree.methodBodies root →
          graph.treeNode? method ≠ some node) →
        linked.graph.inDegree node .returnsTo = 0) ∧
      namings.Nodup ∧
      (∀ naming, naming ∈ namings ↔
        ∃ classId method outputs, tree.Processes naming.site classId method ∧
          analysis.get? classId method = some outputs ∧
          naming.candidate ∈ (outputs.candidates? naming.kind naming.site).getD ∅) ∧
      linked.stats.ambiguousTokens =
        namings.countP (fun naming =>
          (tree.shape? naming.candidate).any fun shape => !shape.isSpelled) ∧
      linked.stats.missingFeatureNode =
        namings.countP fun naming => (tree.shape? naming.candidate).isNone := by
  intro graph linked returned namings
  have sound := SyntaxTree.defect?_eq_none_iff.mp valid
  have stats : linked.stats = (linkDataflow tree analysis config graph).stats +
      (linkReturns tree config graph).stats := linkUnit_stats flows returns
  have nodes : ∀ {method body}, (method, body) ∈ tree.methodBodies root →
      graph.treeNode? method = some ⟨method.index⟩ := by
    intro method body declared
    obtain ⟨_, _, found, _⟩ := SyntaxTree.mem_methodBodies_iff.mp declared
    exact (treeNode?_skeleton_eq_map sound).trans (by rw [found]; rfl)
  obtain ⟨flowAmbiguous, flowMissing⟩ :=
    linkDataflow_skeleton_counters analysis config sound rooted
  obtain ⟨returnAmbiguous, returnMissing⟩ := linkReturns_skeleton_counters config sound rooted
  refine ⟨?sites, ?elsewhere, ?methods, fun _ _ => mem_returnedIdentifiers_iff, ?apart,
    namings_nodup, fun _ => mem_namings_iff_processes rooted, ?ambiguous, ?missing⟩
  case sites =>
    intro site classId method outputs kind processed analysed
    have spelled := processed.isSpelled
    rw [← SyntaxTree.isSome_tokenNode?, Option.isSome_iff_exists] at spelled
    obtain ⟨token, represented⟩ := spelled
    exact ⟨token, (FeatureGraph.tokenOf?_skeleton sound).trans represented,
      inDegree_site sound rooted flows processed analysed represented⟩
  case elsewhere =>
    intro node kind elsewhere
    simp only [graph, FeatureGraph.tokenOf?_skeleton sound] at elsewhere
    exact inDegree_elsewhere sound rooted flows elsewhere
  case methods =>
    intro method body declared
    exact ⟨_, nodes declared, inDegree_method sound rooted returns declared⟩
  case apart =>
    intro node apart
    apply inDegree_apart sound rooted
    rintro method body declared rfl
    exact apart method body declared (nodes declared)
  case ambiguous =>
    rw [stats]
    exact (congrArg₂ (· + ·) flowAmbiguous returnAmbiguous).trans (Nat.add_zero _)
  case missing =>
    rw [stats]
    exact (congrArg₂ (· + ·) flowMissing returnMissing).trans (Nat.add_zero _)

/-- A unit with two methods, one of them without a body.  The other one returns the same variable
twice, and the facts name three elements for it: the unit itself, which has no token, the
declaration, and something outside the tree. -/
def Bundle.census : Bundle :=
  let tree : SyntaxTree :=
    { elements := #[⟨⟨0⟩, .compilationUnit [⟨1⟩]⟩, ⟨⟨1⟩, .classDecl "C" [⟨2⟩, ⟨8⟩]⟩,
        ⟨⟨2⟩, .methodDecl "f" [] (some ⟨3⟩)⟩, ⟨⟨3⟩, .block [⟨4⟩, ⟨5⟩, ⟨7⟩]⟩,
        ⟨⟨4⟩, .variableDecl "x" none⟩, ⟨⟨5⟩, .returnStatement (some ⟨6⟩)⟩,
        ⟨⟨6⟩, .identifier "x"⟩, ⟨⟨7⟩, .returnStatement (some ⟨6⟩)⟩,
        ⟨⟨8⟩, .methodDecl "g" [] none⟩]
      root := some ⟨0⟩ }
  let candidates : CandidateSet := .ofList [(⟨0⟩ : TreeId), ⟨4⟩, ⟨9⟩]
  { tree
    graph := .skeleton tree
    analysis := Analysis.empty.insert ⟨1⟩ ⟨2⟩ ⟨(∅ : FactMap).insert ⟨6⟩ candidates, ∅⟩ }

theorem census_degrees :
    let linked := linkUnit Bundle.census.tree Bundle.census.analysis {} Bundle.census.graph
    (Bundle.census.tree.defect? = none ∧ Bundle.census.tree.root = some ⟨0⟩ ∧
        LinkConfig.runs {} .dataflow = true ∧ LinkConfig.runs {} .returnsTo = true) ∧
      (Bundle.census.tree.Processes ⟨6⟩ ⟨1⟩ ⟨2⟩ ∧
        Bundle.census.graph.tokenOf? ⟨6⟩ = some ⟨12⟩ ∧
        linked.graph.inDegree ⟨12⟩ .lastWrite = 1) ∧
      linked.graph.inDegree ⟨0⟩ .lastUse = 0 ∧
      (Bundle.census.graph.treeNode? ⟨2⟩ = some ⟨2⟩ ∧
        linked.graph.inDegree ⟨2⟩ .returnsTo = 1) ∧
      linked.graph.inDegree ⟨8⟩ .returnsTo = 0 ∧
      linked.stats.ambiguousTokens = 1 ∧ linked.stats.missingFeatureNode = 1 := by
  intro linked
  have valid : Bundle.census.tree.defect? = none := by decide
  have sites : Bundle.census.tree.sites ⟨0⟩ =
      [(⟨4⟩, ⟨some ⟨1⟩, some ⟨2⟩⟩), (⟨6⟩, ⟨some ⟨1⟩, some ⟨2⟩⟩)] := by cbv
  have declarations : Bundle.census.tree.methodBodies ⟨0⟩ = [(⟨2⟩, ⟨3⟩)] := by cbv
  have returned : Bundle.census.tree.returnedIdentifiers .all ⟨3⟩ = [⟨6⟩, ⟨6⟩] := by cbv
  have token : Bundle.census.graph.tokenOf? ⟨6⟩ = some ⟨12⟩ := by decide
  have registered : Bundle.census.graph.treeNode? ⟨2⟩ = some ⟨2⟩ := by decide
  have visited : (⟨6⟩, ⟨some ⟨1⟩, some ⟨2⟩⟩) ∈ Bundle.census.tree.sites ⟨0⟩ := by
    rw [sites]
    simp
  have processed : Bundle.census.tree.Processes ⟨6⟩ ⟨1⟩ ⟨2⟩ := .intro (.intro rfl visited) rfl
  have elsewhere : ∀ site classId method, Bundle.census.tree.Processes site classId method →
      (Bundle.census.analysis.get? classId method).isSome = true →
        Bundle.census.graph.tokenOf? site ≠ some ⟨0⟩ := by
    intro site classId method processed _
    obtain ⟨⟨rooted, visited⟩, _⟩ := processed
    cases rooted
    rw [sites] at visited
    simp only [List.mem_cons, Prod.mk.injEq, List.not_mem_nil, or_false] at visited
    rcases visited with ⟨rfl, _⟩ | ⟨rfl, _⟩ <;> decide
  have apart : ∀ method body, (method, body) ∈ Bundle.census.tree.methodBodies ⟨0⟩ →
      Bundle.census.graph.treeNode? method ≠ some ⟨8⟩ := by
    intro method body declared
    rw [declarations, List.mem_singleton] at declared
    cases declared
    decide
  obtain ⟨atSites, atOthers, atMethods, _, notAtOthers, _, _, ambiguous, missing⟩ :=
    skeleton_degrees Bundle.census.tree Bundle.census.analysis {} valid rfl rfl rfl
  obtain ⟨_, token', written⟩ := atSites ⟨6⟩ ⟨1⟩ ⟨2⟩ _ .lastWrite processed rfl
  obtain ⟨_, registered', returns⟩ := atMethods ⟨2⟩ ⟨3⟩ (by rw [declarations]; simp)
  cases token.symm.trans token'
  cases registered.symm.trans registered'
  rw [SyntaxTree.namings, SyntaxTree.queries, sites] at ambiguous missing
  refine ⟨⟨valid, rfl, rfl, rfl⟩, ⟨processed, token, written.trans (by decide)⟩,
    atOthers ⟨0⟩ .lastUse elsewhere, ⟨registered, returns.trans ?_⟩, notAtOthers ⟨8⟩ apart,
    ambiguous.trans (by decide), missing.trans (by decide)⟩
  change (Bundle.census.tree.returnedIdentifiers .all ⟨3⟩).dedup.length = 1
  rw [returned]
  decide

end FlowLink
