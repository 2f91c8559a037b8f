import FlowLink.Proofs.Link.Counters
import FlowLink.Proofs.Tree.Parents

namespace FlowLink

open Std FeatureGraph

/-! # The counters of the dataflow pass

The pass visits sites.  A site in an analysed method puts one question to each kind of facts, and
the entry that answers it names candidates.  Every counter is a sum over these three rows, in which
each visit, question and naming counts by itself.
-/

/-! ## Questions and namings -/

/-- What a site asks of the facts of one kind, and the entry that answers it. -/
structure Query where
  site : TreeId
  kind : FactKind
  entry : Option CandidateSet

/-- A candidate that a fact of a kind names for a site. -/
structure Naming where
  site : TreeId
  kind : FactKind
  candidate : TreeId
deriving DecidableEq

/-- The facts about the method that a scope is in, if there is one and it is analysed. -/
def Scope.outputs? (scope : Scope) (analysis : Analysis) : Option MethodFacts :=
  scope.enclosing.bind fun (classId, method) => analysis.get? classId method

def siteQueries (analysis : Analysis) (visit : TreeId × Scope) : List Query :=
  match visit.2.outputs? analysis with
  | none => []
  | some outputs => FactKind.all.map fun kind => ⟨visit.1, kind, outputs.candidates? kind visit.1⟩

def Query.namings (query : Query) : List Naming :=
  match query.entry with
  | none => []
  | some candidates => candidates.toList.map fun candidate => ⟨query.site, query.kind, candidate⟩

def SyntaxTree.queries (tree : SyntaxTree) (analysis : Analysis) (root : TreeId) : List Query :=
  (tree.sites root).flatMap (siteQueries analysis)

def SyntaxTree.namings (tree : SyntaxTree) (analysis : Analysis) (root : TreeId) : List Naming :=
  (tree.queries analysis root).flatMap Query.namings

/-- How many tokens stand for the candidate and for the site, if both are registered. -/
def Naming.tokenCounts? (graph : FeatureGraph) (naming : Naming) : Option (Nat × Nat) :=
  (graph.treeNode? naming.candidate).bind fun prior =>
    (graph.treeNode? naming.site).map fun siteNode =>
      ((graph.tokens prior).size, (graph.tokens siteNode).size)

theorem mem_siteQueries_iff {analysis : Analysis} {visit : TreeId × Scope} {query : Query} :
    query ∈ siteQueries analysis visit ↔
      query.site = visit.1 ∧ ∃ outputs, visit.2.outputs? analysis = some outputs ∧
        query.entry = outputs.candidates? query.kind query.site := by
  unfold siteQueries
  cases visit.2.outputs? analysis with
  | none => simp
  | some outputs =>
      simp only [List.mem_map, Option.some.injEq, exists_eq_left']
      constructor
      · intro asked
        obtain ⟨kind, _, rfl⟩ := asked
        exact ⟨rfl, rfl⟩
      · intro asked
        obtain ⟨site, kind, entry⟩ := query
        obtain ⟨isSite, answers⟩ := asked
        simp only at isSite answers
        subst isSite answers
        refine ⟨kind, ?_, rfl⟩
        cases kind <;> decide

theorem mem_queries_iff {tree : SyntaxTree} {analysis : Analysis} {root : TreeId} {query : Query} :
    query ∈ tree.queries analysis root ↔
      ∃ scope classId method outputs, (query.site, scope) ∈ tree.sites root ∧
        scope.enclosing = some (classId, method) ∧ analysis.get? classId method = some outputs ∧
        query.entry = outputs.candidates? query.kind query.site := by
  simp only [SyntaxTree.queries, List.mem_flatMap, mem_siteQueries_iff, Scope.outputs?,
    Option.bind_eq_some_iff]
  constructor
  · intro asked
    obtain ⟨⟨_, scope⟩, visited, rfl, outputs, ⟨⟨classId, method⟩, enclosed, analysed⟩, answers⟩ :=
      asked
    exact ⟨scope, classId, method, outputs, visited, enclosed, analysed, answers⟩
  · intro asked
    obtain ⟨scope, classId, method, outputs, visited, enclosed, analysed, answers⟩ := asked
    exact ⟨_, visited, rfl, outputs, ⟨_, enclosed, analysed⟩, answers⟩

theorem mem_namings_iff {tree : SyntaxTree} {analysis : Analysis} {root : TreeId}
    {naming : Naming} :
    naming ∈ tree.namings analysis root ↔
      ∃ candidates, ⟨naming.site, naming.kind, some candidates⟩ ∈ tree.queries analysis root ∧
        naming.candidate ∈ candidates := by
  rw [SyntaxTree.namings, List.mem_flatMap]
  constructor
  · intro named
    obtain ⟨⟨site, kind, entry⟩, asked, named⟩ := named
    cases entry with
    | none => contradiction
    | some candidates =>
        obtain ⟨candidate, member, rfl⟩ := List.mem_map.mp named
        exact ⟨candidates, asked, ExtTreeSet.mem_toList.mp member⟩
  · intro named
    obtain ⟨candidates, asked, member⟩ := named
    exact ⟨_, asked, List.mem_map.mpr ⟨_, ExtTreeSet.mem_toList.mpr member, rfl⟩⟩

/-! ## What each of them counts -/

def siteCounts (analysis : Analysis) (visit : TreeId × Scope) : LinkStats where
  sitesVisited := 1
  skippedOutsideMethod := visit.2.enclosing.isNone.toNat
  skippedUnanalyzed := (visit.2.enclosing.isSome && (visit.2.outputs? analysis).isNone).toNat

def queryCounts (graph : FeatureGraph) (query : Query) : LinkStats where
  skippedNoFact := query.entry.isNone.toNat
  missingFeatureNode :=
    (query.entry.any (fun candidates => !candidates.isEmpty) &&
      (graph.treeNode? query.site).isNone).toNat

def namingCounts (graph : FeatureGraph) (naming : Naming) : LinkStats where
  missingFeatureNode :=
    ((graph.treeNode? naming.site).isSome && (graph.treeNode? naming.candidate).isNone).toNat
  ambiguousTokens := ((naming.tokenCounts? graph).any (· ≠ (1, 1))).toNat
  edgesExisting := ((naming.tokenCounts? graph).map fun (sources, dests) => sources * dests).getD 0

section

variable {tree : SyntaxTree} {analysis : Analysis} {config : LinkConfig} {graph : FeatureGraph}
  {outputs : MethodFacts} {kind : FactKind} {site candidate root : TreeId} {siteNode : NodeId}

theorem rowCounts_candidateActions (registered : graph.treeNode? site = some siteNode) :
    rowCounts graph (candidateActions graph siteNode kind candidate) =
      namingCounts graph ⟨site, kind, candidate⟩ := by
  unfold candidateActions namingCounts Naming.tokenCounts?
  simp only [registered]
  cases graph.treeNode? candidate with
  | none => rfl
  | some prior =>
      have ambiguous : ∀ sources dests : Nat,
          (if sources ≠ 1 || dests ≠ 1 then 1 else 0) =
            (decide ((sources, dests) ≠ (1, 1))).toNat := by
        intro sources dests
        by_cases one : sources = 1 <;> by_cases other : dests = 1 <;> simp [one, other]
      simp only [rowCounts_cons, rowCounts_nil, add_zero, Action.counts, countP_admits_tokens,
        ambiguous]
      rfl

theorem namingCounts_of_unregistered (unregistered : graph.treeNode? site = none) :
    namingCounts graph ⟨site, kind, candidate⟩ = 0 := by
  unfold namingCounts Naming.tokenCounts?
  simp only [unregistered]
  cases graph.treeNode? candidate <;> rfl

/-- What a question counts together with the candidates that answer it. -/
def Query.counts (graph : FeatureGraph) (query : Query) : LinkStats :=
  queryCounts graph query + (query.namings.map (namingCounts graph)).sum

theorem Query.counts_of_entry {candidates : CandidateSet} :
    Query.counts graph ⟨site, kind, some candidates⟩ =
      { missingFeatureNode := (!candidates.isEmpty && (graph.treeNode? site).isNone).toNat } +
        (candidates.toList.map fun candidate =>
          namingCounts graph ⟨site, kind, candidate⟩).sum := by
  rw [Query.counts, Query.namings, List.map_map]
  rfl

theorem rowCounts_factActions :
    rowCounts graph (factActions graph outputs site kind) =
      Query.counts graph ⟨site, kind, outputs.candidates? kind site⟩ := by
  unfold factActions
  cases known : outputs.candidates? kind site with
  | none => rfl
  | some candidates =>
      simp only [Query.counts_of_entry]
      cases empty : candidates.isEmpty with
      | true =>
          have none : candidates.toList = [] := by
            rw [← List.isEmpty_iff, ExtTreeSet.isEmpty_toList, empty]
          rw [none]
          rfl
      | false =>
          rw [if_neg Bool.false_ne_true]
          cases registered : graph.treeNode? site with
          | none =>
              -- The candidates are not even looked up, and none of them counts.
              simp only [namingCounts_of_unregistered registered, List.sum_map_zero, add_zero]
              rfl
          | some siteNode =>
              simp only [rowCounts_flatMap, rowCounts_candidateActions registered]
              exact (zero_add _).symm

theorem rowCounts_siteActions (visit : TreeId × Scope) :
    rowCounts graph (siteActions graph analysis visit) =
      siteCounts analysis visit + ((siteQueries analysis visit).map (Query.counts graph)).sum := by
  obtain ⟨site, scope⟩ := visit
  unfold siteActions siteQueries siteCounts Scope.outputs?
  simp only
  cases scope.enclosing with
  | none => rfl
  | some place =>
      obtain ⟨classId, method⟩ := place
      simp only [Option.bind_some]
      cases analysis.get? classId method with
      | none => rfl
      | some outputs =>
          simp only [rowCounts_cons, rowCounts_flatMap, rowCounts_factActions, List.map_map]
          rfl

/-- The counters of the pass, as sums over its visits, questions and namings. -/
theorem linkDataflow_settled (rooted : tree.root = some root) :
    (linkDataflow tree analysis config graph).stats.settled =
      ((tree.sites root).map (siteCounts analysis)).sum +
        (((tree.queries analysis root).map (queryCounts graph)).sum +
          ((tree.namings analysis root).map (namingCounts graph)).sum) := by
  have counted : (linkDataflow tree analysis config graph).stats.settled =
      rowCounts graph (dataflowActions tree analysis root graph) := by
    rw [linkDataflow_of_root rooted (.refl graph)]
    exact (Progress.performAll_settled config (.start graph) _).trans (zero_add _)
  have answered : ∀ queries : List Query, (queries.map (Query.counts graph)).sum =
      (queries.map (queryCounts graph)).sum +
        ((queries.flatMap Query.namings).map (namingCounts graph)).sum := by
    intro queries
    rw [List.map_flatMap, LinkStats.sum_flatMap, ← List.sum_map_add]
    rfl
  rw [counted, dataflowActions, rowCounts_flatMap]
  simp only [rowCounts_siteActions]
  rw [List.sum_map_add, SyntaxTree.namings, ← answered, SyntaxTree.queries, List.map_flatMap,
    LinkStats.sum_flatMap]

/-- A counter of the pass is the sum of what visits, questions and namings count towards it. -/
theorem linkDataflow_field (rooted : tree.root = some root) (field : LinkStats → Nat)
    (zero : field 0 = 0) (adds : ∀ left right, field (left + right) = field left + field right)
    (settles : ∀ stats : LinkStats, field stats.settled = field stats) :
    field (linkDataflow tree analysis config graph).stats =
      ((tree.sites root).map fun visit => field (siteCounts analysis visit)).sum +
        (((tree.queries analysis root).map fun query => field (queryCounts graph query)).sum +
          ((tree.namings analysis root).map fun naming =>
            field (namingCounts graph naming)).sum) := by
  rw [← settles, linkDataflow_settled rooted, adds, adds, LinkStats.field_sum field zero adds,
    LinkStats.field_sum field zero adds, LinkStats.field_sum field zero adds]

/-! ## Rows without repetitions -/

theorem sites_nodup : ((tree.sites root).map Prod.fst).Nodup := by
  rw [SyntaxTree.sites_map_fst]
  exact SyntaxTree.walk_nodup.filter _

/-- Rows on end have no repetitions if each of them has none and they differ by a key. -/
theorem nodup_flatMap_of_key {α β γ : Type} {items : List α} {rows : α → List β} (key : β → γ)
    (rowKey : α → γ) (distinct : (items.map rowKey).Nodup)
    (keyed : ∀ item, ∀ entry ∈ rows item, key entry = rowKey item)
    (each : ∀ item, (rows item).Nodup) : (items.flatMap rows).Nodup := by
  rw [List.nodup_flatMap]
  refine ⟨fun item _ => each item, ?_⟩
  apply (List.pairwise_map.mp distinct).imp
  intro first second apart entry isFirst isSecond
  exact apart ((keyed first entry isFirst).symm.trans (keyed second entry isSecond))

theorem siteQueries_keys (analysis : Analysis) (visit : TreeId × Scope) :
    (siteQueries analysis visit).map (fun query => (query.site, query.kind)) = [] ∨
      (siteQueries analysis visit).map (fun query => (query.site, query.kind)) =
        FactKind.all.map fun kind => (visit.1, kind) := by
  unfold siteQueries
  cases visit.2.outputs? analysis with
  | none => exact .inl rfl
  | some outputs => exact .inr rfl

theorem queries_nodup :
    ((tree.queries analysis root).map fun query => (query.site, query.kind)).Nodup := by
  rw [SyntaxTree.queries, List.map_flatMap]
  apply nodup_flatMap_of_key Prod.fst Prod.fst sites_nodup
  · intro visit entry member
    rcases siteQueries_keys analysis visit with none | some
    · simp [none] at member
    · rw [some] at member
      obtain ⟨_, _, rfl⟩ := List.mem_map.mp member
      rfl
  · intro visit
    rcases siteQueries_keys analysis visit with none | some
    · rw [none]
      exact List.nodup_nil
    · rw [some]
      simp [FactKind.all]

theorem namings_nodup : (tree.namings analysis root).Nodup := by
  apply nodup_flatMap_of_key (fun naming => (naming.site, naming.kind)) _ queries_nodup
  · intro query naming member
    unfold Query.namings at member
    split at member
    · contradiction
    · obtain ⟨_, _, rfl⟩ := List.mem_map.mp member
      rfl
  · intro query
    unfold Query.namings
    split
    · exact List.nodup_nil
    · apply List.Nodup.map
      · intro left right same
        exact (Naming.mk.inj same).2.2
      · exact ExtTreeSet.distinct_toList.imp fun distinct same =>
          distinct (Std.compare_eq_iff_eq.mpr same)

/-! ## The counters -/

/-- The counters of a run of the dataflow pass, by the sites that it visits, the questions that they
put to the facts and the candidates that these name. -/
structure LinkStats.CountsDataflow (stats : LinkStats) (graph : FeatureGraph) (analysis : Analysis)
    (sites : List (TreeId × Scope)) (queries : List Query) (namings : List Naming) : Prop where
  sitesVisited : stats.sitesVisited = sites.length
  skippedOutsideMethod :
    stats.skippedOutsideMethod = sites.countP fun visit => visit.2.enclosing.isNone
  skippedUnanalyzed : stats.skippedUnanalyzed =
    sites.countP fun visit =>
      visit.2.enclosing.isSome && (visit.2.outputs? analysis).isNone
  skippedNoFact : stats.skippedNoFact = queries.countP fun query => query.entry.isNone
  missingFeatureNode : stats.missingFeatureNode =
    (queries.countP fun query =>
      query.entry.any (fun candidates => !candidates.isEmpty) &&
        (graph.treeNode? query.site).isNone) +
    namings.countP fun naming =>
      (graph.treeNode? naming.site).isSome && (graph.treeNode? naming.candidate).isNone
  ambiguousTokens : stats.ambiguousTokens =
    (namings.filterMap (Naming.tokenCounts? graph)).countP (· ≠ (1, 1))
  edges : stats.edgesAdded + stats.edgesExisting =
    ((namings.filterMap (Naming.tokenCounts? graph)).map fun (sources, dests) =>
      sources * dests).sum
  methodsLinked : stats.methodsLinked = 0
  returnsSeen : stats.returnsSeen = 0
  bareReturns : stats.bareReturns = 0

theorem linkDataflow_counts (rooted : tree.root = some root) :
    (linkDataflow tree analysis config graph).stats.CountsDataflow graph analysis
      (tree.sites root) (tree.queries analysis root) (tree.namings analysis root) := by
  have field := @linkDataflow_field tree analysis config graph root rooted
  -- A row that has no part in a counter adds zeros to it, which `simp` drops.
  constructor
  case sitesVisited =>
    rw [field (fun stats => stats.sitesVisited) rfl (fun _ _ => rfl) fun _ => rfl]
    simp [siteCounts, queryCounts, namingCounts]
  case skippedOutsideMethod =>
    rw [field (fun stats => stats.skippedOutsideMethod) rfl (fun _ _ => rfl) fun _ => rfl]
    simp [siteCounts, queryCounts, namingCounts, countP_eq_sum]
  case skippedUnanalyzed =>
    rw [field (fun stats => stats.skippedUnanalyzed) rfl (fun _ _ => rfl) fun _ => rfl]
    simp [siteCounts, queryCounts, namingCounts, countP_eq_sum]
  case skippedNoFact =>
    rw [field (fun stats => stats.skippedNoFact) rfl (fun _ _ => rfl) fun _ => rfl]
    simp [siteCounts, queryCounts, namingCounts, countP_eq_sum]
  case missingFeatureNode =>
    rw [field (fun stats => stats.missingFeatureNode) rfl (fun _ _ => rfl) fun _ => rfl]
    simp [siteCounts, queryCounts, namingCounts, countP_eq_sum]
  case ambiguousTokens =>
    rw [field (fun stats => stats.ambiguousTokens) rfl (fun _ _ => rfl) fun _ => rfl,
      countP_filterMap_any]
    simp [siteCounts, queryCounts, namingCounts, countP_eq_sum]
  case edges =>
    rw [field (fun stats => stats.edgesAdded + stats.edgesExisting) rfl LinkStats.edges_add
      fun _ => Nat.zero_add _]
    simp [siteCounts, queryCounts, namingCounts, sum_map_filterMap]
  case methodsLinked =>
    rw [field (fun stats => stats.methodsLinked) rfl (fun _ _ => rfl) fun _ => rfl]
    simp [siteCounts, queryCounts, namingCounts]
  case returnsSeen =>
    rw [field (fun stats => stats.returnsSeen) rfl (fun _ _ => rfl) fun _ => rfl]
    simp [siteCounts, queryCounts, namingCounts]
  case bareReturns =>
    rw [field (fun stats => stats.bareReturns) rfl (fun _ _ => rfl) fun _ => rfl]
    simp [siteCounts, queryCounts, namingCounts]

end

/-- The counters of a run are exact: each is the number of those visited sites, of the questions
that sites in analysed methods put to the facts, or of the candidates that the facts name, which
fulfil its condition, and the edges are as many as the pairs of tokens of registered ones. -/
theorem linkDataflow_counters (tree : SyntaxTree) (analysis : Analysis) (config : LinkConfig)
    (graph : FeatureGraph) {root : TreeId} (rooted : tree.root = some root) :
    (tree.sites root).map Prod.fst =
        (tree.preorder root).filter (fun id => (tree.shape? id).any Shape.isSite) ∧
      ((tree.sites root).map Prod.fst).Nodup ∧
      ((tree.queries analysis root).map fun query => (query.site, query.kind)).Nodup ∧
      (∀ query, query ∈ tree.queries analysis root ↔
        ∃ scope classId method outputs, (query.site, scope) ∈ tree.sites root ∧
          scope.enclosing = some (classId, method) ∧
          analysis.get? classId method = some outputs ∧
          query.entry = outputs.candidates? query.kind query.site) ∧
      (tree.namings analysis root).Nodup ∧
      (∀ naming, naming ∈ tree.namings analysis root ↔
        ∃ candidates, ⟨naming.site, naming.kind, some candidates⟩ ∈ tree.queries analysis root ∧
          naming.candidate ∈ candidates) ∧
      (linkDataflow tree analysis config graph).stats.CountsDataflow graph analysis
        (tree.sites root) (tree.queries analysis root) (tree.namings analysis root) :=
  ⟨SyntaxTree.sites_map_fst, sites_nodup, queries_nodup, fun _ => mem_queries_iff, namings_nodup,
    fun _ => mem_namings_iff, linkDataflow_counts rooted⟩

/-- A unit with a site outside of its methods and one in a method that is not analysed.  The facts
about the other method name, for one of its two sites, the unit itself, which has no token, a
variable, which has one, and something outside the tree. -/
def Bundle.medley : Bundle :=
  let tree : SyntaxTree :=
    { elements := #[⟨⟨0⟩, .compilationUnit [⟨1⟩, ⟨2⟩]⟩, ⟨⟨1⟩, .identifier "a"⟩,
        ⟨⟨2⟩, .classDecl "C" [⟨3⟩, ⟨4⟩]⟩, ⟨⟨3⟩, .methodDecl "f" [] (some ⟨5⟩)⟩,
        ⟨⟨4⟩, .methodDecl "g" [] (some ⟨6⟩)⟩, ⟨⟨5⟩, .block [⟨7⟩, ⟨8⟩]⟩, ⟨⟨6⟩, .identifier "u"⟩,
        ⟨⟨7⟩, .variableDecl "x" none⟩, ⟨⟨8⟩, .identifier "x"⟩]
      root := some ⟨0⟩ }
  let candidates : CandidateSet := .ofList [(⟨0⟩ : TreeId), ⟨7⟩, ⟨9⟩]
  { tree
    graph := .skeleton tree
    analysis := Analysis.empty.insert ⟨2⟩ ⟨3⟩
      ⟨(∅ : FactMap).insert ⟨8⟩ candidates, (∅ : FactMap).insert ⟨8⟩ ∅⟩ }

theorem medley_counters :
    let stats := (linkDataflow Bundle.medley.tree Bundle.medley.analysis {}
      Bundle.medley.graph).stats
    Bundle.medley.tree.root = some ⟨0⟩ ∧ stats.sitesVisited = 4 ∧ stats.skippedOutsideMethod = 1 ∧
      stats.skippedUnanalyzed = 1 ∧ stats.skippedNoFact = 2 ∧ stats.missingFeatureNode = 1 ∧
      stats.ambiguousTokens = 1 ∧ stats.edgesAdded + stats.edgesExisting = 1 ∧
      stats.methodsLinked = 0 ∧ stats.returnsSeen = 0 ∧ stats.bareReturns = 0 := by
  intro stats
  have rooted : Bundle.medley.tree.root = some ⟨0⟩ := rfl
  have sites : Bundle.medley.tree.sites ⟨0⟩ =
      [(⟨1⟩, {}), (⟨7⟩, ⟨some ⟨2⟩, some ⟨3⟩⟩), (⟨8⟩, ⟨some ⟨2⟩, some ⟨3⟩⟩),
        (⟨6⟩, ⟨some ⟨2⟩, some ⟨4⟩⟩)] := by cbv
  obtain ⟨_, _, _, _, _, _, counts⟩ :=
    linkDataflow_counters Bundle.medley.tree Bundle.medley.analysis {} Bundle.medley.graph rooted
  simp only [SyntaxTree.namings, SyntaxTree.queries, sites] at counts
  exact ⟨rooted, counts.sitesVisited, counts.skippedOutsideMethod,
    counts.skippedUnanalyzed.trans (by decide), counts.skippedNoFact.trans (by decide),
    counts.missingFeatureNode.trans (by decide), counts.ambiguousTokens.trans (by decide),
    counts.edges.trans (by decide), counts.methodsLinked, counts.returnsSeen, counts.bareReturns⟩

end FlowLink
