import FlowLink.Proofs.Link.Composition
import FlowLink.Proofs.Synthetic.Queries

namespace FlowLink

namespace Synthetic

open Std SyntaxTree FeatureGraph

/-! # Linking synthetic units

Every element that the facts or the methods name is in the tree and has a token.  So every request
is for one edge, no two requests are for the same one, and the counters are those of a unit in which
nothing is passed over but questions without an answer.
-/

variable {methods steps number other place step : Nat} {shape : Shape} {id : TreeId} {edge : Edge}

/-- What linking without any options makes of a synthetic unit over its plain skeleton. -/
abbrev linked (methods steps : Nat) : Progress :=
  linkUnit (tree methods steps) (analysis methods steps) {} (skeleton (tree methods steps))

/-! ## Tokens -/

theorem isSpelled_of_lays (lays : Lays methods steps place shape)
    (spells : shape.isSpelled = true) : (tree methods steps).isSpelled ⟨place⟩ = true := by
  rw [SyntaxTree.isSpelled, shape?_tree_iff.mpr lays]
  exact spells

theorem isSpelled_read (declared : number < methods) (within : step ≤ steps) :
    (tree methods steps).isSpelled ⟨start steps number + 6 * step + 1⟩ = true :=
  isSpelled_of_lays (.read declared within) rfl

theorem isSpelled_written (declared : number < methods) (within : step ≤ steps) :
    (tree methods steps).isSpelled ⟨written (start steps number) step⟩ = true := by
  cases step with
  | zero => exact isSpelled_of_lays (.declaration declared) rfl
  | succ step => exact isSpelled_of_lays (.target declared within) rfl

/-! ## Counters -/

theorem sum_map_eq_length {α : Type} {amount : α → Nat} {items : List α}
    (one : ∀ item ∈ items, amount item = 1) : (items.map amount).sum = items.length := by
  rw [List.map_congr_left one, List.map_const', List.sum_replicate_nat, Nat.mul_one]

theorem linkDataflow_tree (methods steps : Nat) :
    (linkDataflow (tree methods steps) (analysis methods steps) {}
        (skeleton (tree methods steps))).stats.settled =
      { sitesVisited := methods * (2 * steps + 2)
        edgesExisting := methods * (steps + 1)
        skippedNoFact := methods * (3 * steps + 3) } := by
  have sound := tree_sound methods steps
  have rooted := root_tree methods steps
  have counts : (linkDataflow (tree methods steps) (analysis methods steps) {}
      (skeleton (tree methods steps))).stats.CountsDataflow _ _ _ _ _ := linkDataflow_counts rooted
  have spelled : ∀ naming ∈ (tree methods steps).namings (analysis methods steps)
      (unitId methods steps), ∃ shape, (tree methods steps).shape? naming.candidate = some shape ∧
        shape.isSpelled = true := by
    intro naming named
    obtain ⟨number, declared, step, within, rfl⟩ := mem_namings_tree_iff.mp named
    exact (Option.any_eq_true _ _).mp (isSpelled_written declared within)
  obtain ⟨ambiguous, missing⟩ :=
    linkDataflow_skeleton_counters (analysis methods steps) {} sound rooted
  have outside : ((tree methods steps).sites (unitId methods steps)).countP
      (fun visit => visit.2.enclosing.isNone) = 0 := by
    rw [List.countP_eq_zero]
    rintro ⟨id, scope⟩ visited
    obtain ⟨_, _, enclosed⟩ := enclosed_of_site visited
    simp [enclosed]
  have unanalyzed : ((tree methods steps).sites (unitId methods steps)).countP
      (fun visit => visit.2.enclosing.isSome &&
        (visit.2.outputs? (analysis methods steps)).isNone) = 0 := by
    rw [List.countP_eq_zero]
    rintro ⟨id, scope⟩ visited
    obtain ⟨_, analysed⟩ := outputs?_of_site visited
    simp [analysed]
  have tokens : ∀ naming ∈ (tree methods steps).namings (analysis methods steps)
      (unitId methods steps),
        naming.tokenCounts? (skeleton (tree methods steps)) = some (1, 1) := by
    intro naming named
    obtain ⟨shape, found, spells⟩ := spelled naming named
    rw [(tokenCounts?_skeleton sound rooted named).2, found, Option.map_some, spells]
    rfl
  simp only [LinkStats.settled, LinkStats.mk.injEq]
  refine ⟨?sites, trivial, ?edges, ?outside, ?unanalyzed, ?facts, ?missing, ?ambiguous,
    counts.methodsLinked, counts.returnsSeen, counts.bareReturns⟩
  case sites => rw [counts.sitesVisited, length_sites]
  case edges =>
    rw [counts.edges, sum_map_filterMap, sum_map_eq_length,
      (namings_perm methods steps).length_eq, length_chains]
    intro naming named
    rw [tokens naming named]
    rfl
  case outside => rw [counts.skippedOutsideMethod, outside]
  case unanalyzed => rw [counts.skippedUnanalyzed, unanalyzed]
  case facts => rw [counts.skippedNoFact, countP_unanswered]
  case missing =>
    rw [missing, List.countP_eq_zero]
    intro naming named
    obtain ⟨shape, found, _⟩ := spelled naming named
    simp [found]
  case ambiguous =>
    rw [ambiguous, List.countP_eq_zero]
    intro naming named
    obtain ⟨shape, found, spells⟩ := spelled naming named
    simp [found, spells]

theorem treeNode?_of_lays (lays : Lays methods steps place shape) :
    (skeleton (tree methods steps)).treeNode? ⟨place⟩ = some ⟨place⟩ := by
  rw [treeNode?_skeleton_eq_map (tree_sound methods steps), shape?_tree_iff.mpr lays]
  rfl

/-- What every method counts in the return pass. -/
def returnCounts : LinkStats :=
  { sitesVisited := 1, edgesExisting := 1, methodsLinked := 1, returnsSeen := 1 }

theorem sum_replicate_returnCounts (count : Nat) :
    (List.replicate count returnCounts).sum =
      { sitesVisited := count, edgesExisting := count, methodsLinked := count
        returnsSeen := count } := by
  induction count with
  | zero => rfl
  | succ count ih =>
      rw [List.replicate_succ', List.sum_append, List.sum_singleton, ih]
      rfl

theorem methodCounts_tree (declared : number < methods) :
    methodCounts (tree methods steps) .all (skeleton (tree methods steps))
      (method steps number, ⟨start steps number + 6 * steps + 3⟩) = returnCounts := by
  have lays : Lays methods steps _ _ := .method declared
  have laysRead : Lays methods steps _ _ := .read declared le_rfl
  have registered : (skeleton (tree methods steps)).treeNode? (method steps number) =
      some ⟨(method steps number).index⟩ := treeNode?_of_lays lays
  have named := treeNode?_of_lays laysRead
  have tokens : (skeleton (tree methods steps)).tokenCount? ⟨start steps number + 6 * steps + 1⟩ =
      some 1 := by
    have spelled := isSpelled_read declared (Nat.le_refl steps)
    rw [FeatureGraph.tokenCount?, named, Option.map_some]
    exact congrArg some
      ((size_tokens_skeleton (tree_sound methods steps)).trans (congrArg Bool.toNat spelled))
  have returned : (tree methods steps).returned? ⟨start steps number + 6 * steps + 2⟩ =
      some ⟨start steps number + 6 * steps + 1⟩ :=
    returned?_eq_some_iff.mpr (shape?_tree_iff.mpr (.returning declared))
  simp only [methodCounts, searchCounts, returnedCounts, statements_block declared,
    returnedIdentifiers_block declared, registered, List.map_singleton, List.sum_singleton,
    identifierCounts, named, tokens, List.countP_singleton, returned]
  rfl

theorem linkReturns_tree (methods steps : Nat) :
    (linkReturns (tree methods steps) {} (skeleton (tree methods steps))).stats.settled =
      { sitesVisited := methods, edgesExisting := methods, methodsLinked := methods
        returnsSeen := methods } := by
  have each : ∀ declaration ∈ (tree methods steps).methodBodies (unitId methods steps),
      methodCounts (tree methods steps) .all (skeleton (tree methods steps)) declaration =
        returnCounts := by
    intro declaration listed
    obtain ⟨number, declared, rfl⟩ :=
      List.mem_map.mp ((methodBodies_perm methods steps).mem_iff.mp listed)
    exact methodCounts_tree (List.mem_range.mp declared)
  have count := (methodBodies_perm methods steps).length_eq
  rw [List.length_map, List.length_range] at count
  rw [linkReturns_settled (root_tree methods steps) (skeleton_intact _), List.map_congr_left each,
    List.map_const', count, sum_replicate_returnCounts]

/-! ## Edges -/

/-- The edges of the dataflow pass, from the latest write to the read. -/
def writeEdges (methods steps : Nat) : List Edge :=
  (chains methods steps).map fun naming =>
    ⟨(tree methods steps).tokenSlot naming.candidate, (tree methods steps).tokenSlot naming.site,
      .lastWrite⟩

/-- The edges of the return pass, from the returned read to the method. -/
def returnEdges (methods steps : Nat) : List Edge :=
  (List.range methods).map fun number =>
    ⟨(tree methods steps).tokenSlot ⟨start steps number + 6 * steps + 1⟩,
      ⟨(method steps number).index⟩, .returnsTo⟩

theorem writeEdges_nodup (methods steps : Nat) : (writeEdges methods steps).Nodup := by
  apply List.Nodup.map_on _ (chains_nodup methods steps)
  intro naming listed naming' listed' same
  obtain ⟨number, declared, step, within, rfl⟩ := mem_chains_iff.mp listed
  obtain ⟨other, declared', later, within', rfl⟩ := mem_chains_iff.mp listed'
  have token := tokenNode?_of_isSpelled (isSpelled_read declared within)
  have token' := tokenNode?_of_isSpelled (isSpelled_read declared' within')
  have equal : (tree methods steps).tokenSlot (chained steps number step).site =
      (tree methods steps).tokenSlot (chained steps other later).site := congrArg Edge.target same
  have sites := tokenNode?_injective token (token'.trans (congrArg some equal.symm))
  obtain ⟨rfl, rfl⟩ := chained_injective within within' sites
  rfl

theorem returnEdges_nodup (methods steps : Nat) : (returnEdges methods steps).Nodup := by
  apply List.nodup_range.map
  intro number other same
  have equal : (method steps number).index = (method steps other).index :=
    congrArg (fun edge : Edge => edge.target.index) same
  exact method_injective (congrArg TreeId.mk equal)

theorem mem_writeEdges_iff :
    edge ∈ writeEdges methods steps ↔ edge.kind = .lastWrite ∧
      ∃ number < methods, ∃ step ≤ steps,
        edge.source = (tree methods steps).tokenSlot ⟨written (start steps number) step⟩ ∧
        edge.target = (tree methods steps).tokenSlot ⟨start steps number + 6 * step + 1⟩ := by
  simp only [writeEdges, List.mem_map, mem_chains_iff]
  constructor
  · intro listed
    obtain ⟨_, ⟨number, declared, step, within, rfl⟩, rfl⟩ := listed
    exact ⟨rfl, number, declared, step, within, rfl, rfl⟩
  · intro listed
    obtain ⟨source, target, kind⟩ := edge
    obtain ⟨rfl, number, declared, step, within, rfl, rfl⟩ := listed
    exact ⟨_, ⟨number, declared, step, within, rfl⟩, rfl⟩

theorem mem_returnEdges_iff :
    edge ∈ returnEdges methods steps ↔ edge.kind = .returnsTo ∧
      ∃ number < methods,
        edge.source = (tree methods steps).tokenSlot ⟨start steps number + 6 * steps + 1⟩ ∧
        edge.target = ⟨(method steps number).index⟩ := by
  simp only [returnEdges, List.mem_map, List.mem_range]
  constructor
  · intro listed
    obtain ⟨number, declared, rfl⟩ := listed
    exact ⟨rfl, number, declared, rfl, rfl⟩
  · intro listed
    obtain ⟨source, target, kind⟩ := edge
    obtain ⟨rfl, number, declared, rfl, rfl⟩ := listed
    exact ⟨number, declared, rfl⟩

theorem linked_flows_iff {kind : FactKind} (isKind : edge.kind = kind.edgeKind) :
    (linked methods steps).graph.hasEdge edge = true ↔ edge ∈ writeEdges methods steps := by
  obtain ⟨source, target, recorded⟩ := edge
  simp only at isKind
  subst isKind
  rw [hasEdge_flow_skeleton (tree_sound methods steps) (root_tree methods steps) rfl,
    mem_writeEdges_iff]
  constructor
  · intro flow
    obtain ⟨candidate, site, named, spelled, represented⟩ := flow
    obtain ⟨number, declared, step, within, same⟩ := mem_namings_tree_iff.mp named
    cases same
    exact ⟨rfl, number, declared, step, within, (tokenNode?_eq_some_iff.mp spelled).1,
      (tokenNode?_eq_some_iff.mp represented).1⟩
  · intro flow
    obtain ⟨isWrite, number, declared, step, within, rfl, rfl⟩ := flow
    cases kind with
    | lastWrite =>
        exact ⟨_, _, mem_namings_tree_iff.mpr ⟨number, declared, step, within, rfl⟩,
          tokenNode?_of_isSpelled (isSpelled_written declared within),
          tokenNode?_of_isSpelled (isSpelled_read declared within)⟩
    | lastUse => contradiction

theorem linked_returns_iff (isReturn : edge.kind = .returnsTo) :
    (linked methods steps).graph.hasEdge edge = true ↔ edge ∈ returnEdges methods steps := by
  have rooted := root_tree methods steps
  obtain ⟨source, target, _⟩ := edge
  cases isReturn
  rw [hasEdge_returnsTo_skeleton (tree_sound methods steps) rooted, mem_returnEdges_iff]
  have declares : ∀ {number}, number < methods →
      (method steps number, ⟨start steps number + 6 * steps + 3⟩) ∈
        (tree methods steps).methodBodies (unitId methods steps) := by
    intro number declared
    exact (methodBodies_perm methods steps).mem_iff.mpr
      (List.mem_map.mpr ⟨number, List.mem_range.mpr declared, rfl⟩)
  constructor
  · intro flow
    obtain ⟨_, _, identifier, returned, rfl, represented⟩ := flow
    obtain ⟨body, isBody⟩ := declared_of_returns rooted returned
    obtain ⟨number, listed, same⟩ :=
      List.mem_map.mp ((methodBodies_perm methods steps).mem_iff.mp isBody)
    cases same
    have declared := List.mem_range.mp listed
    rw [returns_iff_mem_returnedIdentifiers rooted (declares declared),
      returnedIdentifiers_block declared, List.mem_singleton] at returned
    subst returned
    exact ⟨rfl, number, declared, (tokenNode?_eq_some_iff.mp represented).1, rfl⟩
  · intro flow
    obtain ⟨_, number, declared, rfl, rfl⟩ := flow
    refine ⟨rfl, method steps number, _, ?_, rfl,
      tokenNode?_of_isSpelled (isSpelled_read declared le_rfl)⟩
    rw [returns_iff_mem_returnedIdentifiers rooted (declares declared),
      returnedIdentifiers_block declared]
    exact List.mem_singleton.mpr rfl

theorem kind_of_mem_writeEdges (listed : edge ∈ writeEdges methods steps) :
    edge.kind = .lastWrite := (mem_writeEdges_iff.mp listed).1

theorem kind_of_mem_returnEdges (listed : edge ∈ returnEdges methods steps) :
    edge.kind = .returnsTo := (mem_returnEdges_iff.mp listed).1

theorem isSkeleton_of_skeleton (present : (skeleton (tree methods steps)).hasEdge edge = true) :
    edge.kind.isSkeleton = true := by
  have kinds := (skeleton_represents (tree_sound methods steps)).kinds edge present
  rcases kinds with kind | kind <;> rw [kind] <;> rfl

theorem isSkeleton_of_added
    (added : edge ∈ writeEdges methods steps ∨ edge ∈ returnEdges methods steps) :
    edge.kind.isSkeleton = false := by
  rcases added with written | returned
  · rw [kind_of_mem_writeEdges written]
    rfl
  · rw [kind_of_mem_returnEdges returned]
    rfl

theorem semantic_cases {kind : EdgeKind} (semantic : kind.isSkeleton = false) :
    kind = .returnsTo ∨ ∃ fact : FactKind, kind = fact.edgeKind := by
  cases kind with
  | astChild | associatedToken | nextToken => contradiction
  | lastWrite => exact .inr ⟨.lastWrite, rfl⟩
  | lastUse => exact .inr ⟨.lastUse, rfl⟩
  | returnsTo => exact .inl rfl

theorem hasEdge_linked_iff :
    (linked methods steps).graph.hasEdge edge = true ↔
      (skeleton (tree methods steps)).hasEdge edge = true ∨ edge ∈ writeEdges methods steps ∨
        edge ∈ returnEdges methods steps := by
  cases isSkeleton : edge.kind.isSkeleton with
  | true =>
      rw [(linkUnit_enriches _ _ _ _).skeleton edge isSkeleton, or_iff_left]
      intro added
      exact absurd ((isSkeleton_of_added added).symm.trans isSkeleton) Bool.false_ne_true
  | false =>
      rw [or_iff_right fun present =>
        absurd (isSkeleton.symm.trans (isSkeleton_of_skeleton present)) Bool.false_ne_true]
      rcases semantic_cases isSkeleton with returns | ⟨kind, flows⟩
      · rw [linked_returns_iff returns, or_iff_right]
        intro written
        rw [kind_of_mem_writeEdges written] at returns
        contradiction
      · rw [linked_flows_iff flows, or_iff_left]
        intro returned
        rw [kind_of_mem_returnEdges returned] at flows
        cases kind <;> contradiction

theorem edges_perm (methods steps : Nat) :
    (linked methods steps).graph.edges.Perm
      ((skeleton (tree methods steps)).edges ++
        (writeEdges methods steps ++ returnEdges methods steps)) := by
  have apart : ∀ edge ∈ writeEdges methods steps, edge ∉ returnEdges methods steps := by
    intro edge written returned
    have isWrite := kind_of_mem_writeEdges written
    rw [kind_of_mem_returnEdges returned] at isWrite
    contradiction
  have new : ∀ edge ∈ (skeleton (tree methods steps)).edges,
      edge ∉ writeEdges methods steps ++ returnEdges methods steps := by
    intro edge listed added
    have isSkeleton := isSkeleton_of_skeleton (mem_edges_iff.mp listed)
    rw [isSkeleton_of_added (List.mem_append.mp added)] at isSkeleton
    contradiction
  have nodup := (edges_nodup (skeleton (tree methods steps))).append
    ((writeEdges_nodup methods steps).append (returnEdges_nodup methods steps) apart) new
  apply (List.perm_ext_iff_of_nodup (edges_nodup _) nodup).mpr
  intro edge
  rw [mem_edges_iff, hasEdge_linked_iff, List.mem_append, List.mem_append, mem_edges_iff]

/-- What linking adds to the skeleton of a synthetic unit: in each method an edge from the token of
the declaration to that of the first read, one from the token of each assigned variable to that of
the next read, and one from the token of the last read, which is returned, to the method. -/
inductive Adds (methods steps : Nat) (graph : FeatureGraph) : Edge → Prop
  | declared {number : Nat} {source target : NodeId} (declared : number < methods)
      (isSource : graph.tokenOf? ⟨start steps number⟩ = some source)
      (isTarget : graph.tokenOf? ⟨start steps number + 1⟩ = some target) :
      Adds methods steps graph ⟨source, target, .lastWrite⟩
  | assigned {number step : Nat} {source target : NodeId} (declared : number < methods)
      (within : step < steps)
      (isSource : graph.tokenOf? ⟨start steps number + 6 * step + 4⟩ = some source)
      (isTarget : graph.tokenOf? ⟨start steps number + 6 * (step + 1) + 1⟩ = some target) :
      Adds methods steps graph ⟨source, target, .lastWrite⟩
  | returned {number : Nat} {source target : NodeId} (declared : number < methods)
      (isSource : graph.tokenOf? ⟨start steps number + 6 * steps + 1⟩ = some source)
      (isTarget : graph.treeNode? ⟨start steps number + 6 * steps + 4⟩ = some target) :
      Adds methods steps graph ⟨source, target, .returnsTo⟩

theorem tokenOf?_of_isSpelled (spelled : (tree methods steps).isSpelled id = true) :
    (skeleton (tree methods steps)).tokenOf? id = some ((tree methods steps).tokenSlot id) := by
  rw [tokenOf?_skeleton (tree_sound methods steps), tokenNode?_of_isSpelled spelled]

theorem adds_iff :
    Adds methods steps (skeleton (tree methods steps)) edge ↔
      edge ∈ writeEdges methods steps ∨ edge ∈ returnEdges methods steps := by
  have slot : ∀ {id token}, (skeleton (tree methods steps)).tokenOf? id = some token →
      token = (tree methods steps).tokenSlot id := by
    intro id token represented
    rw [tokenOf?_skeleton (tree_sound methods steps)] at represented
    exact (tokenNode?_eq_some_iff.mp represented).1
  rw [mem_writeEdges_iff, mem_returnEdges_iff]
  constructor
  · intro adds
    cases adds with
    | declared declared isSource isTarget =>
        exact .inl ⟨rfl, _, declared, 0, Nat.zero_le _, slot isSource, slot isTarget⟩
    | @assigned _ step _ _ declared within isSource isTarget =>
        exact .inl ⟨rfl, _, declared, step + 1, within, slot isSource, slot isTarget⟩
    | returned declared isSource isTarget =>
        have lays : Lays methods steps _ _ := .method declared
        cases (treeNode?_of_lays lays).symm.trans isTarget
        exact .inr ⟨rfl, _, declared, slot isSource, rfl⟩
  · obtain ⟨source, target, kind⟩ := edge
    rintro (⟨rfl, number, declared, step, within, rfl, rfl⟩ | ⟨rfl, number, declared, rfl, rfl⟩)
    · have isSource := tokenOf?_of_isSpelled (isSpelled_written declared within)
      have isTarget := tokenOf?_of_isSpelled (isSpelled_read declared within)
      cases step with
      | zero => exact .declared declared isSource isTarget
      | succ step => exact .assigned declared within isSource isTarget
    · exact .returned declared (tokenOf?_of_isSpelled (isSpelled_read declared le_rfl))
        (treeNode?_of_lays (.method declared))

/-! ## Totals -/

theorem length_added (methods steps : Nat) :
    (writeEdges methods steps ++ returnEdges methods steps).length = methods * (steps + 2) := by
  rw [List.length_append, writeEdges, returnEdges, List.length_map, List.length_map,
    List.length_range, length_chains, ← Nat.mul_succ]

theorem linkUnit_edgesAdded (methods steps : Nat) :
    (linked methods steps).stats.edgesAdded = methods * (steps + 2) := by
  have grown : (linked methods steps).Accounts (skeleton (tree methods steps)) := linkUnit_accounts
  rw [Progress.Accounts, edgeCount_eq_length, edgeCount_eq_length,
    (edges_perm methods steps).length_eq, List.length_append, length_added] at grown
  exact (Nat.add_left_cancel grown).symm

theorem linkUnit_stats_tree (methods steps : Nat) :
    (linked methods steps).stats =
      { sitesVisited := methods * (2 * steps + 3)
        edgesAdded := methods * (steps + 2)
        skippedNoFact := methods * (3 * steps + 3)
        methodsLinked := methods
        returnsSeen := methods } := by
  apply LinkStats.eq_of_settled
  · rw [linkUnit_stats rfl rfl, LinkStats.settled_add, linkDataflow_tree, linkReturns_tree]
    simp only [LinkStats.add_def, LinkStats.add, LinkStats.settled, LinkStats.mk.injEq]
    grind
  · exact linkUnit_edgesAdded methods steps

/-- How many edges of a kind linking adds. -/
def addedOfKind (methods steps : Nat) : EdgeKind → Nat
  | .lastWrite => methods * (steps + 1)
  | .returnsTo => methods
  | _ => 0

theorem length_edgesOfKind (kind : EdgeKind) :
    ((linked methods steps).graph.edgesOfKind kind).length =
      ((skeleton (tree methods steps)).edgesOfKind kind).length +
        addedOfKind methods steps kind := by
  have writes : (writeEdges methods steps).countP (fun edge => edge.kind = kind) =
      if kind = .lastWrite then methods * (steps + 1) else 0 := by
    rw [writeEdges, List.countP_map, ← length_chains]
    cases kind <;> simp [Function.comp_def]
  have returns : (returnEdges methods steps).countP (fun edge => edge.kind = kind) =
      if kind = .returnsTo then methods else 0 := by
    rw [returnEdges, List.countP_map]
    cases kind <;> simp [Function.comp_def]
  have split := (edges_perm methods steps).countP_eq fun edge => edge.kind = kind
  rw [List.countP_append, List.countP_append, writes, returns] at split
  rw [edgesOfKind, edgesOfKind, ← List.countP_eq_length_filter, ← List.countP_eq_length_filter,
    split]
  cases kind <;> simp [addedOfKind]

end Synthetic

open Synthetic

/-- Synthetic units of every size link completely.  Tree and skeleton are without defects and have
these many elements and nodes; the tree consists of the methods one after the other, the class and
the unit, which is the root.  Linking adds the chains of the methods and what they return, and
passes over nothing but questions to which the facts have no answer. -/
theorem syntheticUnit_linked (methods steps : Nat) :
    let unit := syntheticUnit methods steps
    let graph := FeatureGraph.skeleton unit.1
    let linked := linkUnit unit.1 unit.2 {} graph
    (unit.1.size = methods * (6 * steps + 5) + 2 ∧
        graph.nodeCount = methods * (9 * steps + 8) + 3) ∧
      (unit.1.defect? = none ∧ graph.defect? = none) ∧
      (unit.1.root = some (unitId methods steps) ∧
        ∀ id shape, unit.1.shape? id = some shape ↔ Lays methods steps id.index shape) ∧
      (∀ edge, linked.graph.hasEdge edge = true ↔
        graph.hasEdge edge = true ∨ Adds methods steps graph edge) ∧
      (∀ kind, (linked.graph.edgesOfKind kind).length =
        (graph.edgesOfKind kind).length + addedOfKind methods steps kind) ∧
      linked.stats =
        { sitesVisited := methods * (2 * steps + 3)
          edgesAdded := methods * (steps + 2)
          skippedNoFact := methods * (3 * steps + 3)
          methodsLinked := methods
          returnsSeen := methods } := by
  simp only [syntheticUnit_eq]
  refine ⟨⟨size_tree _ _, nodeCount_skeleton_tree _ _⟩,
    ⟨SyntaxTree.defect?_eq_none_iff.mpr (tree_sound _ _), ?_⟩,
    ⟨root_tree _ _, fun _ _ => shape?_tree_iff⟩, ?_, fun _ => length_edgesOfKind _,
    linkUnit_stats_tree _ _⟩
  · exact FeatureGraph.defect?_eq_none_iff.mpr (FeatureGraph.skeleton_intact _)
  · intro edge
    rw [hasEdge_linked_iff, adds_iff]

end FlowLink
