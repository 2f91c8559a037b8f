import FlowLink.Proofs.Link.Growth
import Mathlib.Algebra.BigOperators.Group.List.Basic
import Mathlib.Algebra.GroupWithZero.Nat

namespace FlowLink

open Std FeatureGraph

/-! # What a row of actions counts

Whether an edge counts as added or as existing depends on what came before it.  That it counts at
all does not: it does if the graph has it, or has both its ends.  So the counters of a row are the
sum of what its actions count, but for the share of the added edges, which is the growth of the
graph.  Rows that hold the same actions in another order therefore lead to the same counters and the
same graph.
-/

namespace LinkStats

theorem add_def (left right : LinkStats) : left + right = left.add right := rfl

instance : Zero LinkStats := ⟨{}⟩

theorem zero_def : (0 : LinkStats) = {} := rfl

instance : AddCommMonoid LinkStats where
  add_assoc left middle right := by
    simp only [add_def, add, Nat.add_assoc]
  zero_add stats := by
    change add {} stats = stats
    simp only [add, Nat.zero_add]
  add_zero stats := by
    change add stats {} = stats
    simp only [add, Nat.add_zero]
  add_comm left right := by
    simp only [add_def, add, Nat.add_comm]
  nsmul := nsmulRec

theorem advance_eq_add (stats : LinkStats) (amount : Nat) (counter : Counter) :
    stats.advance amount counter = stats + (0 : LinkStats).advance amount counter := by
  change stats.advance amount counter = stats.add (advance {} amount counter)
  cases counter <;> simp only [advance, add, Nat.zero_add, Nat.add_zero]

theorem field_sum {α : Type} (field : LinkStats → Nat) (zero : field 0 = 0)
    (adds : ∀ left right, field (left + right) = field left + field right)
    (items : List α) (counts : α → LinkStats) :
    field (items.map counts).sum = (items.map fun item => field (counts item)).sum := by
  induction items with
  | nil => exact zero
  | cons item rest ih => rw [List.map_cons, List.sum_cons, adds, ih, List.map_cons, List.sum_cons]

theorem edges_add (left right : LinkStats) :
    (left + right).edgesAdded + (left + right).edgesExisting =
      left.edgesAdded + left.edgesExisting + (right.edgesAdded + right.edgesExisting) :=
  Nat.add_add_add_comm _ _ _ _

theorem sum_flatMap {α : Type} (items : List α) (rows : α → List LinkStats) :
    (items.flatMap rows).sum = (items.map fun item => (rows item).sum).sum := by
  rw [List.flatMap_def, List.sum_flatten, List.map_map]
  rfl

/-- The counters are known from what they are with all edges counted as existing, and from how many
of these were added. -/
theorem eq_of_settled {left right : LinkStats} (settled : left.settled = right.settled)
    (added : left.edgesAdded = right.edgesAdded) : left = right := by
  obtain ⟨_, _, existing, _⟩ := left
  obtain ⟨_, _, existing', _⟩ := right
  simp only [LinkStats.settled, LinkStats.mk.injEq] at settled added ⊢
  obtain ⟨visited, _, sum, rest⟩ := settled
  exact ⟨visited, added, by omega, rest⟩

end LinkStats

theorem countP_eq_sum {α : Type} (test : α → Bool) (items : List α) :
    items.countP test = (items.map fun item => (test item).toNat).sum := by
  induction items with
  | nil => rfl
  | cons item rest ih =>
      rw [List.countP_cons, List.map_cons, List.sum_cons, ih, Nat.add_comm]
      cases test item <;> rfl

theorem countP_filterMap_any {α β : Type} (answer? : α → Option β) (test : β → Bool)
    (items : List α) :
    (items.filterMap answer?).countP test =
      items.countP fun item => (answer? item).any test := by
  rw [List.countP_filterMap]
  apply List.countP_congr
  intro item _
  cases answer? item <;> rfl

theorem sum_map_filterMap {α β : Type} (answer? : α → Option β) (amount : β → Nat)
    (items : List α) :
    ((items.filterMap answer?).map amount).sum =
      (items.map fun item => ((answer? item).map amount).getD 0).sum := by
  induction items with
  | nil => rfl
  | cons item rest ih => cases known : answer? item <;> simp [known, ih]

theorem length_eq_countP_isNone_add {α β : Type} (answer? : α → Option β) (items : List α) :
    items.length =
      items.countP (fun item => (answer? item).isNone) + (items.filterMap answer?).length := by
  induction items with
  | nil => rfl
  | cons item rest ih =>
      cases known : answer? item with
      | none => simp [known, ih, Nat.add_right_comm]
      | some answer => simp [known, ih, Nat.add_assoc]

theorem sum_map_congr {α : Type} {first second : α → Nat} {items : List α}
    (same : ∀ item, first item = second item) : (items.map first).sum = (items.map second).sum := by
  rw [funext same]

namespace FeatureGraph

/-- The graph has the edge, or has both its ends and may come to have it. -/
def admits (graph : FeatureGraph) (edge : Edge) : Bool := graph.hasEdge edge || graph.hasEnds edge

variable {graph : FeatureGraph} {edge other : Edge}

theorem admits_putEdge : (graph.putEdge edge).1.admits other = graph.admits other := by
  have ends : (graph.putEdge edge).1.hasEnds other = graph.hasEnds other := hasEnds_putEdges [edge]
  rw [Bool.eq_iff_iff, admits, admits, ends, Bool.or_eq_true, Bool.or_eq_true, hasEdge_putEdge]
  constructor
  · intro either
    rcases either with (present | ⟨rfl, tied⟩) | tied
    · exact Or.inl present
    · exact Or.inr tied
    · exact Or.inr tied
  · intro either
    rcases either with present | tied
    · exact Or.inl (Or.inl present)
    · exact Or.inr tied

theorem admits_putEdges (edges : List Edge) :
    (graph.putEdges edges).admits other = graph.admits other := by
  induction edges generalizing graph with
  | nil => rfl
  | cons edge rest ih => exact ih.trans admits_putEdge

theorem putCounted_settled (graph : FeatureGraph) (outcome : LinkOutcome) (edge : Edge) :
    (putCounted (graph, outcome) edge).2.settled =
      { outcome.settled with
        existing := outcome.settled.existing + if graph.admits edge then 1 else 0 } := by
  cases present : graph.hasEdge edge with
  | true =>
      rw [putCounted_of_present present, admits, present]
      rfl
  | false =>
      cases ends : graph.hasEnds edge with
      | true =>
          have sum : outcome.added + 1 + outcome.existing =
              outcome.added + outcome.existing + 1 := by omega
          rw [putCounted_of_new ends present, admits, present, ends]
          simp [LinkOutcome.settled, sum]
      | false =>
          rw [putCounted_of_loose ends present, admits, present, ends]
          rfl

theorem foldl_putCounted_settled (edges : List Edge) (graph : FeatureGraph)
    (outcome : LinkOutcome) :
    (edges.foldl putCounted (graph, outcome)).2.settled =
      { outcome.settled with
        existing := outcome.settled.existing + edges.countP graph.admits } := by
  induction edges generalizing graph outcome with
  | nil => rfl
  | cons edge rest ih =>
      have first : putCounted (graph, outcome) edge =
          ((graph.putEdge edge).1, (putCounted (graph, outcome) edge).2) :=
        Prod.ext (putCounted_graph graph outcome edge) rfl
      have same : (graph.putEdge edge).1.admits = graph.admits := funext fun _ => admits_putEdge
      rw [List.foldl_cons, first, ih, putCounted_settled, same, List.countP_cons, Nat.add_assoc,
        Nat.add_comm (if graph.admits edge = true then 1 else 0)]

theorem putProduct_settled (graph : FeatureGraph) (sources dests : ExtTreeSet NodeId)
    (kind : EdgeKind) :
    (graph.putProduct sources dests kind).2.settled =
      { sourceTokens := sources.size
        destTokens := dests.size
        added := 0
        existing := (productEdges sources dests kind).countP graph.admits } := by
  rw [putProduct, foldl_putCounted_settled]
  simp [LinkOutcome.settled]

theorem length_productEdges (sources dests : ExtTreeSet NodeId) (kind : EdgeKind) :
    (productEdges sources dests kind).length = sources.size * dests.size := by
  simp [productEdges, List.length_flatMap]

theorem mem_singleton_ofList {α : Type} [Ord α] [TransOrd α] [LawfulEqOrd α] [DecidableEq α]
    {item only : α} : item ∈ ExtTreeSet.ofList [only] ↔ item = only := by
  rw [ExtTreeSet.mem_ofList, List.contains_iff_mem, List.mem_singleton]

theorem size_singleton_ofList (dest : NodeId) : (ExtTreeSet.ofList [dest]).size = 1 := rfl

/-- Every edge between nodes of the graph counts. -/
theorem countP_admits_productEdges {sources dests : ExtTreeSet NodeId}
    (fromNodes : ∀ source ∈ sources, graph.hasNode source = true)
    (toNodes : ∀ dest ∈ dests, graph.hasNode dest = true) (kind : EdgeKind) :
    (productEdges sources dests kind).countP graph.admits = sources.size * dests.size := by
  rw [← length_productEdges sources dests kind, List.countP_eq_length]
  intro edge asked
  obtain ⟨isSource, isTarget, _⟩ := mem_productEdges.mp asked
  rw [admits, hasEnds, fromNodes _ isSource, toNodes _ isTarget]
  exact Bool.or_true _

theorem countP_admits_tokens (source dest : NodeId) (kind : EdgeKind) :
    (productEdges (graph.tokens source) (graph.tokens dest) kind).countP graph.admits =
      (graph.tokens source).size * (graph.tokens dest).size :=
  countP_admits_productEdges (fun _ member => hasNode_of_mem_tokens member)
    (fun _ member => hasNode_of_mem_tokens member) kind

end FeatureGraph

/-- What an action counts, with each of its edges that counts at all counted as existing. -/
def Action.counts (graph : FeatureGraph) : Action → LinkStats
  | tally counter amount => (0 : LinkStats).advance amount counter
  | notify _ => 0
  | link request sources dests =>
    { edgesExisting := (productEdges sources dests request.kind).countP graph.admits
      ambiguousTokens := if sources.size ≠ 1 || dests.size ≠ 1 then 1 else 0 }

theorem Action.counts_putEdges {graph : FeatureGraph} (edges : List Edge) (action : Action) :
    action.counts (graph.putEdges edges) = action.counts graph := by
  have same : (graph.putEdges edges).admits = graph.admits := funext fun _ => admits_putEdges edges
  cases action with
  | tally counter amount => rfl
  | notify event => rfl
  | link request sources dests => rw [counts, counts, same]

def rowCounts (graph : FeatureGraph) (actions : List Action) : LinkStats :=
  (actions.map (Action.counts graph)).sum

theorem rowCounts_nil {graph : FeatureGraph} : rowCounts graph [] = 0 := rfl

theorem rowCounts_cons {graph : FeatureGraph} (action : Action) (actions : List Action) :
    rowCounts graph (action :: actions) = action.counts graph + rowCounts graph actions :=
  List.sum_cons

theorem rowCounts_flatMap {graph : FeatureGraph} {α : Type} (items : List α)
    (actions : α → List Action) :
    rowCounts graph (items.flatMap actions) =
      (items.map fun item => rowCounts graph (actions item)).sum := by
  rw [rowCounts, List.map_flatMap, LinkStats.sum_flatMap]
  rfl

namespace Progress

variable {config : LinkConfig} {progress : Progress}

theorem record_settled (request : Edge) (result : FeatureGraph × LinkOutcome) :
    (progress.record config request result).stats.settled =
      progress.stats.settled +
        { edgesExisting := result.2.settled.existing
          ambiguousTokens := if result.2.isAmbiguous then 1 else 0 } := by
  have sum : progress.stats.edgesAdded + result.2.added +
        (progress.stats.edgesExisting + result.2.existing) =
      progress.stats.edgesAdded + progress.stats.edgesExisting +
        (result.2.added + result.2.existing) := by omega
  simp only [record]
  cases ambiguous : result.2.isAmbiguous with
  | true =>
      simp [count, report, LinkStats.settled, LinkOutcome.settled, LinkStats.add_def, LinkStats.add,
        sum]
  | false =>
      simp [count, LinkStats.settled, LinkOutcome.settled, LinkStats.add_def, LinkStats.add, sum]

theorem perform_settled (config : LinkConfig) (progress : Progress) (action : Action) :
    (progress.perform config action).stats.settled =
      progress.stats.settled + action.counts progress.graph := by
  cases action with
  | tally counter amount =>
      change (progress.stats.advance amount counter).settled = _
      rw [LinkStats.settled_advance, LinkStats.advance_eq_add]
      rfl
  | notify event => exact (add_zero progress.stats.settled).symm
  | link request sources dests =>
      have settled := putProduct_settled progress.graph sources dests request.kind
      have ambiguous : (progress.graph.putProduct sources dests request.kind).2.isAmbiguous =
          (sources.size ≠ 1 || dests.size ≠ 1) := congrArg LinkOutcome.isAmbiguous settled
      rw [perform, record_settled, ambiguous, settled]
      rfl

/-- All counters of a row of actions, but for how many of the edges are new. -/
theorem performAll_settled (config : LinkConfig) (progress : Progress) (actions : List Action) :
    (progress.performAll config actions).stats.settled =
      progress.stats.settled + (actions.map (Action.counts progress.graph)).sum := by
  induction actions generalizing progress with
  | nil => exact (add_zero progress.stats.settled).symm
  | cons action rest ih =>
      have same : Action.counts (progress.perform config action).graph =
          Action.counts progress.graph := by
        funext later
        rw [perform_graph, Action.counts_putEdges]
      have later := ih (progress.perform config action)
      rw [same, perform_settled, add_assoc] at later
      rw [List.map_cons, List.sum_cons]
      exact later

variable {first second : List Action}

/-- Two rows lead to the same counters if their actions count the same in total and if they let
graphs of one size grow to one size. -/
theorem performAll_stats_congr {left right : FeatureGraph} {other : LinkConfig}
    (counted : (first.map (Action.counts left)).sum = (second.map (Action.counts right)).sum)
    (before : left.edgeCount = right.edgeCount)
    (after : (left.putEdges (requested first)).edgeCount =
      (right.putEdges (requested second)).edgeCount) :
    ((start left).performAll config first).stats =
      ((start right).performAll other second).stats := by
  have grown : ∀ (config : LinkConfig) (graph : FeatureGraph) (actions : List Action),
      (graph.putEdges (requested actions)).edgeCount =
        graph.edgeCount + ((start graph).performAll config actions).stats.edgesAdded := by
    intro config graph actions
    have graphs := performAll_graph config (start graph) actions
    exact (congrArg edgeCount graphs).symm.trans
      (performAll_accounts (start_accounts graph) actions)
  apply LinkStats.eq_of_settled
  · rw [performAll_settled, performAll_settled]
    exact congrArg _ counted
  · have grownLeft := grown config left first
    have grownRight := grown other right second
    omega

/-- It does not matter in which order the actions of a row are performed. -/
theorem performAll_perm (config : LinkConfig) (graph : FeatureGraph)
    (same : first.Perm second) :
    ((start graph).performAll config first).graph =
        ((start graph).performAll config second).graph ∧
      ((start graph).performAll config first).stats =
        ((start graph).performAll config second).stats := by
  have graphs : graph.putEdges (requested first) = graph.putEdges (requested second) := by
    apply putEdges_congr
    intro edge
    exact (same.flatMap_right Action.edges).mem_iff
  constructor
  · rw [performAll_graph, performAll_graph]
    exact graphs
  · exact performAll_stats_congr (same.map _).sum_eq rfl (congrArg edgeCount graphs)

end Progress

end FlowLink
