import FlowLink.Proofs.Link.Counters
import Mathlib.Data.List.Forall2

namespace FlowLink

open Std FeatureGraph

/-! # Reports and counters

What a pass reports is known from its row of actions, like what it counts.  A condition that is both
reported and counted is reported as often as it is counted, since every action does either both or
neither.  How much a report matters is the only thing that the configuration decides about it, and
nothing is ever decided by what was reported.
-/

/-! ## What a row of actions reports -/

def Action.events (config : LinkConfig) : Action → List Event
  | tally _ _ => []
  | notify event => [event]
  | link request sources dests =>
    if sources.size ≠ 1 || dests.size ≠ 1 then
      [.ambiguousTokens config.warnAmbiguous request sources.size dests.size]
    else
      []

namespace Progress

variable {config : LinkConfig} {progress : Progress}

theorem record_events (request : Edge) (result : FeatureGraph × LinkOutcome) :
    (progress.record config request result).events.toList = progress.events.toList ++
      if result.2.isAmbiguous then
        [.ambiguousTokens config.warnAmbiguous request result.2.sourceTokens result.2.destTokens]
      else
        [] := by
  simp only [record]
  split
  · exact Array.toList_push
  · exact (List.append_nil _).symm

theorem perform_events (config : LinkConfig) (progress : Progress) (action : Action) :
    (progress.perform config action).events.toList =
      progress.events.toList ++ action.events config := by
  cases action with
  | tally counter amount => exact (List.append_nil _).symm
  | notify event => exact Array.toList_push
  | link request sources dests =>
      have settled := putProduct_settled progress.graph sources dests request.kind
      have ambiguous : (progress.graph.putProduct sources dests request.kind).2.isAmbiguous =
          (sources.size ≠ 1 || dests.size ≠ 1) := congrArg LinkOutcome.isAmbiguous settled
      have isSource := congrArg LinkOutcome.sourceTokens settled
      have isDest := congrArg LinkOutcome.destTokens settled
      simp only [LinkOutcome.settled] at isSource isDest
      rw [perform, record_events, ambiguous, isSource, isDest]
      rfl

/-- The counterpart of `performAll_graph` and `performAll_settled` for reports. -/
theorem performAll_events (config : LinkConfig) (progress : Progress) (actions : List Action) :
    (progress.performAll config actions).events.toList =
      progress.events.toList ++ actions.flatMap (Action.events config) := by
  induction actions generalizing progress with
  | nil => exact (List.append_nil _).symm
  | cons action rest ih =>
      rw [List.flatMap_cons, ← List.append_assoc, ← perform_events]
      exact ih (progress.perform config action)

end Progress

/-- How the rows of a pass are made up.  Each event that a row has by itself goes with a tally, and
the counters of conditions that are reported advance with such an event only. -/
inductive Accounted : Pass → List Action → Prop
  | nil {pass : Pass} : Accounted pass []
  | append {pass : Pass} {first second : List Action} (isFirst : Accounted pass first)
      (isSecond : Accounted pass second) : Accounted pass (first ++ second)
  | link {pass : Pass} (request : Edge) (sources dests : ExtTreeSet NodeId) :
      Accounted pass [.link request sources dests]
  | tally {pass : Pass} (counter : Counter) (amount : Nat) (analysed : counter ≠ .skippedUnanalyzed)
      (registered : counter ≠ .missingFeatureNode) : Accounted pass [.tally counter amount]
  | methodNotAnalysed (classId method : TreeId) :
      Accounted .dataflow [.notify (.methodNotAnalysed classId method), .tally .skippedUnanalyzed 1]
  | siteWithoutNode (site : TreeId) :
      Accounted .dataflow [.notify (.siteWithoutNode site), .tally .missingFeatureNode 1]
  | candidateWithoutNode (candidate : TreeId) :
      Accounted .dataflow
        [.notify (.candidateWithoutNode candidate), .tally .missingFeatureNode 1]
  | identifierWithoutNode (identifier : TreeId) :
      Accounted .returnsTo
        [.notify (.identifierWithoutNode identifier), .tally .missingFeatureNode 1]
  | methodWithoutNode (method : TreeId) (identifiers : Nat) :
      Accounted .returnsTo
        [.notify (.methodWithoutNode method), .tally .missingFeatureNode identifiers]

section

variable {tree : SyntaxTree} {analysis : Analysis} {mode : ReturnMode} {graph : FeatureGraph}
  {root : TreeId} {pass : Pass}

theorem Accounted.flatMap {α : Type} {items : List α} {rows : α → List Action}
    (each : ∀ item, Accounted pass (rows item)) : Accounted pass (items.flatMap rows) := by
  induction items with
  | nil => exact .nil
  | cons item rest ih =>
      rw [List.flatMap_cons]
      exact (each item).append ih

theorem factActions_accounted (outputs : MethodFacts) (site : TreeId) (kind : FactKind) :
    Accounted .dataflow (factActions graph outputs site kind) := by
  unfold factActions
  cases outputs.candidates? kind site with
  | none => exact .tally .skippedNoFact 1 nofun nofun
  | some candidates =>
      simp only
      cases candidates.isEmpty with
      | true => exact .nil
      | false =>
          rw [if_neg Bool.false_ne_true]
          cases graph.treeNode? site with
          | none => exact .siteWithoutNode site
          | some siteNode =>
              apply Accounted.flatMap
              intro candidate
              unfold candidateActions
              cases graph.treeNode? candidate with
              | none => exact .candidateWithoutNode candidate
              | some prior => exact .link _ _ _

theorem dataflowActions_accounted :
    Accounted .dataflow (dataflowActions tree analysis root graph) := by
  apply Accounted.flatMap
  intro visit
  unfold siteActions
  apply (Accounted.tally .sitesVisited 1 nofun nofun).append
  cases visit.2.enclosing with
  | none => exact .tally .skippedOutsideMethod 1 nofun nofun
  | some place =>
      obtain ⟨classId, method⟩ := place
      simp only
      cases analysis.get? classId method with
      | none => exact .methodNotAnalysed classId method
      | some outputs => exact .flatMap fun kind => factActions_accounted outputs visit.1 kind

theorem returnedActions_accounted (method : TreeId) (identifiers : List TreeId) :
    Accounted .returnsTo (returnedActions graph method identifiers) := by
  unfold returnedActions
  cases identifiers.isEmpty with
  | true => exact .nil
  | false =>
      rw [if_neg Bool.false_ne_true]
      cases graph.treeNode? method with
      | none => exact .methodWithoutNode method identifiers.length
      | some methodNode =>
          apply (Accounted.tally .methodsLinked 1 nofun nofun).append
          apply Accounted.flatMap
          intro identifier
          unfold identifierActions
          apply (Accounted.tally .sitesVisited 1 nofun nofun).append
          cases graph.treeNode? identifier with
          | none => exact .identifierWithoutNode identifier
          | some node => exact .link _ _ _

theorem returnActions_accounted : Accounted .returnsTo (returnActions tree mode root graph) := by
  apply Accounted.flatMap
  intro declaration
  exact (Accounted.tally .returnsSeen _ nofun nofun).append
    ((Accounted.tally .bareReturns _ nofun nofun).append (returnedActions_accounted _ _))

end

/-! ## Conditions with a counter -/

/-- A condition that is reported where it is counted. -/
inductive Condition where
  | ambiguous
  | unanalysed
  | unregistered

namespace Condition

def messages : Condition → List String
  | ambiguous => ["ambiguous token resolution"]
  | unanalysed => ["method was not analysed"]
  | unregistered => ["site has no feature node", "candidate has no feature node"]

def counter : Condition → LinkStats → Nat
  | ambiguous => LinkStats.ambiguousTokens
  | unanalysed => LinkStats.skippedUnanalyzed
  | unregistered => LinkStats.missingFeatureNode

/-- The pass reports the condition every time that it counts it.  The return pass has a single
report for all identifiers of a method that is not registered. -/
def isReportedBy : Condition → Pass → Bool
  | ambiguous, _ => true
  | _, .dataflow => true
  | _, .returnsTo => false

variable (condition : Condition)

theorem counter_zero : condition.counter 0 = 0 := by
  cases condition <;> rfl

theorem counter_add (left right : LinkStats) :
    condition.counter (left + right) = condition.counter left + condition.counter right := by
  cases condition <;> rfl

theorem counter_settled (stats : LinkStats) :
    condition.counter stats.settled = condition.counter stats := by
  cases condition <;> rfl

end Condition

/-- How many of the events have one of these messages. -/
def reports (messages : List String) (events : List Event) : Nat :=
  events.countP fun event => event.notice.message ∈ messages

theorem reports_append (messages : List String) (first second : List Event) :
    reports messages (first ++ second) = reports messages first + reports messages second :=
  List.countP_append

section

variable {tree : SyntaxTree} {analysis : Analysis} {config : LinkConfig} {graph : FeatureGraph}
  {condition : Condition} {pass : Pass} {actions : List Action}

/-- A row reports a condition as often as it counts it. -/
theorem Accounted.reports_eq (accounted : Accounted pass actions)
    (isReported : condition.isReportedBy pass = true) :
    reports condition.messages (actions.flatMap (Action.events config)) =
      condition.counter (rowCounts graph actions) := by
  induction accounted with
  | nil => exact condition.counter_zero.symm
  | append _ _ ihFirst ihSecond =>
      rw [List.flatMap_append, reports_append, ihFirst isReported, ihSecond isReported, rowCounts,
        rowCounts, rowCounts, List.map_append, List.sum_append, condition.counter_add]
  | link request sources dests =>
      rw [rowCounts_cons, rowCounts_nil, add_zero, List.flatMap_cons, List.flatMap_nil,
        List.append_nil, Action.events, Action.counts]
      split
      · cases condition <;> rfl
      · cases condition <;> rfl
  | tally counter amount analysed registered =>
      cases condition <;> cases counter <;> first | rfl | contradiction
  | methodNotAnalysed => cases condition <;> rfl
  | siteWithoutNode => cases condition <;> rfl
  | candidateWithoutNode => cases condition <;> rfl
  | identifierWithoutNode => cases condition <;> first | rfl | contradiction
  | methodWithoutNode => cases condition <;> first | rfl | contradiction

theorem Accounted.reports_performed (accounted : Accounted pass actions)
    (isReported : condition.isReportedBy pass = true) :
    reports condition.messages ((Progress.start graph).performAll config actions).events.toList =
      condition.counter ((Progress.start graph).performAll config actions).stats := by
  have settled := Progress.performAll_settled config (Progress.start graph) actions
  have before : condition.counter (Progress.start graph).stats.settled = 0 := condition.counter_zero
  rw [Progress.performAll_events, ← condition.counter_settled, settled, condition.counter_add,
    before, Nat.zero_add]
  exact accounted.reports_eq isReported

/-- The dataflow pass reports every condition as often as it counts it. -/
theorem linkDataflow_reports (condition : Condition) :
    reports condition.messages (linkDataflow tree analysis config graph).events.toList =
      condition.counter (linkDataflow tree analysis config graph).stats := by
  cases rooted : tree.root with
  | none =>
      rw [linkDataflow_of_rootless rooted]
      cases condition <;> rfl
  | some root =>
      have isReported : condition.isReportedBy .dataflow = true := by cases condition <;> rfl
      rw [linkDataflow_of_root rooted (.refl graph)]
      simp only [Progress.report, Array.toList_push, reports_append,
        dataflowActions_accounted.reports_performed isReported]
      cases condition <;> rfl

theorem linkReturns_reports :
    reports Condition.ambiguous.messages (linkReturns tree config graph).events.toList =
      (linkReturns tree config graph).stats.ambiguousTokens := by
  cases rooted : tree.root with
  | none =>
      rw [linkReturns_of_rootless rooted]
      rfl
  | some root =>
      have isReported : Condition.ambiguous.isReportedBy .returnsTo = true := rfl
      rw [linkReturns_of_root rooted (.refl graph)]
      simp only [Progress.report, Array.toList_push, reports_append,
        returnActions_accounted.reports_performed isReported]
      rfl

theorem linkUnit_reports :
    reports Condition.ambiguous.messages (linkUnit tree analysis config graph).events.toList =
      (linkUnit tree analysis config graph).stats.ambiguousTokens := by
  have step : ∀ {pass : Pass} {run : FeatureGraph → Progress} {before : Progress},
      reports Condition.ambiguous.messages before.events.toList = before.stats.ambiguousTokens →
      (∀ graph, reports Condition.ambiguous.messages (run graph).events.toList =
        (run graph).stats.ambiguousTokens) →
      reports Condition.ambiguous.messages (before.runPass config pass run).events.toList =
        (before.runPass config pass run).stats.ambiguousTokens := by
    intro pass run before reported runs
    unfold Progress.runPass
    split
    · rw [Array.toList_append, reports_append, reported, runs]
      rfl
    · exact reported
  exact step (step rfl fun _ => linkDataflow_reports .ambiguous) fun _ => linkReturns_reports

end

/-! ## How much an ambiguity matters -/

/-- Both events read alike, except that the first makes a warning of an ambiguity and the second a
detail. -/
def Event.Raised (loud quiet : Event) : Prop :=
  if quiet.notice.message = "ambiguous token resolution" then
    quiet.notice.level = .debug ∧ loud.notice = { quiet.notice with level := .warn }
  else
    loud = quiet

/-- Two runs have come to the same graph and counters, and have reported the same but for the level
of ambiguities. -/
structure Progress.Raises (loud quiet : Progress) : Prop where
  graph : loud.graph = quiet.graph
  stats : loud.stats = quiet.stats
  events : List.Forall₂ Event.Raised loud.events.toList quiet.events.toList

section

variable {tree : SyntaxTree} {analysis : Analysis} {config : LinkConfig} {graph : FeatureGraph}
  {pass : Pass} {actions : List Action}

theorem Accounted.events_raised (accounted : Accounted pass actions) :
    List.Forall₂ Event.Raised
      (actions.flatMap (Action.events { config with warnAmbiguous := true }))
      (actions.flatMap (Action.events { config with warnAmbiguous := false })) := by
  induction accounted with
  | nil => exact .nil
  | append _ _ ihFirst ihSecond =>
      rw [List.flatMap_append, List.flatMap_append]
      exact List.rel_append ihFirst ihSecond
  | link request sources dests =>
      simp only [List.flatMap_cons, List.flatMap_nil, List.append_nil, Action.events]
      split
      · exact .cons (by simp [Event.Raised, Event.notice]) .nil
      · exact .nil
  | tally => exact .nil
  | _ => exact .cons (by simp [Event.Raised, Event.notice]) .nil

theorem Accounted.raises (accounted : Accounted pass actions) (finish : LinkStats → Event)
    (plain : ∀ stats, (finish stats).Raised (finish stats)) :
    let loud := (Progress.start graph).performAll { config with warnAmbiguous := true } actions
    let quiet := (Progress.start graph).performAll { config with warnAmbiguous := false } actions
    (loud.report (finish loud.stats)).Raises (quiet.report (finish quiet.stats)) := by
  intro loud quiet
  have stats : loud.stats = quiet.stats := Progress.performAll_stats_congr rfl rfl rfl
  refine ⟨?_, stats, ?_⟩
  · exact (Progress.performAll_graph _ _ _).trans (Progress.performAll_graph _ _ _).symm
  · have events : List.Forall₂ Event.Raised loud.events.toList quiet.events.toList := by
      rw [Progress.performAll_events, Progress.performAll_events]
      exact accounted.events_raised
    simp only [Progress.report, Array.toList_push, stats]
    exact List.rel_append events (.cons (plain _) .nil)

theorem linkDataflow_raises :
    (linkDataflow tree analysis { config with warnAmbiguous := true } graph).Raises
      (linkDataflow tree analysis { config with warnAmbiguous := false } graph) := by
  cases rooted : tree.root with
  | none =>
      rw [linkDataflow_of_rootless rooted, linkDataflow_of_rootless rooted]
      exact ⟨rfl, rfl, .cons (by simp [Event.Raised, Event.notice]) .nil⟩
  | some root =>
      rw [linkDataflow_of_root rooted (.refl graph), linkDataflow_of_root rooted (.refl graph)]
      apply dataflowActions_accounted.raises fun stats =>
        .dataflowFinished stats.edgesAdded stats.sitesVisited
      simp [Event.Raised, Event.notice]

theorem linkReturns_raises :
    (linkReturns tree { config with warnAmbiguous := true } graph).Raises
      (linkReturns tree { config with warnAmbiguous := false } graph) := by
  cases rooted : tree.root with
  | none =>
      rw [linkReturns_of_rootless rooted, linkReturns_of_rootless rooted]
      exact ⟨rfl, rfl, .cons (by simp [Event.Raised, Event.notice]) .nil⟩
  | some root =>
      rw [linkReturns_of_root rooted (.refl graph), linkReturns_of_root rooted (.refl graph)]
      apply returnActions_accounted.raises fun stats =>
        .returnsFinished stats.edgesAdded stats.methodsLinked
      simp [Event.Raised, Event.notice]

theorem Progress.Raises.runPass {loud quiet : Progress} {run run' : FeatureGraph → Progress}
    (raises : loud.Raises quiet) (runs : ∀ graph, (run graph).Raises (run' graph)) :
    (loud.runPass { config with warnAmbiguous := true } pass run).Raises
      (quiet.runPass { config with warnAmbiguous := false } pass run') := by
  unfold Progress.runPass
  change Progress.Raises (if config.runs pass then _ else _) (if config.runs pass then _ else _)
  rw [raises.graph]
  have after := runs quiet.graph
  split
  · refine ⟨after.graph, ?_, ?_⟩
    · change loud.stats + (run quiet.graph).stats = quiet.stats + (run' quiet.graph).stats
      rw [raises.stats, after.stats]
    · rw [Array.toList_append, Array.toList_append]
      exact List.rel_append raises.events after.events
  · exact raises

theorem linkUnit_raises :
    (linkUnit tree analysis { config with warnAmbiguous := true } graph).Raises
      (linkUnit tree analysis { config with warnAmbiguous := false } graph) := by
  have start : (Progress.start graph).Raises (.start graph) := ⟨rfl, rfl, .nil⟩
  exact (start.runPass fun _ => linkDataflow_raises).runPass fun _ => linkReturns_raises

end

/-- Reports go with counters and decide nothing.  Whether ambiguities are warned about changes only
how much they matter: graph and counters are the same, and so are the events one by one, but those
about an ambiguity are warnings with the option and details without it.  There are as many of them
as ambiguities were counted.  In the dataflow pass also the methods that are not analysed and the
sites and candidates without a node are reported as often as they are counted. -/
theorem diagnostics_exact (tree : SyntaxTree) (analysis : Analysis) (config : LinkConfig)
    (graph : FeatureGraph) :
    let linked := fun warn => linkUnit tree analysis { config with warnAmbiguous := warn } graph
    let flow := linkDataflow tree analysis config graph
    (linked true).graph = (linked false).graph ∧ (linked true).stats = (linked false).stats ∧
      List.Forall₂ Event.Raised (linked true).events.toList (linked false).events.toList ∧
      (∀ warn, reports ["ambiguous token resolution"] (linked warn).events.toList =
        (linked warn).stats.ambiguousTokens) ∧
      reports ["method was not analysed"] flow.events.toList = flow.stats.skippedUnanalyzed ∧
      reports ["site has no feature node", "candidate has no feature node"] flow.events.toList =
        flow.stats.missingFeatureNode ∧
      reports ["ambiguous token resolution"] flow.events.toList = flow.stats.ambiguousTokens := by
  intro linked flow
  have raises : (linked true).Raises (linked false) := linkUnit_raises
  exact ⟨raises.graph, raises.stats, raises.events, fun _ => linkUnit_reports,
    linkDataflow_reports .unanalysed, linkDataflow_reports .unregistered,
    linkDataflow_reports .ambiguous⟩

end FlowLink
