import FlowLink.Command.Run

namespace FlowLink

/-! # What comes of a run

Each unit is loaded and linked by itself, and `LinkedUnit.of` is what comes of one that is loaded.
A run that saves nothing prints the summary of its units.  A run over one unit that saves the result
either has it written or refuses the unit.
-/

theorem LinkStats.zero_add (stats : LinkStats) : LinkStats.add {} stats = stats := by
  simp only [LinkStats.add, Nat.zero_add]

namespace Command

/-- What linking makes of a bundle that was loaded with some warnings. -/
def LinkedUnit.of (config : LinkConfig) (path : Path) (bundle : Bundle) (warnings : List Event) :
    LinkedUnit :=
  let (linked, stats, events) := bundle.link config
  let nodes := linked.graph.nodeCount
  { report := { path, nodes, edges := linked.graph.edgeCounts, stats }
    bundle := linked
    log := warnings.map .event ++ .loaded path nodes :: events.map .event }

def UnitReport.alone (report : UnitReport) : Summary := ⟨[report], [], report.stats⟩

variable {environment : Environment} {files : Files} {words : List String}
  {arguments : LinkArguments} {request : Request} {config : LinkConfig} {unit output : Path}
  {units : List Path} {bundle : Bundle} {warnings : List Event} {read : Path → Reading}
  {fault : LoadFault}

theorem run_of_request (asked : Request.ofWords words = .ok request) :
    run environment files words = (request.plan environment files.read).perform files := by
  rw [run, plan, asked]

/-! ## Units -/

theorem linkOne_of_loaded (loaded : environment.load unit (read unit) = .ok (bundle, warnings)) :
    linkOne environment config unit (read unit) = .ok (.of config unit bundle warnings) := by
  rw [linkOne, loaded]
  rfl

theorem linkOne_of_refused (refused : environment.load unit (read unit) = .error fault) :
    linkOne environment config unit (read unit) = .error fault := by
  rw [linkOne, refused]
  rfl

theorem linkAll_cons_of_loaded
    (loaded : environment.load unit (read unit) = .ok (bundle, warnings)) :
    linkAll environment config (unit :: units) read =
      (unit, .ok (.of config unit bundle warnings)) :: linkAll environment config units read := by
  rw [linkAll, List.map_cons, linkOne_of_loaded loaded]
  rfl

theorem linkAll_cons_of_refused (refused : environment.load unit (read unit) = .error fault) :
    linkAll environment config (unit :: units) read =
      (unit, .error fault) :: linkAll environment config units read := by
  rw [linkAll, List.map_cons, linkOne_of_refused refused]
  rfl

theorem summary_of_linked (linked : LinkedUnit) :
    Results.summary [(unit, .ok linked)] = linked.report.alone := by
  have total : [linked.report.stats].foldl LinkStats.add {} = linked.report.stats :=
    LinkStats.zero_add linked.report.stats
  change Summary.mk [linked.report] [] ([linked.report.stats].foldl LinkStats.add {}) = _
  rw [total]
  rfl

theorem outcome_of_linked (linked : LinkedUnit) (format : Format) (isColored : Bool)
    (log : List LogEntry) :
    Results.outcome [(unit, .ok linked)] format isColored log =
      { exit := 0, output := linked.report.alone.print format isColored,
        log := log ++ [.completed 1 0] } := by
  rw [Results.outcome, summary_of_linked]
  rfl

/-! ## Runs that save nothing -/

theorem linkPlan_of_unsaved (unsaved : arguments.output = none)
    (configured : loadSettings environment arguments.config read = .ok config) :
    linkPlan environment arguments read = linkWith environment arguments config read := by
  rw [linkPlan, unsaved, configured]
  rfl

theorem linkWith_of_unsaved (unsaved : arguments.output = none) :
    ∃ log, linkWith environment arguments config read =
      .finish (((linkAll environment config arguments.units read).outcome arguments.format
        environment.isColored log).restrict arguments.logLevel) := by
  rw [linkWith, unsaved]
  exact ⟨_, rfl⟩

theorem run_of_unsaved (asked : Request.ofWords words = .ok (.link arguments))
    (unsaved : arguments.output = none)
    (configured : loadSettings environment arguments.config files.read = .ok config) :
    ∃ log, run environment files words =
      (((linkAll environment config arguments.units files.read).outcome arguments.format
        environment.isColored log).restrict arguments.logLevel, files) := by
  obtain ⟨log, planned⟩ := linkWith_of_unsaved unsaved
  rw [run_of_request asked, Request.plan, linkPlan_of_unsaved unsaved configured, planned]
  exact ⟨log, rfl⟩

/-! ## Runs over one unit -/

theorem linkPlan_of_single (single : arguments.units = [unit])
    (configured : loadSettings environment arguments.config read = .ok config) :
    linkPlan environment arguments read = linkWith environment arguments config read := by
  rw [linkPlan, single, configured]
  simp

theorem linkWith_saved (single : arguments.units = [unit]) (saved : arguments.output = some output)
    (loaded : environment.load unit (read unit) = .ok (bundle, warnings)) :
    ∃ written refused : Outcome, linkWith environment arguments config read =
        .save output ((bundle.link config).1.toJson environment.orders) written refused ∧
      written.exit = 0 ∧ refused.exit = 1 ∧
      written.output = (LinkedUnit.of config unit bundle warnings).report.alone.print
        arguments.format environment.isColored := by
  rw [linkWith, single, saved, linkAll_cons_of_loaded loaded]
  simp only [linkAll, List.map_nil, outcome_of_linked]
  exact ⟨_, _, rfl, rfl, rfl, rfl⟩

theorem linkWith_refused (single : arguments.units = [unit])
    (refused : environment.load unit (read unit) = .error fault) :
    ∃ finished : Outcome, linkWith environment arguments config read = .finish finished ∧
      finished.exit = 1 := by
  rw [linkWith, single, linkAll_cons_of_refused refused]
  cases arguments.output <;> exact ⟨_, rfl, rfl⟩

/-- A run over a unit that is loaded saves what linking makes of it, if the output can be
written. -/
theorem run_of_saved (asked : Request.ofWords words = .ok (.link arguments))
    (single : arguments.units = [unit]) (saved : arguments.output = some output)
    (configured : loadSettings environment arguments.config files.read = .ok config)
    (loaded : environment.load unit (files.read unit) = .ok (bundle, warnings)) :
    ∃ written refused : Outcome, written.exit = 0 ∧ refused.exit = 1 ∧
      written.output = (LinkedUnit.of config unit bundle warnings).report.alone.print
        arguments.format environment.isColored ∧
      run environment files words =
        match files.write? output ((bundle.link config).1.toJson environment.orders) with
        | some after => (written, after)
        | none => (refused, files) := by
  obtain ⟨written, refused, planned, succeeds, fails, printed⟩ := linkWith_saved single saved loaded
  rw [run_of_request asked, Request.plan, linkPlan_of_single single configured, planned]
  exact ⟨written, refused, succeeds, fails, printed, rfl⟩

end Command

end FlowLink
