import FlowLink.Proofs.Bundle.Loading
import FlowLink.Proofs.Command.Runs

namespace FlowLink

/-! # A saved unit is linked again

A run over one unit that saves its result reports what a run over the saved file reports, except
that by then no edge is left to add.  Between the two runs lies the saved text alone, and the bundle
that is loaded from it is the linked one.
-/

theorem Bundle.link_linked (bundle : Bundle) (config : LinkConfig) :
    ((bundle.link config).1.link config).1 = (bundle.link config).1 ∧
      ((bundle.link config).1.link config).2.1 = (bundle.link config).2.1.settled := by
  have repeated : Progress.Repeats (bundle.link config).1.graph
      (linkUnit bundle.tree bundle.analysis config (bundle.link config).1.graph)
      (linkUnit bundle.tree bundle.analysis config bundle.graph) := linkUnit_repeats (.refl _)
  exact ⟨congrArg (fun graph => Bundle.mk bundle.tree graph bundle.analysis) repeated.graph,
    repeated.stats⟩

namespace Command

variable {environment later : Environment} {files after : Files} {words again : List String}
  {arguments relinking : LinkArguments} {config : LinkConfig} {unit output : Path}
  {bundle : Bundle} {warnings : List Event} {outcome : Outcome}

/-- A run that saves and succeeds has loaded the unit, and has written what linking made of it. -/
theorem saved_of_succeeded (asked : Request.ofWords words = .ok (.link arguments))
    (single : arguments.units = [unit]) (saved : arguments.output = some output)
    (configured : loadSettings environment arguments.config files.read = .ok config)
    (ran : run environment files words = (outcome, after)) (succeeded : outcome.exit = 0) :
    ∃ bundle warnings, environment.load unit (files.read unit) = .ok (bundle, warnings) ∧
      files.write? output ((bundle.link config).1.toJson environment.orders) = some after ∧
      outcome.output = (LinkedUnit.of config unit bundle warnings).report.alone.print
        arguments.format environment.isColored := by
  -- A run that refuses the unit, or cannot write the file, fails.
  cases loaded : environment.load unit (files.read unit) with
  | error fault =>
      obtain ⟨finished, planned, failed⟩ := linkWith_refused single loaded
      rw [run_of_request asked, Request.plan, linkPlan_of_single single configured, planned,
        Plan.perform, Prod.mk.injEq] at ran
      rw [← ran.1, failed] at succeeded
      contradiction
  | ok result =>
      obtain ⟨bundle, warnings⟩ := result
      obtain ⟨written, refused, _, failed, printed, saves⟩ :=
        run_of_saved asked single saved configured loaded
      rw [saves] at ran
      split at ran
      next replaced wrote =>
        obtain ⟨rfl, rfl⟩ := Prod.mk.inj ran
        exact ⟨bundle, warnings, rfl, wrote, printed⟩
      next =>
        rw [← (Prod.mk.inj ran).1, failed] at succeeded
        contradiction

theorem run_saving_of_loaded (asked : Request.ofWords words = .ok (.link arguments))
    (single : arguments.units = [unit]) (saved : arguments.output = some output)
    (configured : loadSettings environment arguments.config files.read = .ok config)
    (loaded : environment.load unit (files.read unit) = .ok (bundle, warnings))
    (wrote : files.write? output ((bundle.link config).1.toJson environment.orders) =
      some after) :
    ∃ outcome, run environment files words = (outcome, after) ∧ outcome.exit = 0 := by
  obtain ⟨written, refused, succeeds, _, _, saves⟩ :=
    run_of_saved asked single saved configured loaded
  rw [saves, wrote]
  exact ⟨written, rfl, succeeds⟩

theorem run_of_loaded (asked : Request.ofWords words = .ok (.link arguments))
    (single : arguments.units = [unit]) (unsaved : arguments.output = none)
    (configured : loadSettings environment arguments.config files.read = .ok config)
    (loaded : environment.load unit (files.read unit) = .ok (bundle, warnings)) :
    (run environment files words).1.exit = 0 ∧ (run environment files words).2 = files ∧
      (run environment files words).1.output =
        (LinkedUnit.of config unit bundle warnings).report.alone.print
          arguments.format environment.isColored := by
  obtain ⟨log, ran⟩ := run_of_unsaved asked unsaved configured
  rw [single, linkAll_cons_of_loaded loaded, linkAll, List.map_nil, outcome_of_linked] at ran
  rw [ran]
  exact ⟨rfl, rfl, rfl⟩

/-- The unit that a run has saved is loaded, and another run, be it on another machine, finds
nothing to add to it.  The report on it differs from the first one in the path, and in counting as
existing what was added. -/
theorem run_saved_again (asked : Request.ofWords words = .ok (.link arguments))
    (single : arguments.units = [unit]) (saved : arguments.output = some output)
    (json : Bundle.isYaml output = false)
    (configured : loadSettings environment arguments.config files.read = .ok config)
    (ran : run environment files words = (outcome, after)) (succeeded : outcome.exit = 0)
    (askedAgain : Request.ofWords again = .ok (.link relinking))
    (singleAgain : relinking.units = [output]) (unsaved : relinking.output = none)
    (configuredAgain : loadSettings later relinking.config after.read = .ok config) :
    ∃ bundle warnings, environment.load unit (files.read unit) = .ok (bundle, warnings) ∧
      later.load output (after.read output) = .ok ((bundle.link config).1, warnings) ∧
      let first := (LinkedUnit.of config unit bundle warnings).report
      let second := { first with
        path := output
        stats := { first.stats with
          edgesAdded := 0
          edgesExisting := first.stats.edgesAdded + first.stats.edgesExisting } }
      outcome.output = first.alone.print arguments.format environment.isColored ∧
        (run later after again).1.exit = 0 ∧ (run later after again).2 = after ∧
        (run later after again).1.output =
          second.alone.print relinking.format later.isColored := by
  obtain ⟨bundle, warnings, loaded, written, printed⟩ :=
    saved_of_succeeded asked single saved configured ran succeeded
  have reloaded : later.load output (after.read output) = .ok ((bundle.link config).1, warnings) :=
    Bundle.load_linked loaded json written
  obtain ⟨exits, keeps, reports⟩ :=
    run_of_loaded askedAgain singleAgain unsaved configuredAgain reloaded
  refine ⟨bundle, warnings, loaded, reloaded, printed, exits, keeps, ?_⟩
  obtain ⟨same, settled⟩ := bundle.link_linked config
  rw [reports]
  simp only [LinkedUnit.of, same, settled]
  rfl

def backwards : Environment := { orders := { treeNodes := .descending } }

/-- A unit that is linked into another file, on a machine that writes a map backwards, by a user
without settings. -/
theorem echo_saved_again :
    let files : Files := { entries := [(["unit.json"], .text Bundle.echo.toJson)] }
    let linked := (Bundle.echo.link {}).1
    ∃ outcome after, run backwards files ["link", "unit.json", "--output", "out.json"] =
        (outcome, after) ∧ outcome.exit = 0 ∧
      Bundle.load ⟨"out.json"⟩ (after.read ⟨"out.json"⟩) = .ok (linked, []) ∧
      let second := run {} after ["link", "out.json"]
      second.1.exit = 0 ∧ second.2 = after ∧
        ∃ report : UnitReport, outcome.output = report.alone.print .text false ∧
          second.1.output = { report with
            path := ⟨"out.json"⟩
            stats := report.stats.settled }.alone.print .text false := by
  intro files linked
  let saving : LinkArguments := { units := [⟨"unit.json"⟩], output := some ⟨"out.json"⟩ }
  have asked : Request.ofWords ["link", "unit.json", "--output", "out.json"] =
      .ok (.link saving) := rfl
  have askedAgain : Request.ofWords ["link", "out.json"] =
      .ok (.link { units := [⟨"out.json"⟩] }) := rfl
  have json : Bundle.isYaml ⟨"out.json"⟩ = false := by decide
  have valid : Bundle.echo.validate = .ok [] := by decide
  have read : files.read ⟨"unit.json"⟩ = .ok Bundle.echo.toJson := rfl
  have loaded : backwards.load ⟨"unit.json"⟩ (files.read ⟨"unit.json"⟩) =
      .ok (Bundle.echo, []) := by
    rw [read]
    exact Bundle.load_toJson (by decide) (by decide) valid
  have configured : loadSettings backwards none files.read = .ok {} := rfl
  have wrote : files.write? ⟨"out.json"⟩ (linked.toJson backwards.orders) =
      some (files.put ["out.json"] (.text (linked.toJson backwards.orders))) := rfl
  obtain ⟨outcome, ran, succeeded⟩ := run_saving_of_loaded asked rfl rfl configured loaded wrote
  have configuredAgain : loadSettings {} none
      (files.put ["out.json"] (.text (linked.toJson backwards.orders))).read = .ok {} := rfl
  obtain ⟨bundle, warnings, loadedFirst, reloaded, reported, exits, keeps, reportedAgain⟩ :=
    run_saved_again asked rfl rfl json configured ran succeeded askedAgain rfl rfl configuredAgain
  rw [loaded, Except.ok.injEq, Prod.mk.injEq] at loadedFirst
  obtain ⟨rfl, rfl⟩ := loadedFirst
  exact ⟨outcome, _, ran, succeeded, reloaded, exits, keeps, _, reported, reportedAgain⟩

end Command

end FlowLink
