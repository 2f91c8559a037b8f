import FlowLink.Proofs.Bundle.Loading
import FlowLink.Proofs.Command.Relinking

namespace FlowLink.Command

/-! # What a run writes

A run writes one file at most, and only at its very end: linking saves its result, if an output is
asked for and nothing was in the way before.  All that can be in the way is named by `Obstructed`.
-/

/-- What keeps a run from saving the unit that it is to link. -/
inductive Obstructed (environment : Environment) (read : Path → Reading)
    (arguments : LinkArguments) : Prop
  | count (several : arguments.units.length ≠ 1)
  | settings (fault : SettingsFault)
      (unset : loadSettings environment arguments.config read = .error fault)
  | unit (path : Path) (fault : LoadFault) (single : arguments.units = [path])
      (refused : environment.load path (read path) = .error fault)

variable {environment : Environment} {files after : Files} {words : List String}
  {arguments : LinkArguments} {output : Path} {read : Path → Reading} {outcome : Outcome}

theorem linkPlan_of_unset {fault : SettingsFault}
    (unset : loadSettings environment arguments.config read = .error fault) :
    ∃ finished : Outcome, linkPlan environment arguments read = .finish finished ∧
      finished.exit = 1 := by
  rw [linkPlan, unset]
  split <;> exact ⟨_, rfl, rfl⟩

/-- A run that is obstructed ends without a file to save. -/
theorem Obstructed.linkPlan (obstructed : Obstructed environment read arguments)
    (saved : arguments.output = some output) :
    ∃ finished : Outcome, linkPlan environment arguments read = .finish finished ∧
      finished.exit = 1 := by
  cases obstructed with
  | count several =>
      rw [Command.linkPlan, saved, if_pos (by simpa using several)]
      exact ⟨_, rfl, rfl⟩
  | settings fault unset => exact linkPlan_of_unset unset
  | unit path fault single refused =>
      cases configured : loadSettings environment arguments.config read with
      | error fault => exact linkPlan_of_unset configured
      | ok config =>
          rw [linkPlan_of_single single configured]
          exact linkWith_refused single refused

/-- Where nothing is in the way, there is one unit, and it can be linked. -/
theorem exists_loaded (free : ¬ Obstructed environment read arguments) :
    ∃ unit config bundle warnings, arguments.units = [unit] ∧
      loadSettings environment arguments.config read = .ok config ∧
      environment.load unit (read unit) = .ok (bundle, warnings) := by
  by_cases several : arguments.units.length ≠ 1
  · exact absurd (.count several) free
  obtain ⟨unit, single⟩ := List.length_eq_one_iff.mp (not_not.mp several)
  cases configured : loadSettings environment arguments.config read with
  | error fault => exact absurd (.settings fault configured) free
  | ok config =>
      cases loaded : environment.load unit (read unit) with
      | error fault => exact absurd (.unit unit fault single loaded) free
      | ok result => exact ⟨unit, config, result.1, result.2, single, rfl, loaded⟩

/-- Only linking with an output changes a file. -/
theorem run_keeps_files (unsaved : ∀ arguments, Request.ofWords words = .ok (.link arguments) →
      arguments.output = none) :
    (run environment files words).2 = files := by
  cases asked : Request.ofWords words with
  | error fault =>
      rw [run, plan, asked]
      rfl
  | ok request =>
      rw [run_of_request asked]
      cases request with
      | link arguments =>
          have kept := unsaved arguments asked
          rw [Request.plan]
          cases configured : loadSettings environment arguments.config files.read with
          | error fault =>
              obtain ⟨finished, planned, _⟩ := linkPlan_of_unset configured
              rw [planned, Plan.perform]
          | ok config =>
              obtain ⟨log, planned⟩ := linkWith_of_unsaved kept
              rw [linkPlan_of_unsaved kept configured, planned, Plan.perform]
      | check units => rfl
      | version => rfl
      | help => rfl

theorem run_of_obstructed (asked : Request.ofWords words = .ok (.link arguments))
    (saved : arguments.output = some output)
    (obstructed : Obstructed environment files.read arguments) :
    ∃ finished : Outcome, run environment files words = (finished, files) ∧
      finished.exit = 1 := by
  obtain ⟨finished, planned, failed⟩ := obstructed.linkPlan saved
  rw [run_of_request asked, Request.plan, planned]
  exact ⟨finished, rfl, failed⟩

/-- A run changes no file but its output.  It leaves that as well if anything is in the way, and
then fails.  Otherwise what it saves there is the loaded unit with the graph that linking made of
its own, be it over the unit. -/
theorem run_writes_output_only (environment : Environment) (files : Files)
    (words : List String) :
    let outcome := (run environment files words).1
    let after := (run environment files words).2
    ((∀ arguments, Request.ofWords words = .ok (.link arguments) → arguments.output = none) →
      after = files) ∧
    ∀ arguments output, Request.ofWords words = .ok (.link arguments) →
      arguments.output = some output →
      (∀ location, files.locate output ≠ .ok location →
        after.find? location = files.find? location) ∧
      (Obstructed environment files.read arguments → after = files ∧ outcome.exit ≠ 0) ∧
      (¬ Obstructed environment files.read arguments →
        ∃ unit config bundle warnings, arguments.units = [unit] ∧
          loadSettings environment arguments.config files.read = .ok config ∧
          environment.load unit (files.read unit) = .ok (bundle, warnings) ∧
          let linked := { bundle with
            graph := (linkUnit bundle.tree bundle.analysis config bundle.graph).graph }
          ∀ written, files.write? output (linked.toJson environment.orders) = some written →
            after = written ∧ after.read output = .ok (linked.toJson environment.orders) ∧
            outcome.exit = 0) := by
  intro outcome after
  constructor
  · exact run_keeps_files
  · intro arguments output asked saved
    by_cases obstructed : Obstructed environment files.read arguments
    · obtain ⟨finished, ended, failed⟩ := run_of_obstructed asked saved obstructed
      refine ⟨?_, fun _ => ?_, fun free => absurd obstructed free⟩
      · simp only [after, ended, implies_true]
      · simp only [after, outcome, ended, failed, ne_eq, Nat.one_ne_zero, not_false_eq_true,
          and_self]
    · obtain ⟨unit, config, bundle, warnings, single, configured, loaded⟩ :=
        exists_loaded obstructed
      obtain ⟨written, refused, succeeds, _, _, saves⟩ :=
        run_of_saved asked single saved configured loaded
      refine ⟨?_, fun present => absurd present obstructed, fun _ =>
        ⟨unit, config, bundle, warnings, single, configured, loaded, ?_⟩⟩
      · intro location elsewhere
        simp only [after, saves]
        split
        next replaced wrote => exact Files.find?_of_write? wrote elsewhere
        next => rfl
      · intro linked replaced wrote
        have saved : linked = (bundle.link config).1 := rfl
        rw [saved] at wrote ⊢
        simp only [after, outcome, saves, wrote]
        exact ⟨trivial, Files.read_of_write? wrote, succeeds⟩

/-- A unit that is linked into its own file under another path, then one time too many, and
checked. -/
theorem echo_overwritten :
    let files : Files :=
      { entries := [(["unit.json"], .text Bundle.echo.toJson), (["photo"], .binary)]
        around := ["work", "home"] }
    let linked := { Bundle.echo with graph :=
      (linkUnit Bundle.echo.tree Bundle.echo.analysis {} Bundle.echo.graph).graph }
    (∃ saving after,
        run backwards files ["link", "unit.json", "--output", "../work/unit.json"] =
          (saving, after) ∧ saving.exit = 0 ∧
      after.read ⟨"unit.json"⟩ = .ok (linked.toJson backwards.orders) ∧
      linked.graph.hasEdge ⟨⟨7⟩, ⟨7⟩, .lastWrite⟩ = true ∧
      Bundle.echo.graph.hasEdge ⟨⟨7⟩, ⟨7⟩, .lastWrite⟩ = false ∧
      after.find? ["photo"] = files.find? ["photo"]) ∧
    (∃ refusing, run {} files ["link", "unit.json", "unit.json", "--output", "unit.json"] =
        (refusing, files) ∧ refusing.exit ≠ 0) ∧
    ∃ checking, run {} files ["check", "unit.json"] = (checking, files) := by
  intro files linked
  let single : LinkArguments := { units := [⟨"unit.json"⟩], output := some ⟨"../work/unit.json"⟩ }
  let several : LinkArguments :=
    { units := [⟨"unit.json"⟩, ⟨"unit.json"⟩], output := some ⟨"unit.json"⟩ }
  have read : files.read ⟨"unit.json"⟩ = .ok Bundle.echo.toJson := rfl
  have loaded : backwards.load ⟨"unit.json"⟩ (files.read ⟨"unit.json"⟩) =
      .ok (Bundle.echo, []) := by
    rw [read]
    exact Bundle.load_toJson (by decide) (by decide) (by decide)
  have configured : loadSettings backwards none files.read = .ok {} := rfl
  have free : ¬ Obstructed backwards files.read single := by
    intro obstructed
    cases obstructed with
    | count several => exact several rfl
    | settings fault unset => cases configured.symm.trans unset
    | unit path fault single refused =>
        cases single
        cases loaded.symm.trans refused
  refine ⟨?saving, ?refusing, ?checking⟩
  case saving =>
    obtain ⟨elsewhere, _, saves⟩ := (run_writes_output_only backwards files
      ["link", "unit.json", "--output", "../work/unit.json"]).2 single ⟨"../work/unit.json"⟩ rfl rfl
    obtain ⟨_, config, bundle, _, isSingle, configured', loaded', holds⟩ := saves free
    cases isSingle
    cases configured.symm.trans configured'
    cases loaded.symm.trans loaded'
    have wrote : files.write? ⟨"../work/unit.json"⟩ (linked.toJson backwards.orders) =
        some (files.put ["unit.json"] (.text (linked.toJson backwards.orders))) := rfl
    obtain ⟨stored, _, succeeded⟩ := holds _ wrote
    refine ⟨_, _, (Prod.eta _).symm, succeeded, ?_, by cbv, by decide,
      elsewhere ["photo"] (by decide)⟩
    rw [stored]
    rfl
  case refusing =>
    obtain ⟨_, refuses, _⟩ := (run_writes_output_only {} files
        ["link", "unit.json", "unit.json", "--output", "unit.json"]).2
      several ⟨"unit.json"⟩ rfl rfl
    obtain ⟨kept, failed⟩ := refuses (.count (by decide))
    exact ⟨_, Prod.ext rfl kept, failed⟩
  case checking =>
    refine ⟨_, Prod.ext rfl
      ((run_writes_output_only {} files ["check", "unit.json"]).1 fun arguments asked => ?_)⟩
    have checked : Request.ofWords ["check", "unit.json"] = .ok (.check [⟨"unit.json"⟩]) := rfl
    cases checked.symm.trans asked

end FlowLink.Command
