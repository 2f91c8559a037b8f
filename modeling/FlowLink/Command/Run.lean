import FlowLink.Command.Environment
import FlowLink.Command.Intake
import FlowLink.Command.Report

/-! # Running a command

A command only reads files, except that linking may save one file at its end.  `Request.plan` says
what comes of a request, given what reading each path gives; the file to save is part of its answer,
and `Plan.perform` carries the plan out.
-/

namespace FlowLink.Command

/-- What a run leaves behind, apart from files. -/
structure Outcome where
  exit : Nat
  output : String
  log : List LogEntry := []
  /-- The line on standard error that says why the run failed. -/
  error : Option String := none

namespace Outcome

def failure (message : String) (log : List LogEntry := []) : Outcome :=
  { exit := 1, output := "", log, error := some ("Error: " ++ message) }

/-- Only notices down to a level are logged, or none at all. -/
def restrict (outcome : Outcome) (threshold : Option Level) : Outcome :=
  { outcome with log := outcome.log.filter fun entry =>
      threshold.any fun threshold => entry.notice.level.shownAt threshold }

end Outcome

inductive Plan where
  | finish (outcome : Outcome)
  /-- A text is to be written to a file, and the outcome depends on whether that succeeds. -/
  | save (path : Path) (text : String) (written refused : Outcome)

def Plan.perform (files : Files) : Plan → Outcome × Files
  | finish outcome => (outcome, files)
  | save path text written refused =>
    match files.write? path text with
    | some files => (written, files)
    | none => (refused, files)

/-! # Linking -/

structure LinkedUnit where
  report : UnitReport
  bundle : Bundle
  log : List LogEntry

def linkOne (environment : Environment) (config : LinkConfig) (path : Path) (reading : Reading) :
    Except LoadFault LinkedUnit := do
  let (bundle, warnings) ← environment.load path reading
  let (linked, stats, events) := bundle.link config
  let nodes := linked.graph.nodeCount
  return {
    report := { path, nodes, edges := linked.graph.edgeCounts, stats }
    bundle := linked
    log := warnings.map .event ++ .loaded path nodes :: events.map .event }

abbrev Results := List (Path × Except LoadFault LinkedUnit)

namespace Results

def linked (results : Results) : List LinkedUnit :=
  results.filterMap fun result => result.2.toOption

def failed (results : Results) : List FailedUnit :=
  results.filterMap fun (path, result) =>
    match result with
    | .ok _ => none
    | .error fault => some ⟨path, fault⟩

def summary (results : Results) : Summary where
  units := results.linked.map LinkedUnit.report
  failed := results.failed
  total := (results.linked.map fun unit => unit.report.stats).foldl LinkStats.add {}

def outcome (results : Results) (format : Format) (isColored : Bool) (log : List LogEntry) :
    Outcome where
  exit := if results.failed.isEmpty then 0 else 1
  output := results.summary.print format isColored
  log := log ++ [.completed results.linked.length results.failed.length]
  error :=
    if results.failed.isEmpty then none
    else some ("Error: " ++ toString results.failed.length ++ " unit(s) failed to load")

end Results

def linkAll (environment : Environment) (config : LinkConfig) (units : List Path)
    (read : Path → Reading) : Results :=
  units.map fun path => (path, linkOne environment config path (read path))

def LinkArguments.logLevel (arguments : LinkArguments) : Option Level :=
  if arguments.quiet then none else if arguments.debug then some .debug else some .info

def linkWith (environment : Environment) (arguments : LinkArguments) (config : LinkConfig)
    (read : Path → Reading) : Plan :=
  let results := linkAll environment config arguments.units read
  let log := [.configuration config, .started arguments.units.length] ++
    results.linked.flatMap LinkedUnit.log
  let finish (log : List LogEntry) : Outcome :=
    (results.outcome arguments.format environment.isColored log).restrict arguments.logLevel
  match arguments.output, results.linked with
  | some path, [unit] =>
    .save path (unit.bundle.toJson environment.orders) (finish (log ++ [.written path]))
      ((Outcome.failure ("failed to write " ++ path.text) log).restrict arguments.logLevel)
  | _, _ => .finish (finish (log ++ results.failed.map .failed))

def linkPlan (environment : Environment) (arguments : LinkArguments) (read : Path → Reading) :
    Plan :=
  if arguments.output.isSome && arguments.units.length ≠ 1 then
    .finish (.failure "--output requires exactly one unit")
  else
    match loadSettings environment arguments.config read with
    | .error fault => .finish (.failure fault.message)
    | .ok config => linkWith environment arguments config read

/-! # Checking -/

def checkLine (environment : Environment) (path : Path) (reading : Reading) : String :=
  match environment.load path reading with
  | .ok (bundle, _) =>
    Tag.ok.line environment.isColored (path.text ++ " (" ++ toString bundle.tree.size ++
      " tree elements, " ++ toString bundle.graph.nodeCount ++ " nodes, " ++
      toString bundle.analysis.size ++ " analysed methods)")
  | .error fault =>
    Tag.invalid.line environment.isColored (path.text ++ ": " ++ fault.message path)

def isFaulty (environment : Environment) (path : Path) (reading : Reading) : Bool :=
  match environment.load path reading with
  | .ok _ => false
  | .error _ => true

def checkOutcome (environment : Environment) (units : List Path) (read : Path → Reading) :
    Outcome :=
  let faulty := units.countP fun path => isFaulty environment path (read path)
  { exit := if faulty = 0 then 0 else 1
    output := String.join (units.map fun path =>
      checkLine environment path (read path))
    error :=
      if faulty = 0 then none
      else some ("Error: " ++ toString faulty ++ " unit(s) failed validation") }

/-! # Requests -/

def versionText : String := "featgraph 0.1.0\n"

def helpText : String :=
  "Usage: featgraph link [OPTIONS] <UNITS>...\n       featgraph check <UNITS>...\n"

def Request.sources (environment : Environment) : Request → List Path
  | link arguments => arguments.config.getD environment.settingsPath :: arguments.units
  | check units => units
  | version | help => []

def Request.plan (environment : Environment) (read : Path → Reading) : Request → Plan
  | link arguments => linkPlan environment arguments read
  | check units => .finish (checkOutcome environment units read)
  | version => .finish { exit := 0, output := versionText }
  | help => .finish { exit := 0, output := helpText }

def UsageFault.outcome (environment : Environment) (fault : UsageFault) : Outcome where
  exit := 2
  output := ""
  error := fault.message? (if environment.colorsUsage then .colored else .plain)

def plan (environment : Environment) (read : Path → Reading) (words : List String) : Plan :=
  match Request.ofWords words with
  | .ok request => request.plan environment read
  | .error fault => .finish (fault.outcome environment)

def run (environment : Environment) (files : Files) (words : List String) : Outcome × Files :=
  (plan environment files.read words).perform files

end FlowLink.Command
