import FlowLink.Bundle.Storage
import FlowLink.Command.Arguments

/-! # Reports

What a run says about the units it was given, on standard output and in its log.
-/

namespace FlowLink.Command

structure UnitReport where
  path : Path
  nodes : Nat
  edges : List (EdgeKind × Nat)
  stats : LinkStats

structure FailedUnit where
  path : Path
  fault : LoadFault

namespace FailedUnit

def message (failed : FailedUnit) : String := failed.fault.message failed.path

end FailedUnit

structure Summary where
  units : List UnitReport
  failed : List FailedUnit
  total : LinkStats

inductive Tag where
  | linked
  | ok
  | failed
  | invalid
deriving DecidableEq

namespace Tag

def name : Tag → String
  | linked => "LINKED"
  | ok => "OK"
  | failed => "FAILED"
  | invalid => "INVALID"

/-- The number of the bold colour of a tag: green for a success, red for a failure. -/
def color : Tag → String
  | linked | ok => "92"
  | failed | invalid => "91"

def line (tag : Tag) (isColored : Bool) (message : String) : String :=
  let name := if isColored then "\x1b[1;" ++ tag.color ++ "m" ++ tag.name ++ "\x1b[0m" else tag.name
  "[" ++ name ++ "] " ++ message ++ "\n"

end Tag

namespace UnitReport

def text (isColored : Bool) (report : UnitReport) : String :=
  let edges := report.edges.map fun (kind, count) => kind.name ++ "=" ++ toString count
  Tag.linked.line isColored report.path.text ++
    "  nodes=" ++ toString report.nodes ++ " " ++ " ".intercalate edges ++ "\n" ++
    "  added=" ++ toString report.stats.edgesAdded ++
    " existing=" ++ toString report.stats.edgesExisting ++
    " ambiguous=" ++ toString report.stats.ambiguousTokens ++
    " missing_nodes=" ++ toString report.stats.missingFeatureNode ++ "\n"

end UnitReport

def encodeCounts (counts : List (String × Nat)) : Datum :=
  .record (counts.map fun (name, count) => (name, .natural count))

namespace Summary

def empty : Summary := ⟨[], [], {}⟩

def text (isColored : Bool) (summary : Summary) : String :=
  String.join (summary.units.map (UnitReport.text isColored)) ++
    String.join (summary.failed.map fun failed =>
      Tag.failed.line isColored (failed.path.text ++ ": " ++ failed.message)) ++
    toString summary.units.length ++ " unit(s) linked, " ++
    toString summary.failed.length ++ " failed: " ++
    toString summary.total.edgesAdded ++ " edge(s) added, " ++
    toString summary.total.ambiguousTokens ++ " ambiguous resolution(s), " ++
    toString summary.total.skippedOutsideMethod ++ " site(s) outside methods, " ++
    toString summary.total.skippedUnanalyzed ++ " unanalysed\n"

def encode (summary : Summary) : Datum :=
  .record [
    ("units", .list (summary.units.map fun report => .record [
      ("path", .text report.path.text),
      ("nodes", .natural report.nodes),
      ("edges", encodeCounts (report.edges.map fun (kind, count) => (kind.name, count))),
      ("stats", encodeCounts report.stats.counters)])),
    ("failed", .list (summary.failed.map fun failed => .record [
      ("path", .text failed.path.text),
      ("error", .text failed.message)])),
    ("total", encodeCounts summary.total.counters)]

def print (format : Format) (isColored : Bool) (summary : Summary) : String :=
  match format with
  | .text => summary.text isColored
  | .json => Json.pretty summary.encode ++ "\n"

end Summary

inductive LogEntry where
  | configuration (config : LinkConfig)
  | started (units : Nat)
  | loaded (path : Path) (nodes : Nat)
  | event (event : Event)
  | written (path : Path)
  | failed (unit : FailedUnit)
  | completed (linked failed : Nat)

def renderConfig (config : LinkConfig) : String :=
  let mode := match config.returnMode with
    | .all => "All"
    | .last => "Last"
  let passes := config.passes.map fun
    | .dataflow => "Dataflow"
    | .returnsTo => "ReturnsTo"
  "LinkerConfig \x7b return_mode: " ++ mode ++
    ", warn_ambiguous: " ++ (if config.warnAmbiguous then "true" else "false") ++
    ", passes: [" ++ ", ".intercalate passes ++ "] \x7d"

def LogEntry.notice : LogEntry → Notice
  | .configuration config =>
    ⟨.debug, "linker configuration", [("config", .text (renderConfig config))]⟩
  | .started units => ⟨.info, "Link started", [("units", .count units)]⟩
  | .loaded path nodes =>
    ⟨.debug, "unit loaded", [("path", .text path.text), ("nodes", .count nodes)]⟩
  | .event happened => happened.notice
  | .written path => ⟨.info, "linked unit written", [("path", .text path.text)]⟩
  | .failed unit => ⟨.error, unit.message, [("path", .text unit.path.text)]⟩
  | .completed linkedUnits failedUnits =>
    ⟨.info, "Link completed", [("linked", .count linkedUnits), ("failed", .count failedUnits)]⟩

end FlowLink.Command
