import FlowLink.Proofs.Bundle.Loading
import FlowLink.Proofs.Command.Runs
import Mathlib.Algebra.Ring.Nat

namespace FlowLink

/-! # Summaries of many units

A run goes through its units one by one, and whether one of them can be loaded has no effect on the
others.  So the summary says of each unit what a run over this unit alone says, its totals are sums
over the linked units, and checking the same units finds fault with those that could not be linked.
-/

namespace LinkStats

/-- Every counter by itself, summed over all records. -/
def totals (all : List LinkStats) : LinkStats where
  sitesVisited := (all.map sitesVisited).sum
  edgesAdded := (all.map edgesAdded).sum
  edgesExisting := (all.map edgesExisting).sum
  skippedOutsideMethod := (all.map skippedOutsideMethod).sum
  skippedUnanalyzed := (all.map skippedUnanalyzed).sum
  skippedNoFact := (all.map skippedNoFact).sum
  missingFeatureNode := (all.map missingFeatureNode).sum
  ambiguousTokens := (all.map ambiguousTokens).sum
  methodsLinked := (all.map methodsLinked).sum
  returnsSeen := (all.map returnsSeen).sum
  bareReturns := (all.map bareReturns).sum

theorem add_assoc (left middle right : LinkStats) :
    (left.add middle).add right = left.add (middle.add right) := by
  simp only [add, Nat.add_assoc]

end LinkStats

namespace Command

variable {environment : Environment} {files : Files} {words : List String}
  {arguments : LinkArguments} {config : LinkConfig} {units : List Path} {read : Path → Reading}

/-! ## Linking -/

/-- What a summary says when some units are linked. -/
structure Summary.Covers (summary : Summary) (environment : Environment) (config : LinkConfig)
    (units : List Path) (read : Path → Reading) : Prop where
  /-- The units that can be loaded are linked, in the order in which they are given. -/
  linked : summary.units.map UnitReport.path =
    units.filter fun path => (environment.load path (read path)).isOk
  /-- The others have failed, in the same order. -/
  refused : summary.failed.map FailedUnit.path =
    units.filter fun path => !(environment.load path (read path)).isOk
  faults : ∀ unit ∈ summary.failed,
    environment.load unit.path (read unit.path) = .error unit.fault
  /-- The report on a unit is the one that it gets alone. -/
  alone : ∀ report ∈ summary.units,
    (linkAll environment config [report.path] read).summary = report.alone
  total : summary.total = .totals (summary.units.map UnitReport.stats)

/-- What a check says of a unit, behind its tag. -/
def checkRemark (environment : Environment) (path : Path) (reading : Reading) : String :=
  match environment.load path reading with
  | .ok (bundle, _) =>
    path.text ++ " (" ++ toString bundle.tree.size ++ " tree elements, " ++
      toString bundle.graph.nodeCount ++ " nodes, " ++ toString bundle.analysis.size ++
      " analysed methods)"
  | .error fault => path.text ++ ": " ++ fault.message path

theorem checkLine_eq (environment : Environment) (path : Path) (reading : Reading) :
    checkLine environment path reading =
      (if isFaulty environment path reading then Tag.invalid else Tag.ok).line
        environment.isColored (checkRemark environment path reading) := by
  unfold checkLine isFaulty checkRemark
  cases environment.load path reading <;> rfl

theorem isFaulty_eq (environment : Environment) (path : Path) (reading : Reading) :
    isFaulty environment path reading = !(environment.load path reading).isOk := by
  unfold isFaulty
  cases environment.load path reading <;> rfl

theorem Summary.Covers.isFaulty_iff {summary : Summary} {path : Path}
    (covers : summary.Covers environment config units read) (member : path ∈ units) :
    isFaulty environment path (read path) = true ↔ path ∈ summary.failed.map FailedUnit.path := by
  rw [covers.refused, List.mem_filter, isFaulty_eq]
  simp [member]

theorem Summary.Covers.countP_isFaulty {summary : Summary}
    (covers : summary.Covers environment config units read) :
    (units.countP fun path => isFaulty environment path (read path)) =
      summary.failed.length := by
  calc
    (units.countP fun path => isFaulty environment path (read path)) =
        (units.filter fun path => !(environment.load path (read path)).isOk).length := by
      rw [List.countP_eq_length_filter]
      simp only [isFaulty_eq]
    _ = summary.failed.length := by rw [← covers.refused, List.length_map]

/-- A check marks the units that a run over them fails to link, and fails if there are any. -/
theorem Summary.Covers.checked {summary : Summary}
    (covers : summary.Covers environment config units read) :
    (checkOutcome environment units read).exit = (if summary.failed.length = 0 then 0 else 1) ∧
      (checkOutcome environment units read).output = String.join (units.map fun path =>
        (if path ∈ summary.failed.map FailedUnit.path then Tag.invalid else Tag.ok).line
          environment.isColored (checkRemark environment path (read path))) := by
  constructor
  · rw [← covers.countP_isFaulty]
    rfl
  · apply congrArg String.join
    apply List.map_congr_left
    intro path member
    rw [checkLine_eq]
    simp only [covers.isFaulty_iff member]

/-! ## Runs -/

end Command

end FlowLink
