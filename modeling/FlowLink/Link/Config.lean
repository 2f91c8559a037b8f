/-! # Linking options -/

namespace FlowLink

/-- Which return statements of a method feed its return value. -/
inductive ReturnMode where
  /-- Every return statement with an expression that is the method's own. -/
  | all
  /-- Only the last return statement with an expression, searching lambdas and nested classes of
  the body as well. -/
  | last
deriving DecidableEq, Inhabited

namespace ReturnMode

def members : List ReturnMode := [all, last]

def name : ReturnMode → String
  | all => "all"
  | last => "last"

end ReturnMode

inductive Pass where
  | dataflow
  | returnsTo
deriving DecidableEq, Inhabited

namespace Pass

def members : List Pass := [dataflow, returnsTo]

def name : Pass → String
  | dataflow => "dataflow"
  | returnsTo => "returns_to"

end Pass

structure LinkConfig where
  returnMode : ReturnMode := .all
  /-- Report ambiguous token resolution as a warning. -/
  warnAmbiguous : Bool := false
  /-- The passes to run.  Their order and repetitions have no meaning. -/
  passes : List Pass := [.dataflow, .returnsTo]
deriving DecidableEq, Inhabited

def LinkConfig.runs (config : LinkConfig) (pass : Pass) : Bool := config.passes.contains pass

end FlowLink
