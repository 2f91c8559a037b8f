import FlowLink.Command.Run

/-! # The program

Reads the files that a request may read, and carries out its plan.
-/

namespace FlowLink.Command

def faultOf (error : IO.Error) : ReadFault :=
  match error with
  | .permissionDenied .. => .denied
  | .inappropriateType _ code _ => if code = 20 then .notDirectory else .isDirectory
  | .invalidArgument .. => .nameTooLong
  | _ => .notFound

def readFile (path : Path) : IO Reading := do
  try
    match String.fromUTF8? (← IO.FS.readBinFile path.text) with
    | some text => return .ok text
    | none => return .error .notText
  catch error => return .error (faultOf error)

def writeFile (path : Path) (text : String) : IO Bool := do
  try
    IO.FS.writeFile path.text text
    return true
  catch _ => return false

def present (outcome : Outcome) : IO UInt32 := do
  for entry in outcome.log do
    IO.eprintln entry.notice.line
  IO.print outcome.output
  for line in outcome.error do
    IO.eprintln line
  return outcome.exit.toUInt32

def performPlan : Plan → IO UInt32
  | .finish outcome => present outcome
  | .save path text written refused => do
    present (if ← writeFile path text then written else refused)

end FlowLink.Command

open FlowLink Command in
def main (words : List String) : IO UInt32 := do
  let names := Environment.variableNames
  let values ← names.mapM fun name => return (name, ← IO.getEnv name)
  let environment := Environment.ofVariables fun name => (values.lookup name).join
  match Request.ofWords words with
  | .error fault =>
    if fault = .commandMissing then IO.eprint helpText
    present (fault.outcome environment)
  | .ok request =>
    let readings ← (request.sources environment).mapM fun path => return (path, ← readFile path)
    performPlan (request.plan environment
      (fun path => (readings.lookup path).getD (.error .notFound)))
