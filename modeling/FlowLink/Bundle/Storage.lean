import FlowLink.Codec.Bundle
import FlowLink.Document.Yaml.Reader
import FlowLink.Files.Basic

/-! # Bundles in files

A file whose name ends in `.yaml` or `.yml` is read as YAML, every other one as JSON.  Saved bundles
are JSON.  What a text says as YAML is for a reader to find out, which may be any.
-/

namespace FlowLink

inductive LoadFault where
  | read (fault : ReadFault)
  | parse
  | invalid (defect : Bundle.Defect)
deriving DecidableEq

def LoadFault.message (path : Path) : LoadFault → String
  | read fault => "failed to read " ++ path.text ++ ": " ++ fault.message
  | parse => "failed to parse " ++ path.text ++ ": not the document of a unit"
  | invalid defect => "invalid unit " ++ path.text ++ ": " ++ defect.message

namespace Bundle

def isYaml (path : Path) : Bool :=
  path.extension? = some "yaml" || path.extension? = some "yml"

def ofText? (path : Path) (text : String) (readYaml : String → Option Datum := Yaml.read?) :
    Option Bundle :=
  if isYaml path then (readYaml text).bind (decode? .yaml) else ofJson? text

/-- The bundle that reading a file gives, if it is valid, and the warnings about it. -/
def load (path : Path) (reading : Reading) (readYaml : String → Option Datum := Yaml.read?) :
    Except LoadFault (Bundle × List Event) :=
  match reading with
  | .error fault => .error (.read fault)
  | .ok text =>
    match ofText? path text readYaml with
    | none => .error .parse
    | some bundle =>
      match bundle.validate with
      | .error defect => .error (.invalid defect)
      | .ok warnings => .ok (bundle, warnings)

end Bundle

end FlowLink
