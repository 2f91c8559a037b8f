import FlowLink.Document.Decoding
import FlowLink.Document.Toml.Reader
import FlowLink.Link.Config

/-! # Configurations as documents -/

namespace FlowLink

open Dialect

namespace LinkConfig

def encode (config : LinkConfig) : Datum :=
  .record [("return_mode", .text config.returnMode.name),
    ("warn_ambiguous", .truth config.warnAmbiguous),
    ("passes", .list (config.passes.map fun pass => .text pass.name))]

def decode? (dialect : Dialect) (value : Datum) : Option LinkConfig := do
  match ← dialect.fields ["return_mode", "warn_ambiguous", "passes"] value with
  | [returnMode, warnAmbiguous, passes] =>
    let standard : LinkConfig := {}
    let returnMode ← defaulted standard.returnMode
      (dialect.member ReturnMode.members ReturnMode.name) returnMode
    let warnAmbiguous ← defaulted standard.warnAmbiguous truth warnAmbiguous
    let passes ← defaulted standard.passes
      (dialect.listOf (dialect.member Pass.members Pass.name)) passes
    return { returnMode, warnAmbiguous, passes }
  | _ => none

/-- Decodes a settings document, in which the configuration is the field `linker`. -/
def ofSettings? (dialect : Dialect) (value : Datum) : Option LinkConfig := do
  match ← dialect.fields ["linker"] value with
  | [linker] => defaulted {} (decode? dialect) linker
  | _ => none

def ofToml? (text : String) : Option LinkConfig := (Toml.read? text).bind (ofSettings? toml)

end LinkConfig

end FlowLink
