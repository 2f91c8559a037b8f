import FlowLink.Bundle.Storage
import FlowLink.Codec.Config

/-! # Surroundings of a run

The environment variables that matter, and what follows from them: whether tags are coloured, and
where the user's settings are.  The machine also has a say in how units are read and written: YAML
is read by a reader of its own, and the maps of a saved unit come in orders of its own.
-/

namespace FlowLink.Command

structure Environment where
  home : Option String := none
  noColor : Option String := none
  terminal : Option String := none
  ci : Option String := none
  continuousIntegration : Option String := none
  forceColor : Option String := none
  readYaml : String → Option Datum := Yaml.read?
  orders : Bundle.Orders := {}

namespace Environment

def variableNames : List String :=
  ["HOME", "NO_COLOR", "TERM", "CI", "CONTINUOUS_INTEGRATION", "CLICOLOR_FORCE"]

def ofVariables (lookup : String → Option String) : Environment where
  home := lookup "HOME"
  noColor := lookup "NO_COLOR"
  terminal := lookup "TERM"
  ci := lookup "CI"
  continuousIntegration := lookup "CONTINUOUS_INTEGRATION"
  forceColor := lookup "CLICOLOR_FORCE"

/-- Output goes to no terminal, so colours have to be asked for.  Several variables forbid them by
being set, whatever they are set to. -/
def isColored (environment : Environment) : Bool :=
  environment.forceColor.any (· ≠ "0") && environment.noColor.isNone &&
    environment.terminal.all (fun name => name ≠ "dumb" && name ≠ "unknown") &&
    environment.ci.isNone && environment.continuousIntegration.isNone

/-- What is wrong with a command line is coloured by rules of its own, in which an empty variable is
as good as none. -/
def colorsUsage (environment : Environment) : Bool :=
  environment.forceColor.any (· ≠ "") && environment.noColor.all (· = "")

def settingsPath (environment : Environment) : Path :=
  (Path.mk (environment.home.getD ".")).join ".config/featgraph/config.toml"

def load (environment : Environment) (path : Path) (reading : Reading) :
    Except LoadFault (Bundle × List Event) :=
  Bundle.load path reading environment.readYaml

end Environment

inductive SettingsFault where
  | unreadable (path : Path)
  | malformed (path : Path)
deriving DecidableEq

def SettingsFault.message : SettingsFault → String
  | unreadable path => "failed to read " ++ path.text
  | malformed path => "failed to parse " ++ path.text

/-- The configuration from the settings file that is asked for, or from the user's own, which may
be missing. -/
def loadSettings (environment : Environment) (explicit : Option Path) (read : Path → Reading) :
    Except SettingsFault LinkConfig :=
  let path := explicit.getD environment.settingsPath
  if explicit.isNone && !(read path).exists then
    .ok {}
  else
    match read path with
    | .error _ => .error (.unreadable path)
    | .ok text =>
      match LinkConfig.ofToml? text with
      | some config => .ok config
      | none => .error (.malformed path)

end FlowLink.Command
