import FlowLink.Command.EscapeSequence
import FlowLink.Files.Path

/-! # Command-line arguments

What a command line can ask for, and what can be wrong with it.
-/

namespace FlowLink.Command

inductive Format where
  | text
  | json
deriving DecidableEq, Inhabited

namespace Format

def members : List Format := [text, json]

def name : Format → String
  | text => "text"
  | json => "json"

end Format

structure LinkArguments where
  units : List Path
  /-- A settings file that must exist, in place of the user's own. -/
  config : Option Path := none
  format : Format := .text
  /-- How many units may be linked at a time.  The result does not depend on it. -/
  threads : Option Nat := none
  /-- Where to save the linked unit, if there is only one. -/
  output : Option Path := none
  debug : Bool := false
  quiet : Bool := false

inductive Request where
  | link (arguments : LinkArguments)
  | check (units : List Path)
  | version
  | help

inductive ValueOption where
  | config
  | format
  | threads
  | output
deriving DecidableEq

namespace ValueOption

def members : List ValueOption := [config, format, threads, output]

def name : ValueOption → String
  | config => "config"
  | format => "format"
  | threads => "threads"
  | output => "output"

end ValueOption

inductive Flag where
  | debug
  | quiet
deriving DecidableEq

namespace Flag

def members : List Flag := [debug, quiet]

def name : Flag → String
  | debug => "debug"
  | quiet => "quiet"

end Flag

inductive Argument where
  | units
  | option (option : ValueOption)
  | flag (flag : Flag)
deriving DecidableEq

def Argument.usage : Argument → String
  | .units => "<UNITS>..."
  | .option choice => "--" ++ choice.name ++ " <" ++ choice.name.toUpper ++ ">"
  | .flag choice => "--" ++ choice.name

inductive CountFault where
  | empty
  | invalidDigit
  | tooLarge
  | zero
deriving DecidableEq

def CountFault.message : CountFault → String
  | empty => "cannot parse integer from empty string"
  | invalidDigit => "invalid digit found in string"
  | tooLarge => "number too large to fit in target type"
  | zero => "threads must be greater than 0"

inductive UsageFault where
  /-- No command is given, which is answered with the help. -/
  | commandMissing
  | unknownCommand (word : String)
  | unexpectedArgument (written : String)
  | unexpectedValue (value flag : String)
  | valueMissing (argument : Argument)
  | repeated (argument : Argument)
  | unknownFormat (value : String)
  | invalidCount (value : String) (fault : CountFault)
  | unitsMissing
deriving DecidableEq

/-- How a message marks its first word, what is wrong, and what it is wrong for. -/
structure Marking where
  introduction : String
  wrong : String → String
  place : String → String

namespace Marking

/-- Nothing is marked, and no escape sequence is left in what was written on the command line. -/
def plain : Marking where
  introduction := "error:"
  wrong text := "'" ++ plainText text ++ "'"
  place text := "'" ++ text ++ "'"

def colored : Marking where
  introduction := "\x1b[1m\x1b[31merror:\x1b[0m"
  wrong text := "'\x1b[33m" ++ text ++ "\x1b[0m'"
  place text := "'\x1b[1m" ++ text ++ "\x1b[0m'"

end Marking

def UsageFault.message? (marking : Marking) (fault : UsageFault) : Option String :=
  let text? := match fault with
    | commandMissing => none
    | unknownCommand word => some ("unrecognized subcommand " ++ marking.wrong word)
    | unexpectedArgument written =>
      some ("unexpected argument " ++ marking.wrong written ++ " found")
    | unexpectedValue value flag =>
      some ("unexpected value " ++ marking.wrong value ++ " for " ++ marking.place flag ++
        " found; no more were expected")
    | valueMissing argument =>
      some ("a value is required for " ++ marking.wrong argument.usage ++
        " but none was supplied")
    | repeated argument =>
      some ("the argument " ++ marking.wrong argument.usage ++ " cannot be used multiple times")
    | unknownFormat value =>
      some ("invalid value " ++ marking.wrong value ++ " for " ++
        marking.place (Argument.option .format).usage)
    | invalidCount value fault =>
      some ("invalid value " ++ marking.wrong value ++ " for " ++
        marking.place (Argument.option .threads).usage ++ ": " ++ fault.message)
    | unitsMissing => some "the following required arguments were not provided:"
  text?.map fun text => marking.introduction ++ " " ++ text

end FlowLink.Command
