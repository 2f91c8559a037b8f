import FlowLink.Command.Arguments
import FlowLink.Document.Decimal

/-! # Reading the command line

`Request.ofWords` takes one word after the other.  An option that was read stays pending until the
next one, because its value may be the next word; only then is it checked.  So of two faults the one
is reported that is noticed first, and an unknown option is noticed at once.
-/

namespace FlowLink.Command

def threadCount (value : String) : Except CountFault Nat := do
  let digits := match value.toList with
    | '+' :: digit :: digits => digit :: digits
    | digits => digits
  if digits.isEmpty then throw .empty
  let count ← digits.foldlM (fun count digit =>
    match digit? 10 digit with
    | none => throw .invalidDigit
    | some value =>
      let count := 10 * count + value
      if count < wordLimit then pure count else throw .tooLarge) 0
  if count = 0 then throw .zero
  return count

/-- How a word of the command line is spelled. -/
inductive Word where
  /-- Two dashes alone, behind which no word is an option. -/
  | escape
  /-- Two dashes, a name, and possibly a value behind an equals sign. -/
  | long (name : String) (value : Option String)
  /-- A dash and letters, of which the first one counts. -/
  | short (letter : Char)
  | plain

def Word.of (text : String) : Word :=
  match text.toList with
  | ['-', '-'] => .escape
  | '-' :: '-' :: rest =>
    let value := match rest.dropWhile (· ≠ '=') with
      | _ :: value => some (String.ofList value)
      | [] => none
    .long (String.ofList (rest.takeWhile (· ≠ '='))) value
  | '-' :: letter :: _ => .short letter
  | _ => .plain

inductive Stop where
  | fault (fault : UsageFault)
  | help

inductive Pending where
  | none
  | option (option : ValueOption) (value : Option String)
  | units (reversed : List String)

structure Intake where
  arguments : LinkArguments := { units := [] }
  given : List Argument := []
  pending : Pending := .none
  /-- No further word is an option. -/
  escaped : Bool := false

namespace Intake

def once (intake : Intake) (argument : Argument) : Except Stop Intake :=
  if intake.given.contains argument then .error (.fault (.repeated argument))
  else .ok { intake with given := argument :: intake.given }

def pathOf (argument : Argument) (value : String) : Except Stop Path :=
  if value = "" then .error (.fault (.valueMissing argument)) else .ok ⟨value⟩

def takeOption (intake : Intake) (option : ValueOption) (value : Option String) :
    Except Stop Intake := do
  let argument := Argument.option option
  let some value := value | throw (.fault (.valueMissing argument))
  let intake ← intake.once argument
  let arguments ← match option with
    | .config =>
      let path ← pathOf argument value
      pure { intake.arguments with config := some path }
    | .output =>
      let path ← pathOf argument value
      pure { intake.arguments with output := some path }
    | .format =>
      if value = "" then throw (.fault (.valueMissing argument))
      match Format.members.find? fun format => format.name = value with
      | some format => pure { intake.arguments with format }
      | none => throw (.fault (.unknownFormat value))
    | .threads =>
      match threadCount value with
      | .ok count => pure { intake.arguments with threads := some count }
      | .error fault => throw (.fault (.invalidCount value fault))
  return { intake with arguments }

def settle (intake : Intake) : Except Stop Intake := do
  let settled := { intake with pending := .none }
  match intake.pending with
  | .none => return settled
  | .option option value => settled.takeOption option value
  | .units reversed =>
    let units ← reversed.reverse.mapM (pathOf .units)
    return { settled with
      arguments := { settled.arguments with units := settled.arguments.units ++ units } }

def takeFlag (intake : Intake) (flag : Flag) : Except Stop Intake := do
  let intake ← (← intake.settle).once (.flag flag)
  return match flag with
    | .debug => { intake with arguments := { intake.arguments with debug := true } }
    | .quiet => { intake with arguments := { intake.arguments with quiet := true } }

/-- Takes a word that is no option: the value that an option waits for, or a unit. -/
def takePlain (intake : Intake) (text : String) : Except Stop Intake :=
  match intake.pending with
  | .units reversed => .ok { intake with pending := .units (text :: reversed) }
  | .option option none =>
    if intake.escaped then
      intake.settle.map fun intake => { intake with pending := .units [text] }
    else
      .ok { intake with pending := .option option (some text) }
  | _ => intake.settle.map fun intake => { intake with pending := .units [text] }

/-- Takes a word that begins with two dashes.  Only the options and flags of the command are
known. -/
def takeLong (options : List ValueOption) (flags : List Flag) (intake : Intake) (name : String)
    (value : Option String) : Except Stop Intake :=
  match options.find? fun option => option.name = name with
  | some option =>
    intake.settle.bind fun intake =>
      match value with
      | some value => intake.takeOption option (some value)
      | none => .ok { intake with pending := .option option none }
  | none =>
    match flags.find? fun flag => flag.name = name, value with
    | some flag, none => intake.takeFlag flag
    | some _, some value => .error (.fault (.unexpectedValue value ("--" ++ name)))
    | none, _ =>
      match value with
      | none =>
        if name = "help" then intake.settle.bind fun _ => .error .help
        else .error (.fault (.unexpectedArgument ("--" ++ name)))
      | some value =>
        if name = "help" then .error (.fault (.unexpectedValue value "--help"))
        else .error (.fault (.unexpectedArgument ("--" ++ name)))

def take (options : List ValueOption) (flags : List Flag) (intake : Intake) (text : String) :
    Except Stop Intake :=
  if intake.escaped then intake.takePlain text
  else match Word.of text with
    | .escape => .ok { intake with escaped := true }
    | .long name value => intake.takeLong options flags name value
    | .short 'h' => intake.settle.bind fun _ => .error .help
    | .short letter => .error (.fault (.unexpectedArgument (String.ofList ['-', letter])))
    | .plain => intake.takePlain text

def ofWords (options : List ValueOption) (flags : List Flag) (words : List String) :
    Except Stop LinkArguments := do
  let intake ← (← words.foldlM (take options flags) {}).settle
  if intake.arguments.units.isEmpty then throw (.fault .unitsMissing)
  return intake.arguments

end Intake

inductive Verb where
  | link
  | check
  | help
deriving DecidableEq

namespace Verb

def members : List Verb := [link, check, help]

def name : Verb → String
  | link => "link"
  | check => "check"
  | help => "help"

end Verb

/-- A request for help on a command, which has no commands of its own. -/
def helpOn : List String → Except Stop Request
  | [] => .ok .help
  | word :: rest =>
    if Verb.members.any fun verb => verb.name = word then
      match rest with
      | [] => .ok .help
      | next :: _ => .error (.fault (.unknownCommand next))
    else .error (.fault (.unknownCommand word))

def requestOf (verb : Verb) (words : List String) : Except Stop Request :=
  match verb with
  | .link => (Intake.ofWords ValueOption.members Flag.members words).map .link
  | .check => (Intake.ofWords [] [] words).map fun arguments => .check arguments.units
  | .help => helpOn words

def beginRequest : List String → Except Stop Request
  | [] => .error (.fault .commandMissing)
  | word :: rest =>
    match Word.of word with
    | .escape =>
      match rest with
      | [] => .error (.fault .commandMissing)
      | word :: _ =>
        if Verb.members.any fun verb => verb.name = word then
          .error (.fault (.unexpectedArgument word))
        else .error (.fault (.unknownCommand word))
    | .long "version" none => .ok .version
    | .long "help" none => .ok .help
    | .long name (some value) =>
      if name = "version" || name = "help" then
        .error (.fault (.unexpectedValue value ("--" ++ name)))
      else .error (.fault (.unexpectedArgument ("--" ++ name)))
    | .long name none => .error (.fault (.unexpectedArgument ("--" ++ name)))
    | .short 'V' => .ok .version
    | .short 'h' => .ok .help
    | .short letter => .error (.fault (.unexpectedArgument (String.ofList ['-', letter])))
    | .plain =>
      match Verb.members.find? fun verb => verb.name = word with
      | some verb => requestOf verb rest
      | none => .error (.fault (.unknownCommand word))

/-- The request of a command line, or what is wrong with it. -/
def Request.ofWords (words : List String) : Except UsageFault Request :=
  match beginRequest words with
  | .ok request => .ok request
  | .error .help => .ok .help
  | .error (.fault fault) => .error fault

end FlowLink.Command
