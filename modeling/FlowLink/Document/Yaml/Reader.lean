import FlowLink.Document.Yaml.Outline
import FlowLink.Document.Yaml.Place

/-! # Reading YAML

`Yaml.read?` reads one document of block and flow collections and of plain and quoted scalars.  It
takes one place of the text at a time.  Tags, anchors, directives and block scalars are beyond it,
so what reads bundles can be given another reader, which knows them.
-/

namespace FlowLink.Yaml

/-- Blanks and line breaks that count only if more text of the scalar follows. -/
inductive Pause where
  | blanks (reversed : List Char)
  /-- Line breaks, of which the first one counts as a blank if it is the only one.  There is no
  first one if it was escaped.  Blanks beside line breaks do not count. -/
  | breaks (first : Option Char) (reversed : List Char)
deriving DecidableEq

namespace Pause

def none : Pause := .blanks []

def reversed : Pause → List Char
  | .blanks reversed => reversed
  | .breaks Option.none reversed => reversed
  | .breaks (some '\n') [] => [' ']
  | .breaks (some '\n') reversed => reversed
  | .breaks (some first) reversed => reversed ++ [first]

def isBroken : Pause → Bool
  | .blanks _ => false
  | .breaks _ _ => true

def addBlank (pause : Pause) (char : Char) : Pause :=
  match pause with
  | .blanks reversed => .blanks (char :: reversed)
  | .breaks first reversed => .breaks first reversed

def addBreak (pause : Pause) (char : Char) : Pause :=
  match pause with
  | .blanks _ => .breaks (some char) []
  | .breaks first reversed => .breaks first (char :: reversed)

end Pause

structure OpenScalar where
  start : Start
  reversed : List Char := []
  pause : Pause := .none
deriving DecidableEq

namespace OpenScalar

def settle (scalar : OpenScalar) : OpenScalar :=
  { scalar with reversed := scalar.pause.reversed ++ scalar.reversed, pause := .none }

def push (scalar : OpenScalar) (char : Char) : OpenScalar :=
  let settled := scalar.settle
  { settled with reversed := char :: settled.reversed }

def addBlank (scalar : OpenScalar) (char : Char) : OpenScalar :=
  { scalar with pause := scalar.pause.addBlank char }

def addBreak (scalar : OpenScalar) (char : Char) : OpenScalar :=
  { scalar with pause := scalar.pause.addBreak char }

def text (scalar : OpenScalar) : String := String.ofList scalar.reversed.reverse

/-- The scalar with an escaped line break, which counts for nothing. -/
def skipBreak (scalar : OpenScalar) : OpenScalar :=
  { scalar.settle with pause := .breaks Option.none [] }

end OpenScalar

def escape? : Char → Option Char
  | '0' => some '\x00'
  | 'a' => some '\x07'
  | 'b' => some '\x08'
  | 't' | '\t' => some '\t'
  | 'n' => some '\n'
  | 'v' => some '\x0b'
  | 'f' => some '\x0c'
  | 'r' => some '\r'
  | 'e' => some '\x1b'
  | ' ' => some ' '
  | '"' => some '"'
  | '/' => some '/'
  | '\\' => some '\\'
  | 'N' => some '\u0085'
  | '_' => some '\u00a0'
  | 'L' => some '\u2028'
  | 'P' => some '\u2029'
  | _ => none

def codeLength? : Char → Option Nat
  | 'x' => some 2
  | 'u' => some 4
  | 'U' => some 8
  | _ => none

inductive Lexeme where
  | none
  | comment
  /-- This many more characters of the mark of a document's start or end. -/
  | marker (due : Nat)
  | plain (scalar : OpenScalar)
  | single (scalar : OpenScalar)
  /-- Behind the first of two single quotes that stand for one. -/
  | quote (scalar : OpenScalar)
  | double (scalar : OpenScalar)
  | escape (scalar : OpenScalar)
  /-- This many more digits of the code of a character. -/
  | code (scalar : OpenScalar) (due value : Nat)
  /-- Behind a quoted scalar or a flow collection on its line, where a colon may make it a key. -/
  | held (start : Start) (value : Datum)

structure Reader where
  outline : Outline := {}
  /-- A key or a dash may stand here in a block collection. -/
  mayBegin : Bool := true
  started : Bool := false
  ended : Bool := false
  lexeme : Lexeme := .none

namespace Reader

def startAt (reader : Reader) (place : Place) : Start :=
  place.start (if reader.outline.inFlow then reader.outline.mayPair else reader.mayBegin)

/-- Makes a value of what has been read.  Behind a line break, a key or a dash may follow. -/
def takeValue (reader : Reader) (start : Start) (value : Datum) (isBroken : Bool) :
    Option Reader :=
  (reader.outline.add start.column value).map fun outline =>
    { reader with outline, mayBegin := isBroken, lexeme := .none }

/-- Takes the colon behind what has been read, which makes a key of it.  In a flow collection it may
have been announced as one. -/
def takeColon (reader : Reader) (start : Start) (key : Datum) (colon : Place) : Option Reader :=
  let keyed : Option Outline :=
    if start.reaches colon then
      if reader.outline.inFlow then reader.outline.revise (Frame.begin? key)
      else reader.outline.beginField start.column key
    else if reader.outline.inFlow then
      (reader.outline.add start.column key).bind fun outline => outline.revise Frame.answer?
    else none
  keyed.map fun outline => { reader with outline, mayBegin := false, lexeme := .none }

def takePlain (reader : Reader) (scalar : OpenScalar) : Option Reader :=
  reader.takeValue scalar.start (.scalar (plain scalar.text)) scalar.pause.isBroken

def holdQuoted (reader : Reader) (scalar : OpenScalar) : Reader :=
  { reader with lexeme := .held scalar.start (.text scalar.settle.text) }

/-- Characters that are part of the structure when they stand alone, and otherwise begin a word. -/
def partMarks : List Char := ['-', '?', ':']

/-- Other characters with which no scalar without quotes begins. -/
def reservedMarks : List Char :=
  [',', '[', ']', '\x7b', '\x7d', '#', '&', '*', '!', '|', '>', '%', '@', '\x60', '\t']

def beginScalar (reader : Reader) (place : Place) : Option Reader :=
  let scalar : OpenScalar := { start := reader.startAt place }
  match place.char with
  | '"' => some { reader with lexeme := .double scalar }
  | '\'' => some { reader with lexeme := .single scalar }
  | char =>
    if reservedMarks.contains char || (partMarks.contains char && isSeparated place.next) then none
    else some { reader with lexeme := .plain (scalar.push char) }

/-- Takes the mark of the document's start, before which nothing may stand, or that of its end,
before which something must. -/
def beginMarker (reader : Reader) (place : Place) : Option Reader :=
  let isUntouched :=
    reader.outline.frames.isEmpty && reader.outline.document.isNone && !reader.started
  if place.char = '.' then
    if isUntouched then none
    else some { reader with ended := true, mayBegin := false, lexeme := .marker 2 }
  else
    if isUntouched then some { reader with started := true, mayBegin := false, lexeme := .marker 2 }
    else none

def openFlow (reader : Reader) (frame : Frame) : Reader :=
  { reader with outline := reader.outline.push frame, mayBegin := false }

def closeFlow (reader : Reader) (closesList : Bool) : Option Reader :=
  (reader.outline.closeFlow closesList).map fun (outline, value, start) =>
    { reader with outline, mayBegin := false, lexeme := .held start value }

def beginValue (reader : Reader) (place : Place) : Option Reader :=
  match place.char with
  | '[' => some (reader.openFlow (.flowList (reader.startAt place) [] .part))
  | '\x7b' => some (reader.openFlow (.flowTable (reader.startAt place) [] .part))
  | _ => reader.beginScalar place

def revise (reader : Reader) (change : Frame → Option Frame) : Option Reader :=
  (reader.outline.revise change).map fun outline => { reader with outline, mayBegin := false }

def beginFlow (reader : Reader) (place : Place) : Option Reader :=
  match place.char with
  | ']' => reader.closeFlow true
  | '\x7d' => reader.closeFlow false
  | ',' => reader.revise Frame.separate?
  | '?' => reader.revise Frame.announce?
  | ':' => reader.revise Frame.answer?
  | _ => reader.beginValue place

/-- Takes a dash, question mark or colon that stands for itself in a block collection. -/
def beginPart (reader : Reader) (place : Place) : Option Reader := do
  guard reader.mayBegin
  let outline ← match place.char with
    | '-' => some (reader.outline.beginItem place.column)
    | '?' => reader.outline.announceField place.column
    | _ => reader.outline.answerField place.column
  return { reader with outline }

def beginBlock (reader : Reader) (place : Place) : Option Reader := do
  let outline ← reader.outline.closeBefore place.column false
  let reader := { reader with outline }
  if partMarks.contains place.char && isSeparated place.next then reader.beginPart place
  else reader.beginValue place

/-- Starts from a place that no lexeme has taken.  A byte order mark at the start of a line only
takes up a column. -/
def begin (reader : Reader) (place : Place) : Option Reader :=
  let reader := { reader with lexeme := .none }
  if place.marker then reader.beginMarker place
  else if place.char = '\ufeff' && place.column = 0 then some reader
  else if isBreak place.char then
    some { reader with mayBegin := reader.mayBegin || !reader.outline.inFlow }
  else if place.char = ' ' then some reader
  else if place.char = '\t' && (reader.outline.inFlow || !reader.mayBegin) then some reader
  else if place.char = '#' then some { reader with lexeme := .comment }
  else if reader.ended then none
  else if reader.outline.inFlow then reader.beginFlow place
  else reader.beginBlock place

/-- Characters that end a plain scalar in a flow collection. -/
def endsFlowWord (char : Char) : Bool :=
  char = ',' || char = '[' || char = ']' || char = '\x7b' || char = '\x7d'

def stepPlain (reader : Reader) (scalar : OpenScalar) (place : Place) : Option Reader :=
  let inFlow := reader.outline.inFlow
  let char := place.char
  let outside := scalar.pause.isBroken && place.column < reader.outline.margin
  if isBlank char && !place.marker then
    if outside && char = '\t' then none
    else some { reader with lexeme := .plain (scalar.addBlank char) }
  else if isBreak char then some { reader with lexeme := .plain (scalar.addBreak char) }
  else if place.marker || (char = '#' && scalar.pause ≠ .none) || (outside && !inFlow) then
    (reader.takePlain scalar).bind fun reader => reader.begin place
  else if char = ':' && isSeparated place.next then
    reader.takeColon scalar.start (.scalar (plain scalar.text)) place
  else if inFlow && char = ':' && place.next.any fun next => next = '?' || endsFlowWord next then
    none
  else if inFlow && endsFlowWord char then
    (reader.takePlain scalar).bind fun reader => reader.begin place
  else
    some { reader with lexeme := .plain (scalar.push char) }

/-- Takes a place inside quotes that neither ends the scalar nor is escaped. -/
def stepQuoted (reader : Reader) (wrap : OpenScalar → Lexeme) (scalar : OpenScalar)
    (place : Place) : Option Reader :=
  if place.marker then none
  else if isBlank place.char then some { reader with lexeme := wrap (scalar.addBlank place.char) }
  else if isBreak place.char then some { reader with lexeme := wrap (scalar.addBreak place.char) }
  else some { reader with lexeme := wrap (scalar.push place.char) }

def step (reader : Reader) (place : Place) : Option Reader :=
  match reader.lexeme with
  | .none => reader.begin place
  | .comment => if isBreak place.char then reader.begin place else some reader
  | .marker due => some { reader with lexeme := if due ≤ 1 then .none else .marker (due - 1) }
  | .plain scalar => reader.stepPlain scalar place
  | .single scalar =>
    if place.char = '\'' then
      if place.next = some '\'' then some { reader with lexeme := .quote scalar }
      else some (reader.holdQuoted scalar)
    else reader.stepQuoted .single scalar place
  | .quote scalar => some { reader with lexeme := .single (scalar.push '\'') }
  | .double scalar =>
    if place.char = '"' then some (reader.holdQuoted scalar)
    else if place.char = '\\' then some { reader with lexeme := .escape scalar }
    else reader.stepQuoted .double scalar place
  | .escape scalar =>
    if isBreak place.char then some { reader with lexeme := .double scalar.skipBreak }
    else match codeLength? place.char with
      | some length => some { reader with lexeme := .code scalar length 0 }
      | none => (escape? place.char).map fun meant =>
        { reader with lexeme := .double (scalar.push meant) }
  | .code scalar due value =>
    (digit? 16 place.char).bind fun digit =>
      let value := 16 * value + digit
      if 1 < due then some { reader with lexeme := .code scalar (due - 1) value }
      else if value.isValidChar then
        some { reader with lexeme := .double (scalar.push (Char.ofNat value)) }
      else none
  | .held start value =>
    if isBlank place.char then some reader
    else if place.char = ':' && (reader.outline.inFlow || isSeparated place.next) then
      reader.takeColon start value place
    else (reader.takeValue start value false).bind fun reader => reader.begin place

def finish (reader : Reader) : Option Datum := do
  let reader ← match reader.lexeme with
    | .none | .comment | .marker _ => some reader
    | .plain scalar => reader.takePlain scalar
    | .held start value => reader.takeValue start value false
    | _ => none
  reader.outline.finish

end Reader

/-- Lists and tables have a value only down to this level. -/
def depthLimit : Nat := 128

def read? (text : String) : Option Datum :=
  (places? text.toList).bind fun places =>
    ((places.foldlM Reader.step {}).bind Reader.finish).map (Datum.cut depthLimit)

end FlowLink.Yaml
