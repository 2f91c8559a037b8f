/-! # Places of a YAML text

A character means different things at different columns, and some characters are told apart by what
follows them.  A `Place` is a character with what decides about it.
-/

namespace FlowLink.Yaml

def isBlank (char : Char) : Bool := char = ' ' || char = '\t'

/-- A line break, once all forms that mean the same are unified. -/
def isBreak (char : Char) : Bool := char = '\n' || char = '\u2028' || char = '\u2029'

/-- Control characters, surrogates and the last two characters of the first plane may stand
nowhere. -/
def isAllowed (char : Char) : Bool :=
  let code := char.toNat
  char = '\t' || char = '\n' || char = '\r' || (0x20 ≤ code && code ≤ 0x7e) || code = 0x85 ||
    (0xa0 ≤ code && code ≤ 0xfffd) || 0x10000 ≤ code

/-- Writes a carriage return, one with a line feed, and a next-line character as a line feed. -/
def unifyBreaks : List Char → List Char
  | [] => []
  | '\r' :: '\n' :: rest => '\n' :: unifyBreaks rest
  | char :: rest => (if char = '\r' || char = '\u0085' then '\n' else char) :: unifyBreaks rest

/-- Nothing more stands on the line of a word that is followed by this. -/
def isSeparated (next : Option Char) : Bool :=
  next.all fun char => isBlank char || isBreak char

structure Place where
  char : Char
  line : Nat
  column : Nat
  /-- How many bytes of its line come before it. -/
  offset : Nat
  next : Option Char
  /-- Three dashes or three dots begin here, alone at the start of a line. -/
  marker : Bool
deriving DecidableEq

/-- The text begins with the mark of a document's start or end. -/
def startsMarker (text : List Char) : Bool :=
  match text with
  | first :: second :: third :: rest =>
    (first = '-' || first = '.') && second = first && third = first && isSeparated rest.head?
  | _ => false

def placesFrom (line column offset : Nat) : List Char → List Place
  | [] => []
  | char :: rest =>
    ⟨char, line, column, offset, rest.head?, column = 0 && startsMarker (char :: rest)⟩ ::
      if isBreak char then placesFrom (line + 1) 0 0 rest
      else placesFrom line (column + 1) (offset + char.utf8Size) rest

/-- The places of a text, or none if it has a character that may not stand in any text. -/
def places? (text : List Char) : Option (List Place) :=
  if text.all isAllowed then some (placesFrom 0 0 0 (unifyBreaks text)) else none

/-- The beginning of what a colon may turn into a key. -/
structure Start where
  line : Nat
  column : Nat
  offset : Nat
  mayBeKey : Bool
deriving DecidableEq

namespace Start

/-- A key and its colon stand on one line, and at most this many bytes apart. -/
def keyLimit : Nat := 1024

def reaches (start : Start) (colon : Place) : Bool :=
  start.mayBeKey && start.line = colon.line && colon.offset ≤ start.offset + keyLimit

end Start

def Place.start (place : Place) (mayBeKey : Bool) : Start :=
  ⟨place.line, place.column, place.offset, mayBeKey⟩

end FlowLink.Yaml
