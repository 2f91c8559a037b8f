import FlowLink.Document.Json.Token

/-! # Reading JSON

`Json.read?` accepts exactly one value, surrounded by blanks at most.  The reader keeps the lists
and tables it is inside of on a stack of its own, and takes one token at a time.
-/

namespace FlowLink.Json

/-- The text of a field name denotes an id: it is the decimal form of a 64-bit number. -/
def idName? (name : List Char) : Option Nat :=
  match (decimal? name).map numberMeaning with
  | some (.natural value) => some value
  | _ => none

def stringValue (text : String) (spelling : Spelling) : Scalar :=
  ⟨text, if spelling = .broken then .void else .text⟩

/-- A string in the place of a field name, which means a number if it is written as one, without
escapes. -/
def fieldName (text : String) (spelling : Spelling) : Scalar :=
  match spelling with
  | .verbatim => ⟨text, ((idName? text.toList).map .natural).getD .text⟩
  | .escaped => ⟨text, .text⟩
  | .broken => ⟨text, .void⟩

/-- A list or table that is not closed yet, its parts last one first. -/
inductive Frame where
  | list (items : List Datum)
  | table (fields : List (Scalar × Datum))
  | field (fields : List (Scalar × Datum)) (name : Scalar)

inductive Due where
  | value
  | valueOrClose
  | name
  | nameOrClose
  | colon
  | commaOrClose
deriving DecidableEq

inductive Reader where
  | inside (frames : List Frame) (due : Due)
  | complete (document : Datum)

namespace Reader

def start : Reader := inside [] .value

def deliver (value : Datum) : List Frame → Option Reader
  | [] => some (complete value)
  | .list items :: outer => some (inside (.list (value :: items) :: outer) .commaOrClose)
  | .field fields name :: outer =>
    some (inside (.table ((name, value) :: fields) :: outer) .commaOrClose)
  | .table _ :: _ => none

def beginValue (frames : List Frame) : Token → Option Reader
  | .word value => deliver (.scalar value) frames
  | .quoted text spelling => deliver (.scalar (stringValue text spelling)) frames
  | .openList => some (inside (.list [] :: frames) .valueOrClose)
  | .openTable => some (inside (.table [] :: frames) .nameOrClose)
  | _ => none

def close : List Frame → Token → Option Reader
  | .list items :: outer, .closeList => deliver (.list items.reverse) outer
  | .table fields :: outer, .closeTable => deliver (.table fields.reverse) outer
  | _, _ => none

def takeName : List Frame → Token → Option Reader
  | .table fields :: outer, .quoted text spelling =>
    some (inside (.field fields (fieldName text spelling) :: outer) .colon)
  | _, _ => none

def step : Reader → Token → Option Reader
  | complete _, _ => none
  | inside frames .value, token => beginValue frames token
  | inside frames .valueOrClose, .closeList => close frames .closeList
  | inside frames .valueOrClose, token => beginValue frames token
  | inside frames .name, token => takeName frames token
  | inside frames .nameOrClose, .closeTable => close frames .closeTable
  | inside frames .nameOrClose, token => takeName frames token
  | inside frames .colon, .colon => some (inside frames .value)
  | inside _ .colon, _ => none
  | inside (.list items :: outer) .commaOrClose, .comma =>
    some (inside (.list items :: outer) .value)
  | inside (.table fields :: outer) .commaOrClose, .comma =>
    some (inside (.table fields :: outer) .name)
  | inside frames .commaOrClose, token => close frames token

def finish : Reader → Option Datum
  | complete document => some document
  | inside _ _ => none

end Reader

def ofTokens? (tokens : List Token) : Option Datum :=
  (tokens.foldlM Reader.step Reader.start).bind Reader.finish

/-- Lists and tables have a value only down to this level. -/
def depthLimit : Nat := 127

def read? (text : String) : Option Datum :=
  ((tokens? text.toList).bind ofTokens?).map (Datum.cut depthLimit)

end FlowLink.Json
