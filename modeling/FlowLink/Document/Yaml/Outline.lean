import FlowLink.Document.Yaml.Place
import FlowLink.Document.Yaml.Word

/-! # Outlines

An outline is what a YAML text says up to some place: the collections that are not closed yet,
innermost first.  Block collections are closed by what stands to the left of them, flow collections
by their brackets.
-/

namespace FlowLink.Yaml

/-- What may come next in a table, or in a flow list. -/
inductive Due where
  /-- An item or a key of a flow collection, or its closing bracket. -/
  | part
  | key
  | colon (key : Datum)
  | value (key : Datum)
  /-- What comes between two parts, a comma or a line, or the end. -/
  | separator

/-- A collection that is not closed yet, its parts last one first. -/
inductive Frame where
  /-- A list whose dashes stand at a column.  One that hangs is the value of a key at the same
  column.  An item is due behind a dash. -/
  | blockList (column : Nat) (hanging : Bool) (items : List Datum) (due : Bool)
  | blockTable (column : Nat) (fields : List (Scalar × Datum)) (due : Due)
  | flowList (start : Start) (items : List Datum) (due : Due)
  | flowTable (start : Start) (fields : List (Scalar × Datum)) (due : Due)

namespace Frame

def column? : Frame → Option Nat
  | blockList column _ _ _ => some column
  | blockTable column _ _ => some column
  | flowList .. => none
  | flowTable .. => none

def addField (fields : List (Scalar × Datum)) (key value : Datum) : List (Scalar × Datum) :=
  (Datum.field key value).reverse ++ fields

/-- Puts a value where one is due in a table.  What stands alone in a flow table is a key, whose
value is null. -/
def takeInTable? (fields : List (Scalar × Datum)) (value : Datum) :
    Due → Option (List (Scalar × Datum) × Due)
  | .part => some (addField fields value absent, .separator)
  | .key => some (fields, .colon value)
  | .value key => some (addField fields key value, .separator)
  | .colon _ | .separator => none

/-- Puts a value where one is due.  In a flow list, a key and its value are a table of their own. -/
def take? (value : Datum) : Frame → Option Frame
  | blockList column hanging items true => some (blockList column hanging (value :: items) false)
  | blockList _ _ _ false => none
  | blockTable column fields due =>
    (takeInTable? fields value due).map fun (fields, due) => blockTable column fields due
  | flowTable start fields due =>
    (takeInTable? fields value due).map fun (fields, due) => flowTable start fields due
  | flowList start items .part => some (flowList start (value :: items) .separator)
  | flowList start items .key => some (flowList start items (.colon value))
  | flowList start items (.value key) =>
    some (flowList start (.table (Datum.field key value) :: items) .separator)
  | flowList _ _ (.colon _) | flowList _ _ .separator => none

/-- Leaves out what is due in a table, if a field has begun. -/
def settleFields (fields : List (Scalar × Datum)) : Due → List (Scalar × Datum) × Due
  | .key => (addField fields absent absent, .separator)
  | .colon key | .value key => (addField fields key absent, .separator)
  | due => (fields, due)

/-- Leaves out what is due, if a part has begun. -/
def settle : Frame → Frame
  | blockList column hanging items true => blockList column hanging (absent :: items) false
  | blockTable column fields due =>
    let (fields, due) := settleFields fields due
    blockTable column fields due
  | flowTable start fields due =>
    let (fields, due) := settleFields fields due
    flowTable start fields due
  | flowList start items (.colon key) | flowList start items (.value key) =>
    flowList start (.table (Datum.field key absent) :: items) .separator
  | frame => frame

def begin? (key : Datum) : Frame → Option Frame
  | blockTable column fields .separator => some (blockTable column fields (.value key))
  | flowList start items .part => some (flowList start items (.value key))
  | flowTable start fields .part => some (flowTable start fields (.value key))
  | _ => none

def announce? : Frame → Option Frame
  | blockTable column fields .separator => some (blockTable column fields .key)
  | flowList start items .part => some (flowList start items .key)
  | flowTable start fields .part => some (flowTable start fields .key)
  | _ => none

/-- Takes the colon behind a key that a question mark has announced.  In a flow list, a colon where
the key is due counts for nothing but an empty key. -/
def answer? : Frame → Option Frame
  | blockTable column fields .key => some (blockTable column fields (.value absent))
  | blockTable column fields (.colon key) => some (blockTable column fields (.value key))
  | flowTable start fields .key => some (flowTable start fields (.value absent))
  | flowTable start fields (.colon key) => some (flowTable start fields (.value key))
  | flowList start items .key => some (flowList start items (.colon absent))
  | flowList start items (.colon key) => some (flowList start items (.value key))
  | _ => none

/-- Takes a comma, which must follow a part.  In a flow list, a comma where a key is due counts for
nothing but an empty key. -/
def separate? (frame : Frame) : Option Frame :=
  match frame.settle with
  | flowList start items .key => some (flowList start items (.colon absent))
  | flowList start items .separator => some (flowList start items .part)
  | flowTable start fields .separator => some (flowTable start fields .part)
  | _ => none

def datum (frame : Frame) : Datum :=
  match frame.settle with
  | blockList _ _ items _ | flowList _ items _ => .list items.reverse
  | blockTable _ fields _ | flowTable _ fields _ => .table fields.reverse

/-- The block collection ends before something at a column, or before a key there. -/
def endsBefore (column : Nat) (isKey : Bool) : Frame → Bool
  | blockList own hanging _ _ => column < own || (column = own && hanging && isKey)
  | blockTable own _ _ => column < own
  | _ => false

end Frame

structure Outline where
  frames : List Frame := []
  document : Option Datum := none

namespace Outline

def inFlow (outline : Outline) : Bool :=
  outline.frames.head?.any fun frame => frame.column?.isNone

/-- A colon behind what begins here would make it a key in the flow collection around it. -/
def mayPair (outline : Outline) : Bool :=
  match outline.frames with
  | .flowList _ _ .part :: _ | .flowTable _ _ .part :: _ => true
  | _ => false

/-- The leftmost column of what is inside the innermost block collection. -/
def margin (outline : Outline) : Nat :=
  match outline.frames.findSome? Frame.column? with
  | some column => column + 1
  | none => 0

/-- Puts a value into the innermost frame, and closes frames from there on outwards as long as they
pass the test. -/
def collapse (closes : Frame → Bool) (document : Option Datum) :
    Option Datum → List Frame → Option Outline
  | none, [] => some ⟨[], document⟩
  | some value, [] => if document.isNone then some ⟨[], some value⟩ else none
  | none, frame :: outer =>
    if closes frame then collapse closes document (some frame.datum) outer
    else some ⟨frame :: outer, document⟩
  | some value, frame :: outer =>
    (frame.take? value).bind fun frame =>
      if closes frame then collapse closes document (some frame.datum) outer
      else some ⟨frame :: outer, document⟩

def deliver (outline : Outline) (value : Datum) : Option Outline :=
  collapse (fun _ => false) outline.document (some value) outline.frames

def push (outline : Outline) (frame : Frame) : Outline :=
  { outline with frames := frame :: outline.frames }

def revise (outline : Outline) (change : Frame → Option Frame) : Option Outline :=
  match outline.frames with
  | [] => none
  | frame :: outer => (change frame).map fun frame => { outline with frames := frame :: outer }

def closeBefore (outline : Outline) (column : Nat) (isKey : Bool) : Option Outline :=
  collapse (Frame.endsBefore column isKey) outline.document none outline.frames

/-- What stands at a column is inside the innermost collection. -/
def encloses (outline : Outline) (column : Nat) : Bool :=
  match outline.frames with
  | frame :: _ => frame.column?.all (· < column)
  | [] => true

def add (outline : Outline) (column : Nat) (value : Datum) : Option Outline :=
  if outline.encloses column then outline.deliver value else none

def beginItem (outline : Outline) (column : Nat) : Outline :=
  match outline.frames with
  | .blockList own hanging items due :: outer =>
    if own = column then
      let items := if due then absent :: items else items
      { outline with frames := .blockList own hanging items true :: outer }
    else
      outline.push (.blockList column false [] true)
  | .blockTable own _ _ :: _ => outline.push (.blockList column (own = column) [] true)
  | _ => outline.push (.blockList column false [] true)

/-- Makes ready for the next field of the block table at a column, which may begin here. -/
def openField (outline : Outline) (column : Nat) : Option Outline := do
  let outline ← outline.closeBefore column true
  match outline.frames with
  | .blockTable own fields due :: outer =>
    if own = column then
      return { outline with frames := (Frame.blockTable own fields due).settle :: outer }
    else
      return outline.push (.blockTable column [] .separator)
  | _ =>
    guard (outline.encloses column)
    return outline.push (.blockTable column [] .separator)

def beginField (outline : Outline) (column : Nat) (key : Datum) : Option Outline :=
  (outline.openField column).bind (·.revise (Frame.begin? key))

/-- Takes the question mark that announces the key of a field of a block table. -/
def announceField (outline : Outline) (column : Nat) : Option Outline :=
  (outline.openField column).bind (·.revise Frame.announce?)

/-- Takes the colon behind an announced key of a block table.  Both stand at the same column. -/
def answerField (outline : Outline) (column : Nat) : Option Outline := do
  let outline ← outline.closeBefore column true
  guard (outline.frames.head?.any fun frame => frame.column? = some column)
  outline.revise Frame.answer?

/-- Takes the bracket that closes a list, or the brace that closes a table.  Answers the collection
and where it began, because it may turn out to be a key.  A bracket does not close a list where a
key is due. -/
def closeFlow (outline : Outline) (closesList : Bool) : Option (Outline × Datum × Start) :=
  match outline.frames with
  | frame :: outer =>
    match frame, closesList with
    | .flowList _ _ .key, true => none
    | .flowList start .., true | .flowTable start .., false =>
      some ({ outline with frames := outer }, frame.datum, start)
    | _, _ => none
  | [] => none

/-- The document, if the text ends here.  A text that says nothing is an empty scalar. -/
def finish (outline : Outline) : Option Datum :=
  (collapse (fun frame => frame.column?.isSome) outline.document none outline.frames).bind
    fun outline =>
      match outline.frames with
      | [] => some (outline.document.getD absent)
      | _ => none

end Outline

end FlowLink.Yaml
