import Std.Data.ExtTreeMap
import Std.Data.ExtTreeSet
import FlowLink.Document.Datum
import FlowLink.Document.Decimal

/-! # Decoding documents

A `Dialect` says how a format spells the things that decoders ask for; the decoders below are the
same for all of them.  A decoder answers `none` for a document that is not of its form.
-/

namespace FlowLink

open Std

/-- How a format spells strings, ids, structures and the members of an enumeration. -/
structure Dialect where
  string? : Scalar → Option String
  id? : Meaning → Option Nat
  /-- A structure may be a list of its fields in order of declaration, of which the last ones may
  be missing. -/
  positional : Bool
  /-- Such a list may be longer than the structure has fields. -/
  surplus : Bool
  /-- An empty scalar may stand for an empty list or table. -/
  emptyCollections : Bool
  /-- A member of an enumeration may be a table whose only field has the member's name and a value
  of this kind. -/
  isPayload : Datum → Bool

namespace Dialect

def textOnly (value : Scalar) : Option String :=
  if value.meaning = .text then some value.text else none

/-- Ids are the natural numbers of 64 bits. -/
def naturalId : Meaning → Option Nat
  | .natural value => if value < wordLimit then some value else none
  | _ => none

def json : Dialect where
  string? := textOnly
  id? := naturalId
  positional := true
  surplus := false
  emptyCollections := false
  isPayload := Datum.isNull

/-- In YAML every scalar is the string of its text where a string is due. -/
def yaml : Dialect where
  string? value := some value.text
  id? := naturalId
  positional := false
  surplus := false
  emptyCollections := true
  isPayload _ := false

def toml : Dialect where
  string? := textOnly
  id? := naturalId
  positional := true
  surplus := true
  emptyCollections := false
  isPayload
    | .table [] | .list [] => true
    | _ => false

/-- What is left of the differences between formats in the fields of a tree element, which are
taken up before their types are known. -/
def neutral : Dialect where
  string? := textOnly
  id?
    | .negative 0 => some 0
    | meaning => naturalId meaning
  positional := true
  surplus := false
  emptyCollections := false
  isPayload _ := false

def isTakable (value : Scalar) : Bool :=
  match value.meaning with
  | .void => false
  | .natural value => value < wordLimit
  | .negative magnitude => magnitude ≤ signedLimit
  | _ => true

variable {α κ : Type} (dialect : Dialect)

def text (value : Datum) : Option String :=
  match value with
  | .scalar scalar => dialect.string? scalar
  | _ => none

def index (value : Datum) : Option Nat :=
  match value with
  | .scalar scalar => dialect.id? scalar.meaning
  | _ => none

def truth (value : Datum) : Option Bool :=
  match value with
  | .scalar ⟨_, .truth value⟩ => some value
  | _ => none

def nullable (decode : Datum → Option α) (value : Datum) : Option (Option α) :=
  if value.isNull then some none else (decode value).map some

def required (decode : Datum → Option α) (value : Option Datum) : Option α :=
  value.bind decode

def defaulted (fallback : α) (decode : Datum → Option α) : Option Datum → Option α
  | some value => decode value
  | none => some fallback

def isEmptyScalar : Datum → Bool
  | .scalar ⟨"", .null⟩ => true
  | _ => false

def items (value : Datum) : Option (List Datum) :=
  match value with
  | .list items => some items
  | _ => if dialect.emptyCollections && isEmptyScalar value then some [] else none

def entries (value : Datum) : Option (List (Scalar × Datum)) :=
  match value with
  | .table fields => some fields
  | _ => if dialect.emptyCollections && isEmptyScalar value then some [] else none

def listOf (decode : Datum → Option α) (value : Datum) : Option (List α) :=
  (dialect.items value).bind fun items => items.mapM decode

/-- A list of members in any order, in which repetitions do not count. -/
def setOf [Ord α] [TransOrd α] (decode : Datum → Option α) (value : Datum) :
    Option (ExtTreeSet α) :=
  (dialect.listOf decode value).map fun members => .ofList members

def mapEntry (key : Nat → κ) (decode : Datum → Option α) (field : Scalar × Datum) :
    Option (κ × α) := do
  return (key (← naturalId field.1.meaning), ← decode field.2)

/-- A table whose field names are ids.  The last of several fields for one id counts. -/
def mapOf [Ord κ] [TransOrd κ] (key : Nat → κ) (decode : Datum → Option α) (value : Datum) :
    Option (ExtTreeMap κ α) :=
  (dialect.entries value).bind fun fields =>
    (fields.mapM (mapEntry key decode)).map fun entries => .ofList entries

/-- A field with this name can be told from others, though it may be unknown. -/
def isName (name : Scalar) : Bool := name.meaning ≠ .void && name.meaning ≠ .nameless

def valuesOf (name : String) (fields : List (Scalar × Datum)) : List Datum :=
  (fields.filter fun field => field.1.text = name).map Prod.snd

/-- The value of a field that occurs at most once. -/
def fieldOf (fields : List (Scalar × Datum)) (name : String) : Option (Option Datum) :=
  match valuesOf name fields with
  | [] => some none
  | [value] => some (some value)
  | _ => none

/-- The values that a structure gives to the fields with these names.  Other fields are ignored; a
field given twice is refused. -/
def fields (names : List String) (value : Datum) : Option (List (Option Datum)) :=
  match value with
  | .list items =>
    if dialect.positional && (dialect.surplus || items.length ≤ names.length) then
      some (names.zipIdx.map fun (_, place) => items[place]?)
    else
      none
  | _ => do
    let fields ← dialect.entries value
    guard (fields.all fun field => isName field.1)
    names.mapM (fieldOf fields)

/-- The member of an enumeration that is spelled out, given all members and their names. -/
def member (members : List α) (name : α → String) (value : Datum) : Option α :=
  match value with
  | .scalar scalar => (dialect.string? scalar).bind fun text =>
    members.find? fun member => name member = text
  | .table [(field, payload)] =>
    if isName field && dialect.isPayload payload then
      members.find? fun member => name member = field.text
    else
      none
  | _ => none

end Dialect

end FlowLink
