/-! # Document values

What a document says, whatever format it is written in.  Scalars keep the text they were written
with beside what that text means, and tables keep the order and the repetitions of their fields,
because decoding depends on both.
-/

namespace FlowLink

/-- What the text of a scalar stands for in the format it was read from. -/
inductive Meaning where
  | null
  | truth (value : Bool)
  | natural (value : Nat)
  /-- A whole number written with a minus sign, given by its magnitude. -/
  | negative (magnitude : Nat)
  /-- A number with a fraction or an exponent, or too large for a whole number. -/
  | real
  | text
  /-- Well formed, but no value: a number beyond every double, text with half a surrogate pair, or
  a list or table with too many others around it. -/
  | void
  /-- Stands in the place of a name.  A field whose name is a list or a table is given as two
  nameless ones, of which the first one holds its name and the second one its value. -/
  | nameless
deriving DecidableEq, Inhabited

structure Scalar where
  text : String
  meaning : Meaning
deriving DecidableEq, Inhabited

namespace Scalar

def ofText (text : String) : Scalar := ⟨text, .text⟩

def ofNat (value : Nat) : Scalar := ⟨toString value, .natural value⟩

end Scalar

inductive Datum where
  | scalar (value : Scalar)
  | list (items : List Datum)
  | table (fields : List (Scalar × Datum))
deriving Inhabited

namespace Datum

def null : Datum := scalar ⟨"null", .null⟩

def truth (value : Bool) : Datum := scalar ⟨if value then "true" else "false", .truth value⟩

def text (value : String) : Datum := scalar (.ofText value)

def natural (value : Nat) : Datum := scalar (.ofNat value)

def record (fields : List (String × Datum)) : Datum :=
  table (fields.map fun (name, value) => (.ofText name, value))

def orNull : Option Datum → Datum
  | some value => value
  | none => null

def field (name value : Datum) : List (Scalar × Datum) :=
  match name with
  | scalar name => [(name, value)]
  | _ => [(⟨"", .nameless⟩, name), (⟨"", .nameless⟩, value)]

def isNull : Datum → Bool
  | scalar ⟨_, .null⟩ => true
  | _ => false

mutual

/-- Every scalar of the document, the field names included, passes the test. -/
def allScalars (test : Scalar → Bool) : Datum → Bool
  | scalar value => test value
  | list items => allScalarsOfItems test items
  | table fields => allScalarsOfFields test fields

def allScalarsOfItems (test : Scalar → Bool) : List Datum → Bool
  | [] => true
  | item :: items => item.allScalars test && allScalarsOfItems test items

def allScalarsOfFields (test : Scalar → Bool) : List (Scalar × Datum) → Bool
  | [] => true
  | (name, value) :: fields =>
    test name && value.allScalars test && allScalarsOfFields test fields

end

mutual

/-- The document without its lists and tables below this many levels. -/
def cut (levels : Nat) : Datum → Datum
  | scalar value => scalar value
  | list items =>
    match levels with
    | 0 => scalar ⟨"", .void⟩
    | levels + 1 => list (cutItems levels items)
  | table fields =>
    match levels with
    | 0 => scalar ⟨"", .void⟩
    | levels + 1 => table (cutFields levels fields)

def cutItems (levels : Nat) : List Datum → List Datum
  | [] => []
  | item :: items => item.cut levels :: cutItems levels items

def cutFields (levels : Nat) : List (Scalar × Datum) → List (Scalar × Datum)
  | [] => []
  | (name, value) :: fields => (name, value.cut levels) :: cutFields levels fields

end

end Datum

/-! # The order of entries

What is known by an id is kept in maps without an order of their own.  Their entries are written in
some order or other, those of each map in one of its own, and the next time perhaps in another one.
-/

/-- The order in which the fields of a table come, given the fields in ascending order. -/
structure FieldOrder where
  arrange : List (Scalar × Datum) → List (Scalar × Datum)
  perm : ∀ fields, (arrange fields).Perm fields

namespace FieldOrder

def ascending : FieldOrder := ⟨id, fun _ => .refl _⟩

/-- The table of entries under their ids. -/
def table {α κ : Type} (order : FieldOrder) (index : κ → Nat) (encode : κ → α → Datum)
    (entries : List (κ × α)) : Datum :=
  .table (order.arrange (entries.map fun (key, content) =>
    (.ofNat (index key), encode key content)))

end FieldOrder

end FlowLink
