import FlowLink.Document.Datum

/-! # Tables under construction

The tables of a TOML document are put together from headers and dotted keys that may come in any
order.  How a table came about decides what may still be added to it.
-/

namespace FlowLink.Toml

inductive Origin where
  /-- By a header of its own. -/
  | header
  /-- By the header of a table inside it. -/
  | implied
  /-- By a dotted key. -/
  | dotted
deriving DecidableEq

inductive Entry where
  | value (value : Datum)
  | table (origin : Origin) (fields : List (String × Entry))
  /-- An array of tables, last one first. -/
  | tables (reversed : List (List (String × Entry)))
deriving Inhabited

abbrev Fields := List (String × Entry)

namespace Fields

def find? (fields : Fields) (name : String) : Option Entry := fields.lookup name

/-- Replaces the entry of a name, or adds it at the end. -/
def put (fields : Fields) (name : String) (entry : Entry) : Fields :=
  if (find? fields name).isSome then
    fields.map fun field => if field.1 = name then (name, entry) else field
  else
    fields ++ [(name, entry)]

/-- Adds the value of a key.  The tables that a dotted key leads through must not have a header of
their own, or be the last of an array of tables.  The table that takes the value must have come
about by dotted keys alone, and the last name must be new. -/
def insert (fields : Fields) (value : Datum) : List String → Option Fields
  | [] => none
  | [name] =>
    match find? fields name with
    | none => some (put fields name (.value value))
    | some _ => none
  | name :: rest =>
    match find? fields name with
    | none => (insert [] value rest).map fun inner => put fields name (.table .dotted inner)
    | some (.table origin inner) =>
      if origin = .dotted || (origin = .implied && 1 < rest.length) then
        (insert inner value rest).map fun inner => put fields name (.table origin inner)
      else none
    | some (.tables (current :: earlier)) =>
      if 1 < rest.length then
        (insert current value rest).map fun current =>
          put fields name (.tables (current :: earlier))
      else none
    | some _ => none

/-- Changes the table that a header leads to through `name`: the innermost one of an array of
tables, or a table that is implied if it does not exist yet. -/
def descend (fields : Fields) (name : String) (change : Fields → Option Fields) : Option Fields :=
  match find? fields name with
  | none => (change []).map fun inner => put fields name (.table .implied inner)
  | some (.table origin inner) =>
    (change inner).map fun inner => put fields name (.table origin inner)
  | some (.tables (current :: earlier)) =>
    (change current).map fun current => put fields name (.tables (current :: earlier))
  | some _ => none

/-- Opens the table of a header, which must not have one yet. -/
def openTable (fields : Fields) : List String → Option Fields
  | [] => none
  | [name] =>
    match find? fields name with
    | none => some (put fields name (.table .header []))
    | some (.table .implied inner) => some (put fields name (.table .header inner))
    | some _ => none
  | name :: rest => descend fields name fun inner => openTable inner rest

/-- Opens another table of an array of tables. -/
def openElement (fields : Fields) : List String → Option Fields
  | [] => none
  | [name] =>
    match find? fields name with
    | none => some (put fields name (.tables [[]]))
    | some (.tables earlier) => some (put fields name (.tables ([] :: earlier)))
    | some _ => none
  | name :: rest => descend fields name fun inner => openElement inner rest

/-- Adds the value of a key to the table of a header. -/
def insertUnder (fields : Fields) (value : Datum) (key : List String) :
    List String → Option Fields
  | [] => insert fields value key
  | name :: rest => descend fields name fun inner => insertUnder inner value key rest

end Fields

mutual

def Entry.datum : Entry → Datum
  | .value value => value
  | .table _ fields => .table (fieldsDatum fields)
  | .tables reversed => .list (tablesDatum reversed).reverse

def fieldsDatum : List (String × Entry) → List (Scalar × Datum)
  | [] => []
  | (name, entry) :: fields => (.ofText name, entry.datum) :: fieldsDatum fields

def tablesDatum : List (List (String × Entry)) → List Datum
  | [] => []
  | fields :: rest => .table (fieldsDatum fields) :: tablesDatum rest

end

end FlowLink.Toml
