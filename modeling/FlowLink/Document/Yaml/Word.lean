import FlowLink.Document.Datum
import FlowLink.Document.Decimal

/-! # Plain scalars of YAML

What a scalar without quotes means is told by its text alone.
-/

namespace FlowLink.Yaml

/-- Digits behind a zero, which are no number. -/
def isPadded : List Char → Bool
  | '0' :: digit :: digits => (digit :: digits).all Char.isDigit
  | _ => false

/-- The number that an unsigned word denotes, in base ten or with the mark of another base. -/
def magnitude? (written : List Char) : Option Nat :=
  match written with
  | '0' :: 'x' :: digits => digits? 16 digits
  | '0' :: 'o' :: digits => digits? 8 digits
  | '0' :: 'b' :: digits => digits? 2 digits
  | _ => if isPadded written then none else digits? 10 written

/-- What a whole number means, if 128 bits hold it. -/
def integerMeaning? (written : List Char) : Option Meaning :=
  let natural (digits : List Char) : Option Meaning :=
    ((magnitude? digits).filter (· < wordLimit * wordLimit)).map .natural
  match written with
  | '-' :: digits => ((magnitude? digits).filter (· ≤ wordLimit * signedLimit)).map .negative
  | '+' :: digits => natural digits
  | digits => natural digits

/-- Reads an unsigned decimal number, in which one side of the point may be empty. -/
def decimal? (written : List Char) : Option Decimal := do
  let whole := written.takeWhile Char.isDigit
  let (fraction, rest) := match written.dropWhile Char.isDigit with
    | '.' :: rest => (rest.takeWhile Char.isDigit, rest.dropWhile Char.isDigit)
    | rest => ([], rest)
  guard (!whole.isEmpty || !fraction.isEmpty)
  return ⟨false, whole, fraction, ← Decimal.exponent? rest⟩

/-- A number that a double holds, or a word for an infinity or for what is no number. -/
def isReal (written : List Char) : Bool :=
  let unsigned := match written with
    | '+' :: rest | '-' :: rest => rest
    | rest => rest
  let word := String.ofList unsigned
  word = ".inf" || word = ".Inf" || word = ".INF" ||
    String.ofList written ∈ [".nan", ".NaN", ".NAN"] ||
    (!isPadded unsigned && (decimal? unsigned).any fun number => !number.exceedsDouble)

def meaning (text : String) : Meaning :=
  if text ∈ ["", "~", "null", "Null", "NULL"] then .null
  else if text ∈ ["true", "True", "TRUE"] then .truth true
  else if text ∈ ["false", "False", "FALSE"] then .truth false
  else match integerMeaning? text.toList with
    | some meaning => meaning
    | none => if isReal text.toList then .real else .text

def plain (text : String) : Scalar := ⟨text, meaning text⟩

/-- What stands where nothing is written. -/
def absent : Datum := .scalar (plain "")

end FlowLink.Yaml
