import FlowLink.Document.Datum
import FlowLink.Document.Decimal

/-! # Bare values of TOML

Numbers, dates, times and truth values are written as bare words.
-/

namespace FlowLink.Toml

/-- The number that a row of digits denotes.  Underscores may stand between two digits. -/
def number? (base : Nat) (written : List Char) : Option Nat :=
  let rec go (value : Nat) (afterDigit : Bool) : List Char → Option Nat
    | [] => if afterDigit then some value else none
    | '_' :: rest => if afterDigit then go value false rest else none
    | char :: rest => (digit? base char).bind fun digit => go (base * value + digit) true rest
  go 0 false written

def splitSign : List Char → Option Bool × List Char
  | '+' :: rest => (some false, rest)
  | '-' :: rest => (some true, rest)
  | rest => (none, rest)

def plainNumber? (written : List Char) : Option Nat :=
  match written with
  | '0' :: _ :: _ => none
  | _ => number? 10 written

/-- A whole number that 64 bits hold. -/
def wholeMeaning? (negative : Bool) (value : Nat) : Option Meaning :=
  if negative then
    if value = 0 then some (.natural 0)
    else if value ≤ signedLimit then some (.negative value)
    else none
  else
    if value < signedLimit then some (.natural value) else none

def integer? (written : List Char) : Option Meaning :=
  match written with
  | '0' :: 'x' :: digits => (number? 16 digits).bind (wholeMeaning? false)
  | '0' :: 'o' :: digits => (number? 8 digits).bind (wholeMeaning? false)
  | '0' :: 'b' :: digits => (number? 2 digits).bind (wholeMeaning? false)
  | _ =>
    let (sign, digits) := splitSign written
    (plainNumber? digits).bind (wholeMeaning? (sign.getD false))

def isExponentMark (char : Char) : Bool := char = 'e' || char = 'E'

def isExponent (written : List Char) : Bool :=
  match written with
  | mark :: rest => isExponentMark mark && (number? 10 (splitSign rest).2).isSome
  | [] => false

/-- Reads an unsigned number with a fraction, an exponent or both. -/
def decimal? (unsigned : List Char) : Option Decimal := do
  let isWhole (char : Char) : Bool := char ≠ '.' && !isExponentMark char
  let isDigit (char : Char) : Bool := char ≠ '_'
  let whole := unsigned.takeWhile isWhole
  guard (plainNumber? whole).isSome
  match unsigned.dropWhile isWhole with
  | '.' :: rest =>
    let fraction := rest.takeWhile fun char => !isExponentMark char
    let exponent := rest.dropWhile fun char => !isExponentMark char
    guard ((number? 10 fraction).isSome && (exponent.isEmpty || isExponent exponent))
    return ⟨false, whole.filter isDigit, fraction.filter isDigit,
      ← Decimal.exponent? (exponent.filter isDigit)⟩
  | exponent =>
    guard (isExponent exponent)
    return ⟨false, whole.filter isDigit, [], ← Decimal.exponent? (exponent.filter isDigit)⟩

/-- A number that is not whole, or one of the words for what is no number.  A positive one must not
exceed every double. -/
def isFloat (written : List Char) : Bool :=
  let (sign, unsigned) := splitSign written
  unsigned = ['i', 'n', 'f'] || unsigned = ['n', 'a', 'n'] ||
    (decimal? unsigned).any fun number => sign = some true || !number.exceedsDouble

/-- A row of exactly this many digits, as a number. -/
def fixed? (count : Nat) (written : List Char) : Option Nat :=
  if written.length = count && written.all Char.isDigit then number? 10 written else none

def within (low high : Nat) (value : Option Nat) : Bool :=
  value.any fun value => low ≤ value && value ≤ high

def isLeapYear (year : Nat) : Bool := year % 4 = 0 && (year % 100 ≠ 0 || year % 400 = 0)

def daysIn (year month : Nat) : Nat :=
  if month = 2 then
    if isLeapYear year then 29 else 28
  else if month = 4 || month = 6 || month = 9 || month = 11 then 30
  else 31

def isDate (written : List Char) : Bool :=
  match written.splitOnP (· = '-') with
  | [year, month, day] =>
    match fixed? 4 year, fixed? 2 month with
    | some year, some month =>
      1 ≤ month && month ≤ 12 && within 1 (daysIn year month) (fixed? 2 day)
    | _, _ => false
  | _ => false

def isSecond (written : List Char) : Bool :=
  let whole := written.takeWhile (· ≠ '.')
  within 0 60 (fixed? 2 whole) && match written.dropWhile (· ≠ '.') with
    | [] => true
    | _ :: fraction => !fraction.isEmpty && fraction.all Char.isDigit

def isTime (written : List Char) : Bool :=
  match written.splitOnP (· = ':') with
  | [hour, minute, second] =>
    within 0 23 (fixed? 2 hour) && within 0 59 (fixed? 2 minute) && isSecond second
  | _ => false

def isOffset (written : List Char) : Bool :=
  match written with
  | [zulu] => zulu = 'Z' || zulu = 'z'
  | sign :: rest =>
    (sign = '+' || sign = '-') && match rest.splitOnP (· = ':') with
      | [hour, minute] => within 0 23 (fixed? 2 hour) && within 0 59 (fixed? 2 minute)
      | _ => false
  | [] => false

/-- A time of day, with an offset or without one. -/
def isClock (written : List Char) : Bool :=
  let startsOffset (char : Char) : Bool := char = 'Z' || char = 'z' || char = '+' || char = '-'
  let offset := written.dropWhile fun char => !startsOffset char
  isTime (written.takeWhile fun char => !startsOffset char) && (offset.isEmpty || isOffset offset)

/-- A date, a time, or both with a letter or a blank between them. -/
def isMoment (written : List Char) : Bool :=
  let startsClock (char : Char) : Bool := char = 'T' || char = 't' || char = ' '
  match written.dropWhile fun char => !startsClock char with
  | [] => isDate written || isTime written
  | _ :: clock => isDate (written.takeWhile fun char => !startsClock char) && isClock clock

/-- The value of a bare word.  A date or a time is a table with its text in one field. -/
def wordValue? (written : List Char) : Option Datum :=
  let text := String.ofList written
  if written = "true".toList then some (.truth true)
  else if written = "false".toList then some (.truth false)
  else if isFloat written then some (.scalar ⟨text, .real⟩)
  else if isMoment written then some (.record [("datetime", .text text)])
  else (integer? written).map fun meaning => .scalar ⟨text, meaning⟩

end FlowLink.Toml
