import FlowLink.Document.Datum
import FlowLink.Document.Decimal

/-! # JSON numbers -/

namespace FlowLink.Json

/-- Reads a number, which has no leading zeros and digits on both sides of its point. -/
def decimal? (written : List Char) : Option Decimal := do
  let (negative, unsigned) := match written with
    | '-' :: unsigned => (true, unsigned)
    | unsigned => (false, unsigned)
  let whole := unsigned.takeWhile Char.isDigit
  guard (!whole.isEmpty && (whole.head? ≠ some '0' || whole.length = 1))
  match unsigned.dropWhile Char.isDigit with
  | '.' :: rest =>
    let fraction := rest.takeWhile Char.isDigit
    guard (!fraction.isEmpty)
    return ⟨negative, whole, fraction, ← Decimal.exponent? (rest.dropWhile Char.isDigit)⟩
  | rest => return ⟨negative, whole, [], ← Decimal.exponent? rest⟩

/-- Appends digits to a number as long as 64 bits hold it, and counts the digits left over. -/
def appendDigits (value : Nat) : List Char → Nat × Nat
  | [] => (value, 0)
  | digit :: digits =>
    let next := 10 * value + (digit.toNat - '0'.toNat)
    if next < wordLimit then appendDigits next digits else (value, (digit :: digits).length)

/-- The product of the leading digits and the power of ten, each as a double, is too large for one.
This may be so although the number itself is not. -/
def exceedsProduct (number : Decimal) : Bool :=
  let (whole, left) := appendDigits 0 number.whole
  let (value, dropped) := appendDigits whole number.fraction
  let shift : Int := left + dropped - number.fraction.length + number.exponent.getD 0
  value ≠ 0 && 0 ≤ shift && (308 < shift ||
    Decimal.doubleLimit ≤
      Decimal.nearestDouble value * Decimal.nearestDouble (Nat.pow 10 shift.toNat))

/-- What a whole number means that 64 bits hold.  They do not hold negative zero. -/
def wholeMeaning? (negative : Bool) (value : Nat) : Option Meaning :=
  if negative then
    if value ≠ 0 && value ≤ signedLimit then some (.negative value) else none
  else
    if value < wordLimit then some (.natural value) else none

/-- What a number means.  One that is no whole number of 64 bits is a real, if a double holds it. -/
def numberMeaning (number : Decimal) : Meaning :=
  let whole? :=
    if number.fraction.isEmpty && number.exponent.isNone then
      wholeMeaning? number.negative (digitsValue number.whole)
    else none
  whole?.getD (if exceedsProduct number then .void else .real)

end FlowLink.Json
