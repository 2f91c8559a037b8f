/-! # Decimal numbers

The written form of a number, taken apart into digits, and the limits of the numbers that a machine
word or a double can hold.
-/

namespace FlowLink

/-- The first natural number that 64 bits do not hold. -/
def wordLimit : Nat := 18446744073709551616

/-- The greatest magnitude of a negative number that 64 bits hold, which is the first natural number
that they do not hold beside negative ones. -/
def signedLimit : Nat := 9223372036854775808

def digit? (base : Nat) (char : Char) : Option Nat :=
  let value? :=
    if char.isDigit then some (char.toNat - '0'.toNat)
    else if 'a' ≤ char && char ≤ 'f' then some (char.toNat - 'a'.toNat + 10)
    else if 'A' ≤ char && char ≤ 'F' then some (char.toNat - 'A'.toNat + 10)
    else none
  value?.filter fun value => value < base

def hexDigit (value : Nat) : Char :=
  if value < 10 then Char.ofNat ('0'.toNat + value) else Char.ofNat ('a'.toNat + (value - 10))

/-- The number that a row of digits denotes, of which there is at least one. -/
def digits? (base : Nat) (written : List Char) : Option Nat :=
  if written.isEmpty then none
  else written.foldlM (fun value char => (digit? base char).map (base * value + ·)) 0

def digitsValue (digits : List Char) : Nat :=
  digits.foldl (fun value digit => 10 * value + (digit.toNat - '0'.toNat)) 0

structure Decimal where
  negative : Bool
  whole : List Char
  fraction : List Char
  exponent : Option Int

namespace Decimal

def exponent? : List Char → Option (Option Int)
  | [] => some none
  | mark :: rest =>
    if mark = 'e' || mark = 'E' then
      let (sign, digits) := match rest with
        | '-' :: digits => (-1, digits)
        | '+' :: digits => (1, digits)
        | digits => (1, digits)
      if !digits.isEmpty && digits.all Char.isDigit then
        some (some (sign * (digitsValue digits : Int)))
      else
        none
    else
      none

/-- The least magnitude that no double holds, even rounded. -/
def doubleLimit : Nat := Nat.pow 2 1024 - Nat.pow 2 970

/-- The nearest number to a natural number that a double holds, or would hold if it were not too
large: its first 53 binary digits, rounded, with an even last one if two numbers are as near. -/
def nearestDouble (value : Nat) : Nat :=
  let unit := Nat.pow 2 (value.log2 - 52)
  let kept := value / unit
  let rest := 2 * (value % unit)
  (if unit < rest || (rest = unit && kept % 2 = 1) then kept + 1 else kept) * unit

/-- The magnitude of a number is too large for a double.  Numbers far on either side of the limit
are told by their count of digits alone. -/
def exceedsDouble (number : Decimal) : Bool :=
  let value := digitsValue (number.whole ++ number.fraction)
  let shift : Int := number.exponent.getD 0 - number.fraction.length
  let digits : Int := (toString value).length + shift
  value ≠ 0 && (digits > 310 || (digits > 308 &&
    doubleLimit * Nat.pow 10 (-shift).toNat ≤ value * Nat.pow 10 shift.toNat))

end Decimal

end FlowLink
