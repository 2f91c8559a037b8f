import FlowLink.Document.Json.Token
import FlowLink.Document.Json.Reader
import Mathlib.Data.Option.Basic
import Mathlib.Data.List.TakeWhile

namespace FlowLink.Json

/-! # Numerals

The numerals that are written are decimal and have no leading zeros.  They are read as words and as
field names, and mean the number again if 64 bits hold it.
-/

def numeral (value : Nat) : List Char := Nat.toDigits 10 value

theorem toList_toString (value : Nat) : (toString value).toList = numeral value := Nat.toList_repr

theorem ofList_numeral (value : Nat) : String.ofList (numeral value) = toString value :=
  Nat.toString_eq_ofList_toDigits.symm

theorem numeral_isDigit {value : Nat} {char : Char} (member : char ∈ numeral value) :
    char.isDigit = true :=
  Nat.isDigit_of_mem_toDigits (by decide) (by decide) member

theorem digitsValue_numeral (value : Nat) : digitsValue (numeral value) = value :=
  Nat.ofDigitChars_ten_toDigits

theorem numeral_of_small {value : Nat} (small : value < 10) :
    numeral value = [Nat.digitChar value] := Nat.toDigits_of_lt_base small

theorem numeral_head_ne_zero {value : Nat} (positive : 0 < value) :
    (numeral value).head? ≠ some '0' := by
  induction value using Nat.strongRecOn with
  | ind value ih =>
      rcases Nat.lt_or_ge value 10 with small | large
      · rw [numeral_of_small small, List.head?_cons, ne_eq, Option.some.injEq]
        intro zero
        have digit := Nat.toNat_digitChar_of_lt_ten small
        rw [zero] at digit
        simp at digit
        omega
      · have shorter := ih (value / 10) (by omega) (by omega)
        have split : numeral value = numeral (value / 10) ++ [Nat.digitChar (value % 10)] :=
          Nat.toDigits_of_base_le (by decide) large
        cases leading : numeral (value / 10) with
        | nil => exact absurd leading Nat.toDigits_ne_nil
        | cons first others =>
            rw [leading] at shorter split
            rw [split]
            exact shorter

theorem numeral_leads (value : Nat) :
    (numeral value).head? ≠ some '0' ∨ (numeral value).length = 1 := by
  rcases Nat.eq_zero_or_pos value with rfl | positive
  · right
    rw [numeral_of_small (by decide)]
    rfl
  · exact Or.inl (numeral_head_ne_zero positive)

theorem decimal?_of_digits {written : List Char} (digits : ∀ char ∈ written, char.isDigit = true)
    (nonempty : written ≠ []) (leads : written.head? ≠ some '0' ∨ written.length = 1) :
    decimal? written = some ⟨false, written, [], none⟩ := by
  have whole : written.takeWhile Char.isDigit = written := List.takeWhile_eq_self_iff.mpr digits
  have rest : written.dropWhile Char.isDigit = [] := List.dropWhile_eq_nil_iff.mpr digits
  have unsigned : ∀ rest, written ≠ '-' :: rest := by
    intro rest same
    have digit := digits '-' (same ▸ List.mem_cons_self)
    contradiction
  have guarded : (!written.isEmpty && (written.head? ≠ some '0' || written.length = 1)) = true := by
    simpa [nonempty] using leads
  unfold decimal?
  split
  next negative unsigned' taken =>
    split at taken
    · exact absurd rfl (unsigned _)
    · cases taken
      simp only [whole, rest, guarded]
      rfl

theorem numberMeaning_numeral {value : Nat} (small : value < wordLimit) :
    numberMeaning ⟨false, numeral value, [], none⟩ = .natural value := by
  simp [numberMeaning, wholeMeaning?, digitsValue_numeral, small]

theorem decimal?_numeral (value : Nat) :
    decimal? (numeral value) = some ⟨false, numeral value, [], none⟩ :=
  decimal?_of_digits (fun _ => numeral_isDigit) Nat.toDigits_ne_nil (numeral_leads value)

theorem idName?_numeral {value : Nat} (small : value < wordLimit) :
    idName? (numeral value) = some value := by
  simp [idName?, decimal?_numeral, numberMeaning_numeral small]

theorem wholeMeaning?_lt {negative : Bool} {whole value : Nat}
    (means : wholeMeaning? negative whole = some (.natural value)) : value < wordLimit := by
  unfold wholeMeaning? at means
  split at means
  next =>
    split at means
    · cases means
    · contradiction
  next =>
    split at means
    next small =>
      cases means
      exact small
    next => contradiction

theorem numberMeaning_lt {number : Decimal} {value : Nat}
    (means : numberMeaning number = .natural value) : value < wordLimit := by
  unfold numberMeaning at means
  simp only at means
  split at means
  next =>
    cases whole : wholeMeaning? number.negative (digitsValue number.whole) with
    | some meaning =>
        rw [whole, Option.getD_some] at means
        exact wholeMeaning?_lt (means ▸ whole)
    | none =>
        rw [whole, Option.getD_none] at means
        split at means <;> contradiction
  next =>
    rw [Option.getD_none] at means
    split at means <;> contradiction

theorem idName?_lt {name : List Char} {value : Nat} (number : idName? name = some value) :
    value < wordLimit := by
  unfold idName? at number
  split at number
  next meant means =>
    obtain ⟨decimal, _, meaning⟩ := Option.map_eq_some_iff.mp means
    cases number
    exact numberMeaning_lt meaning
  next => contradiction

theorem word?_numeral {value : Nat} (small : value < wordLimit) :
    word? (numeral value) = some (.ofNat value) := by
  have noWord : ∀ text : String, text.toList.all Char.isDigit = false →
      String.ofList (numeral value) ≠ text := by
    intro text letters same
    have digits : (numeral value).all Char.isDigit = true :=
      List.all_eq_true.mpr fun _ => numeral_isDigit
    rw [← same, String.toList_ofList, digits] at letters
    contradiction
  unfold word?
  split
  next same => exact absurd same (noWord "null" (by decide))
  next same => exact absurd same (noWord "true" (by decide))
  next same => exact absurd same (noWord "false" (by decide))
  next =>
    rw [decimal?_numeral, Option.map_some, numberMeaning_numeral small, ofList_numeral]
    rfl

end FlowLink.Json
