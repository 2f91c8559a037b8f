import FlowLink.Document.Yaml.Word
import FlowLink.Proofs.Document.Json.Number

namespace FlowLink.Yaml

open Json (numeral numeral_isDigit numeral_leads toList_toString digitsValue_numeral)

/-! # Numerals as YAML reads them

A numeral has no leading zero, so that it is not taken for mere text, and the number that it means
is the one that was written, as long as 64 bits hold it.
-/

theorem digit?_of_isDigit {char : Char} (digit : char.isDigit = true) :
    digit? 10 char = some (char.toNat - '0'.toNat) := by
  have small : char.toNat - 48 < 10 := by
    have most : char.toNat ≤ 57 := by
      simp only [Char.isDigit, Bool.and_eq_true, decide_eq_true_eq] at digit
      exact digit.2
    omega
  simp [digit?, digit, small]

theorem foldlM_digits {written : List Char} (digits : ∀ char ∈ written, char.isDigit = true)
    (start : Nat) :
    written.foldlM (fun value char => (digit? 10 char).map (10 * value + ·)) start =
      some (written.foldl (fun value digit => 10 * value + (digit.toNat - '0'.toNat)) start) := by
  induction written generalizing start with
  | nil => rfl
  | cons char rest ih =>
      rw [List.foldlM_cons, digit?_of_isDigit (digits char List.mem_cons_self), Option.map_some,
        Option.bind_eq_bind, Option.bind_some,
        ih fun char member => digits char (List.mem_cons_of_mem _ member)]
      rfl

theorem digits?_numeral (value : Nat) : digits? 10 (numeral value) = some value := by
  have nonempty : (numeral value).isEmpty = false := by
    simp [numeral, Nat.toDigits_ne_nil]
  rw [digits?, nonempty, if_neg Bool.false_ne_true,
    foldlM_digits fun _ member => numeral_isDigit member]
  exact congrArg some (digitsValue_numeral value)

theorem isPadded_numeral (value : Nat) : isPadded (numeral value) = false := by
  unfold isPadded
  split
  next digit digits same =>
    rcases numeral_leads value with leads | single
    · simp [same] at leads
    · simp [same] at single
  next => rfl

theorem not_mem_numeral (mark : Char) (noDigit : mark.isDigit = false) (value : Nat) :
    mark ∉ numeral value := by
  intro member
  rw [numeral_isDigit member] at noDigit
  contradiction

theorem magnitude?_numeral (value : Nat) : magnitude? (numeral value) = some value := by
  unfold magnitude?
  split
  next same => exact absurd (same ▸ by simp) (not_mem_numeral 'x' (by decide) value)
  next same => exact absurd (same ▸ by simp) (not_mem_numeral 'o' (by decide) value)
  next same => exact absurd (same ▸ by simp) (not_mem_numeral 'b' (by decide) value)
  next => rw [isPadded_numeral, if_neg Bool.false_ne_true, digits?_numeral]

theorem integerMeaning?_numeral {value : Nat} (small : value < wordLimit) :
    integerMeaning? (numeral value) = some (.natural value) := by
  have within : value < wordLimit * wordLimit :=
    Nat.lt_of_lt_of_le small (Nat.le_mul_of_pos_right _ (by decide))
  unfold integerMeaning?
  simp only
  split
  next same => exact absurd (same ▸ by simp) (not_mem_numeral '-' (by decide) value)
  next same => exact absurd (same ▸ by simp) (not_mem_numeral '+' (by decide) value)
  next => simp [magnitude?_numeral, within]

theorem toString_not_mem {words : List String} (value : Nat)
    (noNumerals : ∀ word ∈ words, word = "" ∨ word.toList.all Char.isDigit = false) :
    toString value ∉ words := by
  intro member
  rcases noNumerals _ member with empty | letters
  · have written := toList_toString value
    rw [empty] at written
    exact Nat.toDigits_ne_nil written.symm
  · have digits : (toString value).toList.all Char.isDigit = true := by
      rw [toList_toString]
      exact List.all_eq_true.mpr fun _ => numeral_isDigit
    rw [digits] at letters
    contradiction

theorem plain_toString {value : Nat} (small : value < wordLimit) :
    plain (toString value) = .ofNat value := by
  have means : meaning (toString value) = .natural value := by
    rw [meaning, if_neg (toString_not_mem value (by decide)),
      if_neg (toString_not_mem value (by decide)), if_neg (toString_not_mem value (by decide)),
      toList_toString, integerMeaning?_numeral small]
  rw [plain, means]
  rfl

end FlowLink.Yaml
