import FlowLink.Document.Json.Printer
import FlowLink.Document.Json.Reader
import Mathlib.Data.List.Induction

namespace FlowLink.Json

/-! # Scanning what is written

`scan` goes on with a text from a place where no token is begun.  What is written of a value scans
to its tokens, whatever was read before it and whatever follows, as long as that does not prolong a
word.
-/

/-- The tokens of a text that goes on after some tokens, last one first. -/
def scan (done : List Token) (text : List Char) : Option (List Token) :=
  (text.foldlM Scanner.step ⟨done, .none⟩).bind Scanner.finish

/-- The text does not go on with a word. -/
def Delimited (text : List Char) : Prop := ∀ char ∈ text.head?, Scanner.endsWord char = true

variable {done : List Token} {rest : List Char} {char : Char}

theorem delimited_nil : Delimited [] := by
  intro char member
  simp at member

theorem delimited_cons (ends : Scanner.endsWord char = true) : Delimited (char :: rest) := by
  intro other member
  simp only [List.head?_cons, Option.mem_some_iff] at member
  exact member ▸ ends

theorem scan_begin :
    scan done (char :: rest) =
      (rest.foldlM Scanner.step (Scanner.begin done char)).bind Scanner.finish := rfl

theorem scan_blank (blank : isBlank char = true) : scan done (char :: rest) = scan done rest := by
  rw [scan_begin, Scanner.begin, if_pos blank]
  rfl

theorem scan_punctuation (char : Char) {token : Token} (means : punctuation? char = some token) :
    scan done (char :: rest) = scan (token :: done) rest := by
  have notBlank : isBlank char = false ∧ char ≠ '"' := by
    unfold punctuation? at means
    split at means <;> first | decide | contradiction
  rw [scan_begin, Scanner.begin, notBlank.1, if_neg Bool.false_ne_true, if_neg notBlank.2, means]
  rfl

theorem scan_blanks {blanks : List Char} (blank : ∀ char ∈ blanks, isBlank char = true) :
    scan done (blanks ++ rest) = scan done rest := by
  induction blanks with
  | nil => rfl
  | cons first blanks ih =>
      rw [List.cons_append, scan_blank (blank first List.mem_cons_self)]
      exact ih fun char member => blank char (List.mem_cons_of_mem _ member)

theorem scan_newline (depth : Nat) : scan done (newline depth ++ rest) = scan done rest := by
  apply scan_blanks
  intro char member
  rcases List.mem_cons.mp member with rfl | member
  · decide
  · rw [List.eq_of_mem_replicate member]
    decide

/-! ## Words -/

theorem foldlM_word {written reversed : List Char}
    (within : ∀ char ∈ written, Scanner.endsWord char = false) :
    written.foldlM Scanner.step ⟨done, .word reversed⟩ =
      some ⟨done, .word (written.reverse ++ reversed)⟩ := by
  induction written generalizing reversed with
  | nil => rfl
  | cons first written ih =>
      have goesOn : Scanner.step ⟨done, .word reversed⟩ first =
          some ⟨done, .word (first :: reversed)⟩ := by
        simp [Scanner.step, within first List.mem_cons_self]
      rw [List.foldlM_cons, goesOn, Option.bind_eq_bind, Option.bind_some,
        ih fun char member => within char (List.mem_cons_of_mem _ member)]
      simp

theorem scan_word {written : List Char} {value : Scalar} (means : word? written = some value)
    (nonempty : written ≠ []) (within : ∀ char ∈ written, Scanner.endsWord char = false)
    (delimited : Delimited rest) :
    scan done (written ++ rest) = scan (.word value :: done) rest := by
  cases written with
  | nil => contradiction
  | cons first written =>
      have begins : Scanner.begin done first = ⟨done, .word [first]⟩ := by
        have ends := within first List.mem_cons_self
        simp only [Scanner.endsWord, Bool.or_eq_false_iff, decide_eq_false_iff_not,
          Option.isSome_eq_false_iff, Option.isNone_iff_eq_none] at ends
        simp [Scanner.begin, ends]
      have inner : ∀ char ∈ written, Scanner.endsWord char = false :=
        fun char member => within char (List.mem_cons_of_mem _ member)
      rw [List.cons_append, scan_begin, begins, List.foldlM_append, foldlM_word inner,
        Option.bind_eq_bind, Option.bind_some]
      cases rest with
      | nil => simp [scan, Scanner.finish, means]
      | cons next rest =>
          have ends : Scanner.endsWord next = true := delimited next (by simp)
          rw [scan_begin, List.foldlM_cons]
          simp [Scanner.step, ends, means]

/-! ## Strings -/

/-- The character stands for itself in a string. -/
def isPlain (char : Char) : Bool := char ≠ '"' && char ≠ '\\' && 0x20 ≤ char.toNat

def spelling (text : List Char) : Spelling := if text.all isPlain then .verbatim else .escaped

theorem digit?_hexDigit {value : Nat} (small : value < 16) :
    digit? 16 (hexDigit value) = some value := by
  have all : ∀ value < 16, digit? 16 (hexDigit value) = some value := by decide
  exact all value small

def OpenString.take (text : OpenString) (char : Char) : OpenString :=
  (if isPlain char then text else text.noteEscape).push char

theorem foldlM_escape (text : OpenString) (char : Char) :
    (escape char).foldlM Scanner.step ⟨done, .string text⟩ =
      some ⟨done, .string (text.take char)⟩ := by
  unfold escape
  split
  next => rfl
  next => rfl
  next => rfl
  next => rfl
  next => rfl
  next => rfl
  next => rfl
  next notQuote notBackslash _ _ _ _ _ =>
    split
    next control =>
      have high := digit?_hexDigit (show char.toNat / 16 < 16 by omega)
      have low := digit?_hexDigit (show char.toNat % 16 < 16 by omega)
      have zero : digit? 16 '0' = some 0 := by decide
      have whole : 16 * (char.toNat / 16) + char.toNat % 16 = char.toNat := by omega
      have escaped : isPlain char = false := by simp [isPlain, control]
      have noSurrogate : ¬ 0xD800 ≤ char.toNat ∧ ¬ 0xDC00 ≤ char.toNat := by omega
      simp [Scanner.step, high, low, zero, whole, escaped, OpenString.take, OpenString.pushUnit,
        noSurrogate]
    next printable =>
      have noQuote : char ≠ '"' := notQuote
      have noBackslash : char ≠ '\\' := notBackslash
      have plain : isPlain char = true := by simpa [isPlain, noQuote, noBackslash] using printable
      simp [Scanner.step, noQuote, noBackslash, printable, OpenString.take, plain]

theorem foldlM_escapes (text : OpenString) (chars : List Char) :
    (chars.flatMap escape).foldlM Scanner.step ⟨done, .string text⟩ =
      some ⟨done, .string (chars.foldl OpenString.take text)⟩ := by
  induction chars generalizing text with
  | nil => rfl
  | cons first chars ih =>
      rw [List.flatMap_cons, List.foldlM_append, foldlM_escape]
      exact ih (text.take first)

theorem foldl_take (chars : List Char) :
    chars.foldl OpenString.take {} = ⟨chars.reverse, spelling chars, none⟩ := by
  induction chars using List.reverseRecOn with
  | nil => rfl
  | append_singleton chars char ih =>
      rw [List.foldl_append, ih]
      cases plain : isPlain char <;> cases before : chars.all isPlain <;>
        simp [OpenString.take, OpenString.push, OpenString.settle, OpenString.noteEscape, spelling,
          plain, before]

theorem scan_quote (text : String) :
    scan done (quote text ++ rest) = scan (.quoted text (spelling text.toList) :: done) rest := by
  have closes : Scanner.step ⟨done, .string ⟨text.toList.reverse, spelling text.toList, none⟩⟩ '"' =
      some ⟨.quoted text (spelling text.toList) :: done, .none⟩ := by
    simp [Scanner.step, OpenString.token, OpenString.settle]
  have opens : Scanner.begin done '"' = ⟨done, .string {}⟩ := rfl
  simp only [quote, List.cons_append, List.append_assoc, List.nil_append]
  rw [scan_begin, opens, List.foldlM_append, foldlM_escapes, foldl_take, Option.bind_eq_bind,
    Option.bind_some, List.foldlM_cons, closes]
  rfl

end FlowLink.Json
