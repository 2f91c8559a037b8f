import FlowLink.Proofs.Document.Yaml.Quoting

namespace FlowLink.Yaml

open Json (isPlain)

/-! # Strings that YAML reads as JSON wrote them

YAML drops blanks beside the line breaks that it sees in a string, reads a next-line character as
another one, and does not read a string at all where a line of it begins with a mark.  All other
strings come back, and these do not: with something dropped, what comes back is too short.
-/

/-- Of two characters in a row, one is a blank and the other one a line break beside it. -/
def dropsBlank (first second : Char) : Bool :=
  (first = ' ' && endsLine second) || (endsLine first && second = ' ')

/-- The string has no next-line character, no blank beside a line break, and no line that begins
with a mark. -/
def isKept : List Char → Bool
  | [] => true
  | char :: rest =>
    char ≠ '\u0085' && !rest.head?.any (dropsBlank char) && !(endsLine char && beginsMark rest) &&
      isKept rest

/-- What the string may be read as. -/
def HeardText (text heard : String) : Prop :=
  ∃ (start : Start) (scalar : OpenScalar),
    OpenScalar.hearAll { start } false text.toList = some scalar ∧ scalar.settle.text = heard

variable {scalar last : OpenScalar} {start : Start} {char : Char} {chars reversed : List Char}
  {startsLine : Bool}

/-! ## Strings that come back -/

/-- The scalar spells the characters, of which the last one comes first. -/
inductive OpenScalar.Spells (start : Start) : OpenScalar → List Char → Prop
  | blanks {blanks reversed : List Char} (all : ∀ char ∈ blanks, char = ' ') :
      Spells start ⟨start, reversed, .blanks blanks⟩ (blanks ++ reversed)
  | breaks {first : Char} {others reversed : List Char} (kept : first ≠ '\n')
      (all : ∀ char ∈ others ++ [first], endsLine char = true) :
      Spells start ⟨start, reversed, .breaks (some first) others⟩ (others ++ [first] ++ reversed)

namespace OpenScalar.Spells

theorem unpaused (start : Start) (reversed : List Char) :
    Spells start ⟨start, reversed, .blanks []⟩ reversed :=
  @blanks start [] reversed nofun

theorem start_eq (spells : scalar.Spells start reversed) : scalar.start = start := by
  cases spells <;> rfl

theorem settle_reversed (spells : scalar.Spells start reversed) :
    scalar.settle.reversed = reversed := by
  cases spells with
  | blanks => rfl
  | breaks kept => simp [OpenScalar.settle, Pause.reversed, kept]

theorem settle_text (spells : scalar.Spells start reversed) :
    scalar.settle.text = String.ofList reversed.reverse := by
  rw [OpenScalar.text, spells.settle_reversed]

theorem push (spells : scalar.Spells start reversed) (char : Char) :
    (scalar.push char).Spells start (char :: reversed) := by
  have pushed : scalar.push char = ⟨start, char :: reversed, .blanks []⟩ := by
    have settled := spells.settle_reversed
    have started := spells.start_eq
    simp only [OpenScalar.push, settled]
    simp [OpenScalar.settle, started, Pause.none]
  rw [pushed]
  exact unpaused start _

theorem addBlank (spells : scalar.Spells start reversed)
    (apart : reversed.head?.any endsLine = false) :
    (scalar.addBlank ' ').Spells start (' ' :: reversed) := by
  cases spells with
  | blanks all => exact blanks (List.forall_mem_cons.mpr ⟨rfl, all⟩)
  | @breaks first others _ _ all =>
      -- The last character was a line break, so no blank comes next.
      cases others with
      | nil => simp [all first (by simp)] at apart
      | cons other others => simp [all other (by simp)] at apart

theorem addBreak (spells : scalar.Spells start reversed) (ends : endsLine char = true)
    (kept : char ≠ '\n') (apart : reversed.head? ≠ some ' ') :
    (scalar.addBreak char).Spells start (char :: reversed) := by
  cases spells with
  | @blanks blanks reversed all =>
      cases blanks with
      | nil => exact @breaks start char [] reversed kept (by simpa using ends)
      | cons blank blanks => simp [all blank (by simp)] at apart
  | breaks kept all => exact breaks kept (List.forall_mem_cons.mpr ⟨ends, all⟩)

theorem hear (spells : scalar.Spells start reversed) (noNextLine : char ≠ '\u0085')
    (apart : reversed.head?.any (dropsBlank · char) = false) :
    (scalar.hear char).Spells start (char :: reversed) := by
  unfold OpenScalar.hear
  split
  next blank =>
    subst blank
    refine spells.addBlank ?_
    have noBreak : endsLine ' ' = false := rfl
    simpa [dropsBlank, noBreak] using apart
  next noBlank =>
    split
    next ends =>
      have same : unify char = char := if_neg noNextLine
      have kept : char ≠ '\n' := by
        rintro rfl
        contradiction
      rw [same]
      refine spells.addBreak ends kept fun blank => ?_
      simp [blank, dropsBlank, ends] at apart
    next => exact spells.push char

theorem hearAll (spells : scalar.Spells start reversed) (kept : isKept chars = true)
    (apart : ∀ char ∈ chars.head?, reversed.head?.any (dropsBlank · char) = false)
    (unmarked : (startsLine && beginsMark chars) = false) :
    ∃ last, scalar.hearAll startsLine chars = some last ∧
      last.Spells start (chars.reverse ++ reversed) := by
  induction chars generalizing scalar reversed startsLine with
  | nil => exact ⟨scalar, rfl, spells⟩
  | cons char chars ih =>
      simp only [isKept, Bool.and_eq_true, Bool.not_eq_true', decide_eq_true_eq] at kept
      obtain ⟨⟨⟨noNextLine, beside⟩, behind⟩, later⟩ := kept
      have heard := spells.hear noNextLine (apart char rfl)
      obtain ⟨last, all, spelled⟩ := ih heard later (fun next follows => by
        rw [Option.mem_def.mp follows] at beside
        simpa using beside) behind
      refine ⟨last, ?_, by simpa using spelled⟩
      rw [OpenScalar.hearAll, unmarked]
      exact all

end OpenScalar.Spells

theorem hearAll_of_isKept (start : Start) {text : String} (kept : isKept text.toList = true) :
    ∃ scalar, OpenScalar.hearAll { start } false text.toList = some scalar ∧
      scalar.start = start ∧ scalar.settle.text = text := by
  have empty : OpenScalar.Spells start { start } [] := .unpaused start []
  obtain ⟨scalar, heard, spells⟩ := empty.hearAll kept (fun _ _ => rfl) (Bool.false_and _)
  refine ⟨scalar, heard, spells.start_eq, ?_⟩
  rw [spells.settle_text, List.append_nil, List.reverse_reverse, String.ofList_toList]

/-! ## Strings that do not come back -/

namespace Pause

theorem length_addBlank (pause : Pause) (char : Char) :
    (pause.addBlank char).reversed.length =
      if pause.isBroken then pause.reversed.length else pause.reversed.length + 1 := by
  cases pause <;> rfl

theorem length_addBreak_le (pause : Pause) (char : Char) :
    (pause.addBreak char).reversed.length ≤ pause.reversed.length + 1 := by
  cases pause with
  | blanks blanks => by_cases feed : char = '\n' <;> simp [addBreak, reversed, feed]
  | breaks first others =>
      cases first with
      | none => simp [addBreak, reversed]
      | some first =>
          by_cases feed : first = '\n' <;> cases others <;> simp [addBreak, reversed, feed]

/-- A line break drops the blank before it, unless an earlier one has dropped it already. -/
theorem length_addBlank_addBreak_le (pause : Pause) (blank char : Char) :
    ((pause.addBlank blank).addBreak char).reversed.length ≤ pause.reversed.length + 1 := by
  cases pause with
  | blanks blanks => by_cases feed : char = '\n' <;> simp [addBlank, addBreak, reversed, feed]
  | breaks first others => exact length_addBreak_le _ char

theorem isBroken_addBreak (pause : Pause) (char : Char) :
    (pause.addBreak char).isBroken = true := by
  cases pause <;> rfl

theorem mem_addBlank {pause : Pause} {blank char : Char}
    (member : char ∈ (pause.addBlank blank).reversed) : char = blank ∨ char ∈ pause.reversed := by
  cases pause with
  | blanks blanks => exact List.mem_cons.mp member
  | breaks first others => exact Or.inr member

theorem mem_addBreak {pause : Pause} {broken char : Char}
    (member : char ∈ (pause.addBreak broken).reversed) :
    char = broken ∨ char = ' ' ∨ char ∈ pause.reversed := by
  cases pause with
  | blanks blanks => by_cases feed : broken = '\n' <;> simp_all [addBreak, reversed]
  | breaks first others =>
      cases first with
      | none =>
          simp only [addBreak, reversed, List.mem_cons] at member ⊢
          exact member.imp_right Or.inr
      | some first =>
          by_cases feed : first = '\n' <;> cases others <;> simp_all [addBreak, reversed]
          all_goals tauto

end Pause

namespace OpenScalar

/-- How many characters have been heard so far. -/
def heard (scalar : OpenScalar) : Nat := scalar.settle.reversed.length

theorem heard_eq (scalar : OpenScalar) :
    scalar.heard = scalar.pause.reversed.length + scalar.reversed.length := List.length_append

theorem hear_of_endsLine (ends : endsLine char = true) :
    scalar.hear char = scalar.addBreak (unify char) := by
  have noBlank : char ≠ ' ' := by
    rintro rfl
    contradiction
  rw [hear, if_neg noBlank, if_pos ends]

theorem heard_hear_le (scalar : OpenScalar) (char : Char) :
    (scalar.hear char).heard ≤ scalar.heard + 1 := by
  unfold hear
  split
  · have grows := Pause.length_addBlank scalar.pause ' '
    simp only [heard_eq, addBlank, grows]
    split <;> omega
  · split
    · have grows := Pause.length_addBreak_le scalar.pause (unify char)
      simp only [heard_eq, addBreak]
      omega
    · simp [heard, push, settle, Pause.none, Pause.reversed]

theorem heard_hear_hear_le {first second : Char} (drops : dropsBlank first second = true) :
    ((scalar.hear first).hear second).heard ≤ scalar.heard + 1 := by
  simp only [dropsBlank, Bool.or_eq_true, Bool.and_eq_true, decide_eq_true_eq] at drops
  rcases drops with ⟨rfl, ends⟩ | ⟨ends, rfl⟩
  · have grows := Pause.length_addBlank_addBreak_le scalar.pause ' ' (unify second)
    have heard : scalar.hear ' ' = scalar.addBlank ' ' := rfl
    rw [hear_of_endsLine ends, heard]
    simp only [heard_eq, addBlank, addBreak]
    omega
  · have same := Pause.length_addBlank (scalar.pause.addBreak (unify first)) ' '
    rw [Pause.isBroken_addBreak, if_pos rfl] at same
    have grows := Pause.length_addBreak_le scalar.pause (unify first)
    have heard : (scalar.hear first).hear ' ' = (scalar.hear first).addBlank ' ' := rfl
    rw [heard, hear_of_endsLine ends]
    simp only [heard_eq, addBlank, addBreak, same]
    omega

theorem hearAll_of_beginsMark (marked : beginsMark chars = true) :
    scalar.hearAll true chars = none := by
  cases chars with
  | nil => contradiction
  | cons char chars => rw [hearAll, marked]; rfl

theorem hearAll_cons (heard : scalar.hearAll startsLine (char :: chars) = some last) :
    (scalar.hear char).hearAll (endsLine char) chars = some last := by
  rw [hearAll] at heard
  split at heard
  · contradiction
  · exact heard

theorem heard_hearAll_le (heard : scalar.hearAll startsLine chars = some last) :
    last.heard ≤ scalar.heard + chars.length := by
  induction chars generalizing scalar startsLine with
  | nil => exact Nat.le_of_eq (congrArg OpenScalar.heard (Option.some.inj heard)).symm
  | cons char chars ih =>
      have first := heard_hear_le scalar char
      have others := ih (hearAll_cons heard)
      rw [List.length_cons]
      omega

theorem heard_hearAll_lt (heard : scalar.hearAll startsLine chars = some last)
    (noNextLine : '\u0085' ∉ chars) (lost : isKept chars = false) :
    last.heard < scalar.heard + chars.length := by
  induction chars generalizing scalar startsLine with
  | nil => contradiction
  | cons char chars ih =>
      rw [List.mem_cons, not_or] at noNextLine
      have later := hearAll_cons heard
      rw [List.length_cons]
      cases keptLater : isKept chars with
      | false =>
          have first := heard_hear_le scalar char
          have others := ih later noNextLine.2 keptLater
          omega
      | true =>
          cases marked : endsLine char && beginsMark chars with
          | true =>
              rw [Bool.and_eq_true] at marked
              rw [marked.1, hearAll_of_beginsMark marked.2] at later
              contradiction
          | false =>
              have drops : chars.head?.any (dropsBlank char) = true := by
                have other : char ≠ '\u0085' := fun same => noNextLine.1 same.symm
                simpa [isKept, keptLater, marked, other] using lost
              cases chars with
              | nil => contradiction
              | cons next chars =>
                  have both : ((scalar.hear char).hear next).heard ≤ scalar.heard + 1 :=
                    heard_hear_hear_le (by simpa using drops)
                  have others := heard_hearAll_le (hearAll_cons later)
                  rw [List.length_cons]
                  omega

theorem not_mem_hear (absent : '\u0085' ∉ scalar.settle.reversed) (char : Char) :
    '\u0085' ∉ (scalar.hear char).settle.reversed := by
  rw [settle, List.mem_append, not_or] at absent ⊢
  unfold hear
  split
  · refine ⟨fun member => ?_, absent.2⟩
    rcases Pause.mem_addBlank member with same | before
    · contradiction
    · exact absent.1 before
  · split
    next ends =>
      refine ⟨fun member => ?_, absent.2⟩
      rcases Pause.mem_addBreak member with same | same | before
      · unfold unify at same
        split at same
        · contradiction
        next other => exact other same.symm
      · contradiction
      · exact absent.1 before
    next unended =>
      refine ⟨nofun, ?_⟩
      have other : char ≠ '\u0085' := by
        rintro rfl
        exact unended rfl
      simp [push, settle, other.symm, absent]

theorem not_mem_hearAll (heard : scalar.hearAll startsLine chars = some last)
    (absent : '\u0085' ∉ scalar.settle.reversed) : '\u0085' ∉ last.settle.reversed := by
  induction chars generalizing scalar startsLine with
  | nil => exact Option.some.inj heard ▸ absent
  | cons char chars ih => exact ih (hearAll_cons heard) (not_mem_hear absent char)

end OpenScalar

/-- Exactly the strings that are kept may be read as they are. -/
theorem heardText_self_iff {text : String} :
    HeardText text text ↔ isKept text.toList = true := by
  constructor
  · rintro ⟨start, scalar, heard, same⟩
    have spelled : scalar.settle.reversed = text.toList.reverse := by
      rw [← same, OpenScalar.text, String.toList_ofList, List.reverse_reverse]
    by_contra lost
    rw [Bool.not_eq_true] at lost
    have noNextLine : '\u0085' ∉ text.toList := by
      rw [← List.mem_reverse, ← spelled]
      exact OpenScalar.not_mem_hearAll heard nofun
    have short := OpenScalar.heard_hearAll_lt heard noNextLine lost
    have empty : OpenScalar.heard { start } = 0 := rfl
    rw [OpenScalar.heard, spelled, List.length_reverse, empty] at short
    omega
  · intro kept
    obtain ⟨scalar, heard, _, same⟩ := hearAll_of_isKept ⟨0, 0, 0, false⟩ kept
    exact ⟨_, scalar, heard, same⟩

theorem HeardText.eq_of_isKept {text heard : String} (hears : HeardText text heard)
    (kept : isKept text.toList = true) : heard = text := by
  obtain ⟨start, scalar, heard, rfl⟩ := hears
  obtain ⟨same, found, _, spelled⟩ := hearAll_of_isKept start kept
  rw [heard] at found
  rw [Option.some.inj found, spelled]

/-! ## Legible strings -/

/-- YAML allows what JSON writes for the character. -/
def isSpellable (char : Char) : Bool := char.toNat < 0x20 || isAllowed char

/-- YAML reads what JSON writes for the text, and reads it as the text. -/
def isLegible (text : String) : Bool := text.toList.all isSpellable && isKept text.toList

theorem isSpellable_of_isPlain (plain : isPlain char = true) :
    isSpellable char = isAllowed char := by
  simp only [isPlain, Bool.and_eq_true, decide_eq_true_eq] at plain
  simp [isSpellable, Nat.not_lt.mpr plain.2]

theorem isSpellable_of_escaped (escaped : isPlain char = false) : isSpellable char = true := by
  simp only [isPlain, Bool.and_eq_false_iff, decide_eq_false_iff_not, not_not,
    Nat.not_le] at escaped
  rcases escaped with (rfl | rfl) | control
  · rfl
  · rfl
  · simp [isSpellable, control]

theorem isKept_of_unended (apart : ∀ char ∈ chars, char ≠ ' ' ∧ endsLine char = false) :
    isKept chars = true := by
  induction chars with
  | nil => rfl
  | cons char chars ih =>
      obtain ⟨noBlank, unended⟩ := apart char List.mem_cons_self
      have noNextLine : char ≠ '\u0085' := by
        rintro rfl
        contradiction
      have beside : chars.head?.any (dropsBlank char) = false := by
        cases chars <;> simp [dropsBlank, noBlank, unended]
      simp [isKept, noNextLine, beside, unended,
        ih fun char member => apart char (List.mem_cons_of_mem _ member)]

end FlowLink.Yaml
