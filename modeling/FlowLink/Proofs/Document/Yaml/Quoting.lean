import FlowLink.Proofs.Document.Json.Scanning
import FlowLink.Proofs.Document.Yaml.Running

namespace FlowLink.Yaml

open Json (escape isPlain quote digit?_hexDigit)

/-! # Strings of JSON as YAML reads them

All escapes of JSON are escapes of YAML, for the same characters.  Other characters stand for
themselves in both, except those that YAML takes for line breaks: it drops the blanks beside them,
and looks behind them for the mark of a document's start or end.
-/

variable {frames : List Frame} {scalar : OpenScalar} {position : Position} {char : Char}
  {text : String} {chars rest : List Char}

/-- The letters that JSON writes behind a backslash for a character. -/
def escapeLetters : List Char := "\"\\bfnrt".toList

/-- What JSON writes for a character: a letter or the code behind a backslash, or itself. -/
theorem escape_cases (char : Char) :
    (isPlain char = false ∧
        ∃ letter ∈ escapeLetters, escape? letter = some char ∧ escape char = ['\\', letter]) ∨
      (isPlain char = false ∧ char.toNat < 0x20 ∧ escape char =
        ['\\', 'u', '0', '0', hexDigit (char.toNat / 16), hexDigit (char.toNat % 16)]) ∨
      (isPlain char = true ∧ escape char = [char]) := by
  unfold escape
  split
  case h_8 noQuote noBackslash _ _ _ _ _ =>
    split
    next control => exact Or.inr (Or.inl ⟨by simp [isPlain, control], control, rfl⟩)
    next printable =>
      have plain : isPlain char = true := by
        simp only [isPlain, Bool.and_eq_true, decide_eq_true_eq]
        exact ⟨⟨noQuote, noBackslash⟩, by omega⟩
      exact Or.inr (Or.inr ⟨plain, rfl⟩)
  -- The patterns before the last one are those of the characters with a letter.
  all_goals exact Or.inl ⟨rfl, _, by decide, rfl, rfl⟩

theorem escape_of_isPlain (plain : isPlain char = true) : escape char = [char] := by
  rcases escape_cases char with ⟨escaped, _⟩ | ⟨escaped, _⟩ | ⟨_, same⟩
  · rw [plain] at escaped
    contradiction
  · rw [plain] at escaped
    contradiction
  · exact same

theorem unify_hexDigit {value : Nat} (small : value < 16) :
    unify (hexDigit value) = hexDigit value := by
  have all : ∀ value < 16, unify (hexDigit value) = hexDigit value := by decide
  exact all value small

theorem run_backslash :
    run (.inside frames (.double scalar)) position ('\\' :: rest) =
      run (.inside frames (.escape scalar)) (position.advance '\\') rest := rfl

theorem run_letter {letter : Char} (listed : letter ∈ escapeLetters)
    (means : escape? letter = some char) :
    run (.inside frames (.escape scalar)) position (letter :: rest) =
      run (.inside frames (.double (scalar.push char))) (position.advance letter) rest := by
  have letters : escapeLetters.all (fun letter =>
      unify letter = letter ∧ isBreak letter = false ∧ codeLength? letter = none) = true := by
    decide
  obtain ⟨same, noBreak, noCode⟩ := of_decide_eq_true (List.all_eq_true.mp letters letter listed)
  have stepped : (Reader.inside frames (.escape scalar)).step
        (position.place (unify letter) (rest.map unify)) =
      some (.inside frames (.double (scalar.push char))) := by
    simp [Reader.step, Reader.inside, Position.place, same, noBreak, noCode, means]
  rw [run_step stepped, same]

theorem run_code {due value digit : Nat} (more : 1 < due) (read : digit? 16 char = some digit)
    (same : unify char = char) :
    run (.inside frames (.code scalar due value)) position (char :: rest) =
      run (.inside frames (.code scalar (due - 1) (16 * value + digit))) (position.advance char)
        rest := by
  have stepped : (Reader.inside frames (.code scalar due value)).step
        (position.place (unify char) (rest.map unify)) =
      some (.inside frames (.code scalar (due - 1) (16 * value + digit))) := by
    simp [Reader.step, Reader.inside, Position.place, same, read, more]
  rw [run_step stepped, same]

theorem run_lastCode {value digit : Nat} {meant : Char} (read : digit? 16 char = some digit)
    (same : unify char = char) (means : 16 * value + digit = meant.toNat) :
    run (.inside frames (.code scalar 1 value)) position (char :: rest) =
      run (.inside frames (.double (scalar.push meant))) (position.advance char) rest := by
  have stepped : (Reader.inside frames (.code scalar 1 value)).step
        (position.place (unify char) (rest.map unify)) =
      some (.inside frames (.double (scalar.push meant))) := by
    have valid : meant.toNat.isValidChar := meant.valid
    simp [Reader.step, Reader.inside, Position.place, same, read, means, valid]
  rw [run_step stepped, same]

/-- An escape is read as its character, wherever it stands. -/
theorem run_escape (escaped : isPlain char = false) :
    run (.inside frames (.double scalar)) position (escape char ++ rest) =
      run (.inside frames (.double (scalar.push char))) (position.along (escape char)) rest := by
  rcases escape_cases char with ⟨_, letter, listed, means, written⟩ | ⟨_, control, written⟩ |
    ⟨plain, _⟩
  · rw [written, List.cons_append, run_backslash, List.singleton_append, run_letter listed means]
    rfl
  · have high : char.toNat / 16 < 16 := by omega
    have low : char.toNat % 16 < 16 := by omega
    have zero : digit? 16 '0' = some 0 := by decide
    have begins : run (.inside frames (.escape scalar)) (position.advance '\\')
        ('u' :: ['0', '0', hexDigit (char.toNat / 16), hexDigit (char.toNat % 16)] ++ rest) =
          run (.inside frames (.code scalar 4 0)) ((position.advance '\\').advance 'u')
            ('0' :: '0' :: hexDigit (char.toNat / 16) :: hexDigit (char.toNat % 16) :: rest) :=
      rfl
    have means : 16 * (16 * (16 * (16 * 0 + 0) + 0) + char.toNat / 16) + char.toNat % 16 =
        char.toNat := by omega
    rw [written, List.cons_append, run_backslash, begins, run_code (by decide) zero rfl,
      run_code (by decide) zero rfl,
      run_code (by decide) (digit?_hexDigit high) (unify_hexDigit high),
      run_lastCode (digit?_hexDigit low) (unify_hexDigit low) means]
    rfl
  · rw [plain] at escaped
    contradiction

/-- All characters that escapes are made of. -/
def escapeMarks : List Char := escapeLetters ++ "u0123456789abcdef".toList

theorem hexDigit_mem_escapeMarks {value : Nat} (small : value < 16) :
    hexDigit value ∈ escapeMarks := by
  have all : ∀ value < 16, hexDigit value ∈ escapeMarks := by decide
  exact all value small

theorem forall_mem_escape {good : Char → Bool} (marks : escapeMarks.all good = true)
    (itself : isPlain char = true → good char = true) :
    ∀ written ∈ escape char, good written = true := by
  rw [List.all_eq_true] at marks
  rcases escape_cases char with ⟨_, letter, listed, _, written⟩ | ⟨_, control, written⟩ |
    ⟨plain, written⟩
  · have letters : escapeLetters ⊆ escapeMarks := List.subset_append_left _ _
    rw [written, List.forall_mem_cons, List.forall_mem_singleton]
    exact ⟨marks _ (by decide), marks letter (letters listed)⟩
  · have high := marks _ (hexDigit_mem_escapeMarks (show char.toNat / 16 < 16 by omega))
    have low := marks _ (hexDigit_mem_escapeMarks (show char.toNat % 16 < 16 by omega))
    have zero : good '0' = true := marks _ (by decide)
    simp only [written, List.forall_mem_cons]
    exact ⟨marks _ (by decide), marks _ (by decide), zero, zero, high, low, nofun⟩
  · rw [written, List.forall_mem_singleton]
    exact itself plain

theorem forall_mem_quote {good : Char → Bool} (quotes : good '"' = true)
    (escaped : ∀ char ∈ text.toList, ∀ written ∈ escape char, good written = true) :
    ∀ char ∈ quote text, good char = true := by
  intro char member
  simp only [quote, List.cons_append, List.mem_cons, List.mem_append, List.mem_flatMap,
    List.not_mem_nil, or_false] at member
  rcases member with rfl | ⟨original, inside, written⟩ | rfl
  · exact quotes
  · exact escaped original inside char written
  · exact quotes

/-! ## Line breaks -/

/-- YAML sees a line break where JSON writes the character. -/
def endsLine (char : Char) : Bool := char = '\u0085' || char = '\u2028' || char = '\u2029'

theorem isBreak_unify (plain : isPlain char = true) : isBreak (unify char) = endsLine char := by
  have noFeed : char ≠ '\n' := by
    rintro rfl
    contradiction
  unfold unify endsLine
  split
  next same =>
    subst same
    rfl
  next other => simp [isBreak, noFeed, other]

theorem isBlank_unify (plain : isPlain char = true) :
    isBlank (unify char) = decide (char = ' ') := by
  have noTab : char ≠ '\t' := by
    rintro rfl
    contradiction
  unfold unify
  split
  next same =>
    subst same
    rfl
  next => simp [isBlank, noTab]

theorem unify_of_unended (unended : endsLine char = false) : unify char = char := by
  apply if_neg
  rintro rfl
  contradiction

/-- Neither a blank nor what YAML takes for a line break is escaped. -/
theorem unended_of_escaped (escaped : isPlain char = false) :
    char ≠ ' ' ∧ endsLine char = false := by
  constructor
  · rintro rfl
    contradiction
  · by_contra ends
    simp only [endsLine, Bool.not_eq_false, Bool.or_eq_true, decide_eq_true_eq] at ends
    rcases ends with (rfl | rfl) | rfl <;> contradiction

theorem escape_unbroken (unended : endsLine char = false) :
    ∀ written ∈ escape char, isBreak written = false := by
  have unbroken : ∀ written ∈ escape char, (!isBreak written) = true := by
    refine forall_mem_escape (by decide) fun plain => ?_
    rw [← unify_of_unended unended, isBreak_unify plain, unended]
    rfl
  simpa using unbroken

theorem escape_unified (unended : endsLine char = false) :
    (escape char).map unify = escape char := by
  have same : ∀ written ∈ escape char, decide (unify written = written) = true :=
    forall_mem_escape (by decide) fun _ => decide_eq_true (unify_of_unended unended)
  calc (escape char).map unify = (escape char).map id :=
        List.map_congr_left fun written member => of_decide_eq_true (same written member)
    _ = escape char := List.map_id _

/-! ## Marks in strings -/

/-- What begins here looks like the mark of a document's start or end: three dashes or three dots,
and behind them a blank or a line break. -/
def beginsMark : List Char → Bool
  | first :: second :: third :: next :: _ =>
    (first = '-' || first = '.') && second = first && third = first &&
      (next = ' ' || endsLine next)
  | _ => false

/-- The rest of a string and what follows it, as YAML reads them. -/
def heardAs (chars rest : List Char) : List Char := (chars.flatMap escape ++ '"' :: rest).map unify

theorem heardAs_cons (plain : isPlain char = true) (chars rest : List Char) :
    heardAs (char :: chars) rest = unify char :: heardAs chars rest := by
  rw [heardAs, List.flatMap_cons, escape_of_isPlain plain]
  rfl

theorem heardAs_escaped (escaped : isPlain char = false) (chars rest : List Char) :
    ∃ more, heardAs (char :: chars) rest = '\\' :: more := by
  rcases escape_cases char with ⟨_, letter, _, _, written⟩ | ⟨_, _, written⟩ | ⟨plain, _⟩
  · exact ⟨_, by rw [heardAs, List.flatMap_cons, written]; rfl⟩
  · exact ⟨_, by rw [heardAs, List.flatMap_cons, written]; rfl⟩
  · rw [plain] at escaped
    contradiction

/-- Dashes and dots are read where they stand in the string, and nowhere else. -/
theorem heardAs_eq_cons_iff {mark : Char} {more : List Char} (marks : mark = '-' ∨ mark = '.') :
    heardAs chars rest = mark :: more ↔
      ∃ others, chars = mark :: others ∧ more = heardAs others rest := by
  have plainMark : isPlain mark = true ∧ unify mark = mark ∧ mark ≠ '"' ∧ mark ≠ '\\' ∧
      mark ≠ '\n' := by rcases marks with rfl | rfl <;> decide
  obtain ⟨plainMark, same, noQuote, noBackslash, noFeed⟩ := plainMark
  constructor
  · intro begins
    cases chars with
    | nil => exact absurd (List.cons.inj begins).1.symm noQuote
    | cons char chars =>
        cases plain : isPlain char with
        | false =>
            obtain ⟨_, written⟩ := heardAs_escaped plain chars rest
            exact absurd (List.cons.inj (begins.symm.trans written)).1 noBackslash
        | true =>
            rw [heardAs_cons plain] at begins
            obtain ⟨first, others⟩ := List.cons.inj begins
            have char_eq : char = mark := by
              unfold unify at first
              split at first
              · exact absurd first.symm noFeed
              · exact first
            exact ⟨chars, by rw [char_eq], others.symm⟩
  · rintro ⟨others, rfl, rfl⟩
    rw [heardAs_cons plainMark, same]

theorem isSeparated_head_heardAs (chars rest : List Char) :
    isSeparated (heardAs chars rest).head? =
      chars.head?.any fun next => next = ' ' || endsLine next := by
  cases chars with
  | nil => rfl
  | cons char chars =>
      cases plain : isPlain char with
      | false =>
          obtain ⟨_, written⟩ := heardAs_escaped plain chars rest
          obtain ⟨noBlank, unended⟩ := unended_of_escaped plain
          simp [written, noBlank, unended, isSeparated, isBlank, isBreak]
      | true =>
          simp [heardAs_cons plain, isSeparated, isBlank_unify plain, isBreak_unify plain]

theorem startsMarker_iff {text : List Char} :
    startsMarker text = true ↔ ∃ mark rest, (mark = '-' ∨ mark = '.') ∧
      text = mark :: mark :: mark :: rest ∧ isSeparated rest.head? = true := by
  constructor
  · intro starts
    unfold startsMarker at starts
    split at starts
    next first second third rest =>
      simp only [Bool.and_eq_true, Bool.or_eq_true, decide_eq_true_eq] at starts
      obtain ⟨⟨⟨marks, rfl⟩, rfl⟩, separated⟩ := starts
      exact ⟨_, rest, marks, rfl, separated⟩
    next => contradiction
  · rintro ⟨mark, rest, marks, rfl, separated⟩
    simp [startsMarker, marks, separated]

theorem beginsMark_iff :
    beginsMark chars = true ↔ ∃ mark others, (mark = '-' ∨ mark = '.') ∧
      chars = mark :: mark :: mark :: others ∧
      (others.head?.any fun next => next = ' ' || endsLine next) = true := by
  constructor
  · intro begins
    unfold beginsMark at begins
    split at begins
    next first second third next others =>
      simp only [Bool.and_eq_true, Bool.or_eq_true, decide_eq_true_eq] at begins
      obtain ⟨⟨⟨marks, rfl⟩, rfl⟩, ends⟩ := begins
      exact ⟨_, next :: others, marks, rfl, by simpa using ends⟩
    next => contradiction
  · rintro ⟨mark, others, marks, rfl, ends⟩
    cases others with
    | nil => contradiction
    | cons next others =>
        simp only [List.head?_cons, Option.any_some] at ends
        simp [beginsMark, marks, ends]

/-- What is escaped in a string, and the quote behind it, keeps a mark from being one. -/
theorem startsMarker_heardAs (chars rest : List Char) :
    startsMarker (heardAs chars rest) = beginsMark chars := by
  rw [Bool.eq_iff_iff, startsMarker_iff, beginsMark_iff]
  constructor
  · rintro ⟨mark, more, marks, read, separated⟩
    obtain ⟨_, rfl, second⟩ := (heardAs_eq_cons_iff marks).mp read
    obtain ⟨_, rfl, third⟩ := (heardAs_eq_cons_iff marks).mp second.symm
    obtain ⟨others, rfl, rfl⟩ := (heardAs_eq_cons_iff marks).mp third.symm
    exact ⟨mark, others, marks, rfl, by rwa [isSeparated_head_heardAs] at separated⟩
  · rintro ⟨mark, others, marks, rfl, separated⟩
    have step : ∀ others, heardAs (mark :: others) rest = mark :: heardAs others rest :=
      fun others => (heardAs_eq_cons_iff marks).mpr ⟨others, rfl, rfl⟩
    refine ⟨mark, heardAs others rest, marks, by rw [step, step, step], ?_⟩
    rw [isSeparated_head_heardAs, separated]

/-! ## Whole strings -/

namespace OpenScalar

/-- The scalar behind one more character of a string. -/
def hear (scalar : OpenScalar) (char : Char) : OpenScalar :=
  if char = ' ' then scalar.addBlank ' '
  else if endsLine char then scalar.addBreak (unify char)
  else scalar.push char

/-- The scalar behind the rest of a string, unless a line of it begins with a mark. -/
def hearAll (scalar : OpenScalar) (startsLine : Bool) : List Char → Option OpenScalar
  | [] => some scalar
  | char :: rest =>
    if startsLine && beginsMark (char :: rest) then none
    else (scalar.hear char).hearAll (endsLine char) rest

end OpenScalar

theorem along_append (first second : List Char) :
    position.along (first ++ second) = (position.along first).along second := List.foldl_append

theorem column_escape (position : Position) (escaped : isPlain char = false) :
    (position.along (escape char)).column ≠ 0 := by
  have unbroken := escape_unbroken (unended_of_escaped escaped).2
  rw [Position.along_of_unbroken position unbroken]
  rcases escape_cases char with ⟨_, letter, _, _, written⟩ | ⟨_, _, written⟩ | ⟨plain, _⟩
  · simp [written]
  · simp [written]
  · rw [plain] at escaped
    contradiction

/-- A character that is not escaped is looked at as it stands. -/
theorem step_plain (plain : isPlain char = true) (position : Position) (next : List Char) :
    (Reader.inside frames (.double scalar)).step (position.place (unify char) next) =
      if position.column = 0 ∧ startsMarker (unify char :: next) = true then none
      else some (.inside frames (.double (scalar.hear char))) := by
  have blank := isBlank_unify plain
  have broken := isBreak_unify plain
  simp only [isPlain, Bool.and_eq_true, decide_eq_true_eq] at plain
  have noQuote : unify char ≠ '"' := by
    unfold unify
    split <;> simp [plain]
  have noBackslash : unify char ≠ '\\' := by
    unfold unify
    split <;> simp [plain]
  have stepped : (Reader.inside frames (.double scalar)).step (position.place (unify char) next) =
      (Reader.inside frames (.double scalar)).stepQuoted .double scalar
        (position.place (unify char) next) := by
    simp [Reader.step, Reader.inside, Position.place, noQuote, noBackslash]
  rw [stepped]
  simp only [Reader.stepQuoted, Position.place, blank, broken, Bool.and_eq_true, decide_eq_true_eq]
  split
  · rfl
  · unfold OpenScalar.hear
    split
    next same =>
      subst same
      rfl
    next =>
      split
      · rfl
      next unended => rw [unify_of_unended (by simpa using unended)]; rfl

theorem run_hearAll (frames : List Frame) (scalar : OpenScalar) (position : Position)
    (chars rest : List Char) :
    run (.inside frames (.double scalar)) position (chars.flatMap escape ++ '"' :: rest) =
      (scalar.hearAll (position.column = 0) chars).bind fun heard =>
        run (.inside frames (.held heard.start (.text heard.settle.text)))
          (position.along ((chars.flatMap escape ++ ['"']).map unify)) rest := by
  induction chars generalizing scalar position with
  | nil =>
      have closed : ∀ place : Place, place.char = '"' →
          (Reader.inside frames (.double scalar)).step place =
            some (.inside frames (.held scalar.start (.text scalar.settle.text))) := by
        intro place closes
        simp [Reader.step, Reader.inside, closes, Reader.holdQuoted]
      rw [List.flatMap_nil, List.nil_append, run_step (closed _ rfl)]
      rfl
  | cons char chars ih =>
      have split : (char :: chars).flatMap escape ++ '"' :: rest =
          escape char ++ (chars.flatMap escape ++ '"' :: rest) := by simp
      have along : position.along (((char :: chars).flatMap escape ++ ['"']).map unify) =
          (position.along ((escape char).map unify)).along
            ((chars.flatMap escape ++ ['"']).map unify) := by
        rw [← along_append]
        simp
      rw [split, along, OpenScalar.hearAll]
      cases plain : isPlain char with
      | false =>
          obtain ⟨noBlank, unended⟩ := unended_of_escaped plain
          have unmarked : beginsMark (char :: chars) = false := by
            obtain ⟨_, written⟩ := heardAs_escaped plain chars rest
            rw [← startsMarker_heardAs _ rest, written]
            exact startsMarker_of_isSteady (by decide)
          have pushed : scalar.hear char = scalar.push char := by
            simp [OpenScalar.hear, noBlank, unended]
          rw [run_escape plain, ih, escape_unified unended, unmarked, pushed, unended]
          simp [column_escape position plain]
      | true =>
          have marked : startsMarker (unify char ::
              (chars.flatMap escape ++ '"' :: rest).map unify) = beginsMark (char :: chars) := by
            rw [← startsMarker_heardAs _ rest, heardAs_cons plain]
            rfl
          rw [escape_of_isPlain plain, List.singleton_append, run_cons, step_plain plain, marked]
          by_cases cut : position.column = 0 ∧ beginsMark (char :: chars) = true
          · simp [cut]
          · have column : decide ((position.advance (unify char)).column = 0) = endsLine char := by
              rw [← isBreak_unify plain]
              unfold Position.advance
              split <;> simp [*]
            have uncut : (decide (position.column = 0) && beginsMark (char :: chars)) = false := by
              simpa using cut
            rw [if_neg cut, Option.bind_some, ih, column, uncut]
            rfl

end FlowLink.Yaml
