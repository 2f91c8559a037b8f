import FlowLink.Proofs.Document.Yaml.Spelling

namespace FlowLink.Yaml

open Json (escape quote newline)

/-! # Inside flow collections

Between two brackets a reader is either before a part of the collection or behind one, whose value
may not be taken yet: that of a quoted string is held for a colon, and a word is only over where
something else begins.  `Stands` covers all that a reader can be like behind a part.
-/

variable {frame taken : Frame} {outer : List Frame} {reader : Reader} {place : Place}
  {value : Datum} {certain : Prop}

theorem takeValue_inside {lexeme : Lexeme} {start : Start} {isBroken : Bool}
    (flow : frame.column? = none) (takes : frame.take? value = some taken) :
    (Reader.inside (frame :: outer) lexeme).takeValue start value isBroken =
      some { Reader.inside (taken :: outer) with mayBegin := isBroken } := by
  simp [Reader.takeValue, Reader.inside, Outline.add, Outline.encloses, flow, Outline.deliver,
    Outline.collapse, takes]

/-- Nothing but a part of a collection begins with the character. -/
def beginsPart (char : Char) : Bool :=
  char ≠ '\ufeff' && !isBreak char && char ≠ ' ' && char ≠ '\t' && char ≠ '#'

theorem begin_inside {mayBegin : Bool} (flow : frame.column? = none)
    (unmarked : place.marker = false) (begins : beginsPart place.char = true) :
    Reader.begin { Reader.inside (frame :: outer) with mayBegin } place =
      Reader.beginFlow { Reader.inside (frame :: outer) with mayBegin } place := by
  simp only [beginsPart, Bool.and_eq_true, decide_eq_true_eq, Bool.not_eq_true'] at begins
  simp [Reader.begin, Reader.inside, unmarked, begins, Outline.inFlow, flow]

theorem step_held {start : Start} (flow : frame.column? = none)
    (takes : frame.take? value = some taken) (noBlank : isBlank place.char = false)
    (noColon : place.char ≠ ':') :
    (Reader.inside (frame :: outer) (.held start value)).step place =
      Reader.begin (.inside (taken :: outer)) place := by
  have takenOver : (Reader.inside (frame :: outer) (.held start value)).takeValue start value
      false = some (.inside (taken :: outer)) := takeValue_inside flow takes
  unfold Reader.step
  simp only [Reader.inside] at takenOver ⊢
  simp only [noBlank, Bool.false_eq_true, if_false, noColon, decide_false, Bool.false_and,
    takenOver, Option.bind_some]

theorem apart_of_endsFlowWord {char : Char} (ends : Reader.endsFlowWord char = true) :
    isBlank char = false ∧ isBreak char = false ∧ char ≠ '#' ∧ char ≠ ':' := by
  simp only [Reader.endsFlowWord, Bool.or_eq_true, decide_eq_true_eq] at ends
  rcases ends with (((rfl | rfl) | rfl) | rfl) | rfl <;> decide

theorem step_word {scalar : OpenScalar} (flow : frame.column? = none)
    (takes : frame.take? (.scalar (plain scalar.text)) = some taken)
    (unmarked : place.marker = false) (ends : Reader.endsFlowWord place.char = true) :
    (Reader.inside (frame :: outer) (.plain scalar)).step place =
      Reader.begin { Reader.inside (taken :: outer) with mayBegin := scalar.pause.isBroken }
        place := by
  have takenOver : (Reader.inside (frame :: outer) (.plain scalar)).takePlain scalar =
      some { Reader.inside (taken :: outer) with mayBegin := scalar.pause.isBroken } :=
    takeValue_inside flow takes
  obtain ⟨noBlank, noBreak, noHash, noColon⟩ := apart_of_endsFlowWord ends
  have inFlow : (Reader.inside (frame :: outer) (.plain scalar)).outline.inFlow = true := by
    simp [Reader.inside, Outline.inFlow, flow]
  change Reader.stepPlain _ scalar place = _
  simp [Reader.stepPlain, inFlow, noBlank, noBreak, noHash, noColon, unmarked, ends, takenOver]

/-- Behind a part, whose value the innermost frame has taken or is about to take. -/
inductive Stands (taken : Frame) (outer : List Frame) : Reader → Prop
  | ready : Stands taken outer (.inside (taken :: outer))
  | held {frame : Frame} (start : Start) (value : Datum) (flow : frame.column? = none)
      (takes : frame.take? value = some taken) :
      Stands taken outer (.inside (frame :: outer) (.held start value))
  | word {frame : Frame} (scalar : OpenScalar) (flow : frame.column? = none)
      (takes : frame.take? (.scalar (plain scalar.text)) = some taken) :
      Stands taken outer (.inside (frame :: outer) (.plain scalar))

theorem begin_blank (blank : place.char = ' ') (unmarked : place.marker = false) :
    Reader.begin (.inside (taken :: outer)) place = some (.inside (taken :: outer)) := by
  simp [Reader.begin, Reader.inside, unmarked, blank, isBreak]

theorem Stands.blank (stands : Stands taken outer reader) (blank : place.char = ' ')
    (unmarked : place.marker = false) :
    ∃ next, reader.step place = some next ∧ Stands taken outer next := by
  cases stands with
  | ready => exact ⟨_, begin_blank blank unmarked, .ready⟩
  | held start value frameFlow takes =>
      refine ⟨_, ?_, .held start value frameFlow takes⟩
      simp [Reader.step, Reader.inside, blank, isBlank]
  | word scalar frameFlow takes =>
      refine ⟨_, ?_, .word (scalar.addBlank ' ') frameFlow takes⟩
      simp [Reader.step, Reader.inside, Reader.stepPlain, blank, isBlank, unmarked]

theorem begin_break (flow : taken.column? = none) (broken : place.char = '\n')
    (unmarked : place.marker = false) :
    Reader.begin (.inside (taken :: outer)) place = some (.inside (taken :: outer)) := by
  simp [Reader.begin, Reader.inside, unmarked, broken, isBreak, Outline.inFlow, flow]

theorem Stands.break (stands : Stands taken outer reader) (flow : taken.column? = none)
    (broken : place.char = '\n') (unmarked : place.marker = false) :
    ∃ next, reader.step place = some next ∧ Stands taken outer next := by
  cases stands with
  | ready => exact ⟨_, begin_break flow broken unmarked, .ready⟩
  | held start value frameFlow takes =>
      refine ⟨_, ?_, .ready⟩
      rw [step_held frameFlow takes (by rw [broken]; decide) (by rw [broken]; decide),
        begin_break flow broken unmarked]
  | word scalar frameFlow takes =>
      refine ⟨_, ?_, .word (scalar.addBreak '\n') frameFlow takes⟩
      simp [Reader.step, Reader.inside, Reader.stepPlain, broken, isBlank, isBreak]

theorem Stands.mark (stands : Stands taken outer reader) (unmarked : place.marker = false)
    (ends : Reader.endsFlowWord place.char = true) :
    ∃ mayBegin, reader.step place =
      Reader.begin { Reader.inside (taken :: outer) with mayBegin } place := by
  cases stands with
  | ready => exact ⟨false, rfl⟩
  | held start value frameFlow takes =>
      obtain ⟨noBlank, _, _, noColon⟩ := apart_of_endsFlowWord ends
      exact ⟨false, step_held frameFlow takes noBlank noColon⟩
  | word scalar frameFlow takes => exact ⟨_, step_word frameFlow takes unmarked ends⟩

theorem Stands.comma {next : Frame} (stands : Stands taken outer reader)
    (flow : taken.column? = none) (separates : taken.separate? = some next)
    (comma : place.char = ',') (unmarked : place.marker = false) :
    reader.step place = some (.inside (next :: outer)) := by
  obtain ⟨mayBegin, stepped⟩ := stands.mark unmarked (by rw [comma]; decide)
  rw [stepped, begin_inside flow unmarked (by rw [comma]; decide)]
  simp [Reader.beginFlow, comma, Reader.revise, Outline.revise, Reader.inside, separates]

theorem Stands.closeList {start : Start} {items : List Datum} {due : Due}
    (stands : Stands (.flowList start items due) outer reader)
    (complete : due = .part ∨ due = .separator) (closes : place.char = ']')
    (unmarked : place.marker = false) :
    reader.step place = some (.inside outer (.held start (.list items.reverse))) := by
  obtain ⟨mayBegin, stepped⟩ := stands.mark unmarked (by rw [closes]; decide)
  rw [stepped, begin_inside rfl unmarked (by rw [closes]; decide)]
  rcases complete with rfl | rfl <;>
    simp [Reader.beginFlow, closes, Reader.closeFlow, Outline.closeFlow, Reader.inside, Frame.datum,
      Frame.settle]

theorem Stands.closeTable {start : Start} {fields : List (Scalar × Datum)} {due : Due}
    (stands : Stands (.flowTable start fields due) outer reader)
    (complete : due = .part ∨ due = .separator) (closes : place.char = '\x7d')
    (unmarked : place.marker = false) :
    reader.step place = some (.inside outer (.held start (.table fields.reverse))) := by
  obtain ⟨mayBegin, stepped⟩ := stands.mark unmarked (by rw [closes]; decide)
  rw [stepped, begin_inside rfl unmarked (by rw [closes]; decide)]
  rcases complete with rfl | rfl <;>
    simp [Reader.beginFlow, closes, Reader.closeFlow, Outline.closeFlow, Reader.inside, Frame.datum,
      Frame.settle, Frame.settleFields]

theorem leads_blanks (stands : Stands taken outer reader) (count : Nat) :
    Leads certain reader (List.replicate count ' ') (Stands taken outer) := by
  induction count generalizing reader with
  | zero => exact .nil stands
  | succ count ih =>
      have first : Leads certain reader [' '] (Stands taken outer) :=
        leads_char (by decide) fun _ blank unmarked => stands.blank blank unmarked
      exact first.append fun _ reached => ih reached

theorem leads_newline (stands : Stands taken outer reader) (flow : taken.column? = none)
    (depth : Nat) : Leads certain reader (newline depth) (Stands taken outer) := by
  have first : Leads certain reader ['\n'] (Stands taken outer) :=
    leads_char (by decide) fun _ broken unmarked => stands.break flow broken unmarked
  exact first.append fun _ reached => leads_blanks reached (2 * depth)

/-! ## Beginnings -/

theorem leads_blank : Leads certain (.inside (frame :: outer)) [' ']
    (· = .inside (frame :: outer)) :=
  leads_char (by decide) fun _ blank unmarked => ⟨_, begin_blank blank unmarked, rfl⟩

theorem leads_indent (flow : frame.column? = none) (depth : Nat) :
    Leads certain (.inside (frame :: outer)) (newline depth) (· = .inside (frame :: outer)) := by
  have blanks : ∀ count, Leads certain (.inside (frame :: outer)) (List.replicate count ' ')
      (· = .inside (frame :: outer)) := by
    intro count
    induction count with
    | zero => exact .nil rfl
    | succ count ih => exact leads_blank.append fun _ same => same ▸ ih
  have first : Leads certain (.inside (frame :: outer)) ['\n'] (· = .inside (frame :: outer)) :=
    leads_char (by decide) fun _ broken unmarked => ⟨_, begin_break flow broken unmarked, rfl⟩
  exact first.append fun _ same => same ▸ blanks (2 * depth)

theorem step_part (flow : frame.column? = none) (unmarked : place.marker = false)
    (begins : beginsPart place.char = true) :
    (Reader.inside (frame :: outer)).step place =
      (Reader.inside (frame :: outer)).beginFlow place :=
  begin_inside flow unmarked begins

theorem step_openList (flow : frame.column? = none) (opens : place.char = '[')
    (unmarked : place.marker = false) :
    (Reader.inside (frame :: outer)).step place =
      some (.inside (.flowList ((Reader.inside (frame :: outer)).startAt place) [] .part ::
        frame :: outer)) := by
  rw [step_part flow unmarked (by rw [opens]; decide), Reader.beginFlow, opens, Reader.beginValue,
    opens]
  rfl

theorem step_openTable (flow : frame.column? = none) (opens : place.char = '\x7b')
    (unmarked : place.marker = false) :
    (Reader.inside (frame :: outer)).step place =
      some (.inside (.flowTable ((Reader.inside (frame :: outer)).startAt place) [] .part ::
        frame :: outer)) := by
  rw [step_part flow unmarked (by rw [opens]; decide), Reader.beginFlow, opens, Reader.beginValue,
    opens]
  rfl

theorem step_openQuote (flow : frame.column? = none) (opens : place.char = '"')
    (unmarked : place.marker = false) :
    (Reader.inside (frame :: outer)).step place =
      some (.inside (frame :: outer)
        (.double { start := (Reader.inside (frame :: outer)).startAt place })) := by
  rw [step_part flow unmarked (by rw [opens]; decide), Reader.beginFlow, opens, Reader.beginValue,
    opens, Reader.beginScalar, opens]
  rfl

/-! ## Words -/

theorem not_mark {char mark : Char} (word : char.isAlphanum = true)
    (noWord : mark.isAlphanum = false) : char ≠ mark := by
  intro same
  rw [same, noWord] at word
  contradiction

theorem step_openWord (outer : List Frame) (flow : frame.column? = none)
    (word : place.char.isAlphanum = true) (unmarked : place.marker = false) :
    ∃ scalar : OpenScalar, (Reader.inside (frame :: outer)).step place =
        some (.inside (frame :: outer) (.plain scalar)) ∧
      scalar.reversed = [place.char] ∧ scalar.pause = .none := by
  have apart : ∀ mark : Char, mark.isAlphanum = false → place.char ≠ mark :=
    fun mark noWord => not_mark word noWord
  have begins : beginsPart place.char = true := by
    simp [beginsPart, isBreak, apart '\ufeff' (by decide), apart '\n' (by decide),
      apart '\u2028' (by decide), apart '\u2029' (by decide), apart ' ' (by decide),
      apart '\t' (by decide), apart '#' (by decide)]
  have begun : (Reader.inside (frame :: outer)).step place =
      (Reader.inside (frame :: outer)).beginScalar place := by
    rw [step_part flow unmarked begins]
    unfold Reader.beginFlow Reader.beginValue
    split <;> first | exact absurd ‹_› (apart _ (by decide)) | skip
    split <;> first | exact absurd ‹_› (apart _ (by decide)) | rfl
  have reserved : place.char ∉ Reader.reservedMarks := by
    intro member
    have noWord : Reader.reservedMarks.all (fun mark => !mark.isAlphanum) = true := by decide
    exact apart place.char (by simpa using List.all_eq_true.mp noWord _ member) rfl
  have noPart : place.char ∉ Reader.partMarks := by
    intro member
    have noWord : Reader.partMarks.all (fun mark => !mark.isAlphanum) = true := by decide
    exact apart place.char (by simpa using List.all_eq_true.mp noWord _ member) rfl
  rw [begun]
  unfold Reader.beginScalar
  simp only
  split <;> first | exact absurd ‹_› (apart _ (by decide)) | skip
  simp [reserved, noPart, Reader.inside, OpenScalar.push, OpenScalar.settle, Pause.none,
    Pause.reversed]

theorem step_word_on {scalar : OpenScalar} (whole : scalar.pause = .none)
    (word : place.char.isAlphanum = true) (unmarked : place.marker = false) :
    (Reader.inside (frame :: outer) (.plain scalar)).step place =
      some (.inside (frame :: outer) (.plain (scalar.push place.char))) := by
  have apart : ∀ mark : Char, mark.isAlphanum = false → place.char ≠ mark :=
    fun mark noWord => not_mark word noWord
  change Reader.stepPlain _ scalar place = _
  simp [Reader.stepPlain, isBlank, isBreak, Reader.endsFlowWord, whole, unmarked, Pause.none,
    Pause.isBroken, apart '\n' (by decide), apart '\u2028' (by decide),
    apart '\u2029' (by decide), apart ' ' (by decide), apart '\t' (by decide),
    apart '#' (by decide), apart ':' (by decide), apart ',' (by decide), apart '[' (by decide),
    apart ']' (by decide), apart '\x7b' (by decide), apart '\x7d' (by decide)]
  rfl

theorem isSteady_of_isAlphanum {char : Char} (word : char.isAlphanum = true) :
    isSteady char = true := by
  simp [isSteady, not_mark word (show '-'.isAlphanum = false by decide),
    not_mark word (show '.'.isAlphanum = false by decide),
    not_mark word (show '\u0085'.isAlphanum = false by decide)]

theorem leads_wordOn {chars : List Char} {scalar : OpenScalar}
    (word : ∀ char ∈ chars, char.isAlphanum = true) (whole : scalar.pause = .none) :
    Leads certain (.inside (frame :: outer) (.plain scalar)) chars fun next =>
      ∃ later : OpenScalar, next = .inside (frame :: outer) (.plain later) ∧
        later.reversed = chars.reverse ++ scalar.reversed := by
  induction chars generalizing scalar with
  | nil => exact .nil ⟨scalar, rfl, rfl⟩
  | cons char chars ih =>
      have isWord : char.isAlphanum = true := word char List.mem_cons_self
      have first : Leads certain (.inside (frame :: outer) (.plain scalar)) [char]
          (· = .inside (frame :: outer) (.plain (scalar.push char))) := by
        apply leads_char (isSteady_of_isAlphanum isWord)
        intro place same unmarked
        exact ⟨_, by rw [step_word_on whole (by rw [same, isWord]) unmarked, same], rfl⟩
      apply first.append
      intro next reached
      subst reached
      apply (ih (fun char member => word char (List.mem_cons_of_mem _ member)) rfl).mono id
      intro next reached
      obtain ⟨later, rfl, spelled⟩ := reached
      refine ⟨later, rfl, ?_⟩
      simp [spelled, OpenScalar.push, OpenScalar.settle, whole, Pause.none, Pause.reversed]

theorem leads_word {text : String} (flow : frame.column? = none) (nonempty : text.toList ≠ [])
    (word : ∀ char ∈ text.toList, char.isAlphanum = true)
    (takes : frame.take? (.scalar (plain text)) = some taken) :
    Leads certain (.inside (frame :: outer)) text.toList (Stands taken outer) := by
  cases spelled : text.toList with
  | nil => contradiction
  | cons char chars =>
      rw [spelled] at word
      have isWord : char.isAlphanum = true := word char List.mem_cons_self
      have first : Leads certain (.inside (frame :: outer)) [char] fun next =>
          ∃ scalar : OpenScalar, next = .inside (frame :: outer) (.plain scalar) ∧
            scalar.reversed = [char] ∧ scalar.pause = .none := by
        apply leads_char (isSteady_of_isAlphanum isWord)
        intro place same unmarked
        obtain ⟨scalar, stepped, reversed, whole⟩ :=
          step_openWord outer flow (by rw [same, isWord]) unmarked
        exact ⟨_, stepped, scalar, rfl, by rw [reversed, same], whole⟩
      apply first.append
      intro next reached
      obtain ⟨scalar, rfl, reversed, whole⟩ := reached
      apply (leads_wordOn (fun char member => word char (List.mem_cons_of_mem _ member)) whole).mono
        id
      intro next reached
      obtain ⟨later, rfl, content⟩ := reached
      have same : later.text = text := by
        rw [OpenScalar.text, content, reversed, ← String.ofList_toList (s := text), spelled]
        simp
      exact .word later flow (by rw [same, takes])

/-! ## Strings and keys -/

/-- A string of which the opening quote has been read. -/
def openQuote (frames : List Frame) (position : Position) : OpenScalar :=
  { start := (Reader.inside frames).startAt (position.place '"' []) }

theorem openQuote_eq (frames : List Frame) (position : Position) :
    openQuote frames position = { start := (openQuote frames position).start } := rfl

theorem run_openQuote (flow : frame.column? = none) (position : Position) (rest : List Char) :
    run (.inside (frame :: outer)) position ('"' :: rest) =
      run (.inside (frame :: outer) (.double (openQuote (frame :: outer) position)))
        (position.advance '"') rest :=
  run_step (step_openQuote flow rfl (marker_place (by decide)))

theorem column_advance {char : Char} (position : Position) (noBreak : isBreak char = false) :
    (position.advance char).column ≠ 0 := by
  simp [Position.advance, noBreak]

theorem run_quote (flow : frame.column? = none) (text : String) (position : Position)
    (rest : List Char) :
    run (.inside (frame :: outer)) position (quote text ++ rest) =
      ((openQuote (frame :: outer) position).hearAll false text.toList).bind fun heard =>
        run (.inside (frame :: outer) (.held heard.start (.text heard.settle.text)))
          (position.along ((quote text).map unify)) rest := by
  have written : quote text ++ rest = '"' :: (text.toList.flatMap escape ++ '"' :: rest) := by
    simp [quote]
  have indented : (position.advance '"').column ≠ 0 := column_advance position (by decide)
  rw [written, run_openQuote flow, run_hearAll, decide_eq_false indented]
  rfl

theorem leads_quote (flow : frame.column? = none) (text : String) :
    Leads (isKept text.toList = true) (.inside (frame :: outer)) (quote text) fun next =>
      ∃ start heard, HeardText text heard ∧
        next = .inside (frame :: outer) (.held start (.text heard)) := by
  intro position rest
  rw [run_quote flow]
  cases heard : (openQuote (frame :: outer) position).hearAll false text.toList with
  | some scalar => exact Or.inl ⟨_, _, ⟨_, _, ⟨_, scalar, heard, rfl⟩, rfl⟩, rfl⟩
  | none =>
      refine Or.inr ⟨fun kept => ?_, rfl⟩
      obtain ⟨scalar, found, _⟩ :=
        hearAll_of_isKept (openQuote (frame :: outer) position).start kept
      rw [← openQuote_eq, heard] at found
      contradiction

/-- A key stands on one line with its colon, and not too far from it. -/
def isKey (name : String) : Bool :=
  isLegible name && !name.toList.any endsLine &&
    ((quote name).map Char.utf8Size).sum ≤ Start.keyLimit

theorem isLegible_of_isKey {name : String} (key : isKey name = true) : isLegible name = true := by
  rw [isKey, Bool.and_assoc, Bool.and_eq_true] at key
  exact key.1

theorem step_colon {start tableStart : Start} {fields : List (Scalar × Datum)} {key : Datum}
    (colon : place.char = ':') :
    (Reader.inside (.flowTable tableStart fields .part :: outer) (.held start key)).step place =
      if start.reaches place then
        some (.inside (.flowTable tableStart fields (.value key) :: outer))
      else none := by
  have taken : (Reader.inside (.flowTable tableStart fields .part :: outer)
        (.held start key)).step place =
      (Reader.inside (.flowTable tableStart fields .part :: outer)
        (.held start key)).takeColon start key place := by
    simp [Reader.step, Reader.inside, colon, isBlank, Outline.inFlow, Frame.column?]
  rw [taken]
  unfold Reader.takeColon
  split
  · rfl
  · rfl

theorem reaches_place {name : String} (key : isKey name = true) (position : Position)
    (next : List Char) :
    Start.reaches ⟨position.line, position.column, position.offset, true⟩
      ((position.along ((quote name).map unify)).place ':' next) = true := by
  simp only [isKey, Bool.and_eq_true, Bool.not_eq_true', List.any_eq_false, Bool.not_eq_true,
    decide_eq_true_eq] at key
  obtain ⟨⟨_, unended⟩, short⟩ := key
  have harmless : ∀ char ∈ quote name, (!isBreak char && unify char = char) = true := by
    refine forall_mem_quote (by decide) fun char inside => ?_
    refine forall_mem_escape (by decide) fun plain => ?_
    have same := unify_of_unended (unended char inside)
    have unbroken := isBreak_unify plain
    rw [same, unended char inside] at unbroken
    simp [same, unbroken]
  have unbroken : ∀ char ∈ quote name, isBreak char = false := by
    intro char member
    simpa using (Bool.and_eq_true_iff.mp (harmless char member)).1
  have same : (quote name).map unify = quote name := by
    rw [List.map_congr_left fun char member =>
      of_decide_eq_true (Bool.and_eq_true_iff.mp (harmless char member)).2, List.map_id']
  rw [same, Position.along_of_unbroken position unbroken]
  simp [Start.reaches, Position.place, short]

/-- A colon that stands on another line than the name, or too far from it, is refused. -/
theorem leads_key (start : Start) (fields : List (Scalar × Datum)) (outer : List Frame)
    (name : String) :
    Leads (isKey name = true) (.inside (.flowTable start fields .part :: outer))
      (quote name ++ [':', ' ']) fun next =>
        ∃ heard, (isKey name = true → heard = name) ∧
          next = .inside (.flowTable start fields (.value (.text heard)) :: outer) := by
  have colon : Leads (isKey name = true) (.inside (.flowTable start fields .part :: outer))
      (quote name ++ [':']) fun next =>
        ∃ heard, (isKey name = true → heard = name) ∧
          next = .inside (.flowTable start fields (.value (.text heard)) :: outer) := by
    intro position rest
    rw [List.append_assoc, run_quote rfl]
    cases key : isKey name with
    | true =>
        have legible := isLegible_of_isKey key
        rw [isLegible, Bool.and_eq_true] at legible
        obtain ⟨scalar, heard, started, same⟩ := hearAll_of_isKept
          (openQuote (.flowTable start fields .part :: outer) position).start legible.2
        rw [← openQuote_eq] at heard
        refine Or.inl ⟨_, (position.along ((quote name).map unify)).advance ':',
          ⟨name, fun _ => rfl, rfl⟩, ?_⟩
        rw [heard, Option.bind_some, started, same]
        apply run_step
        rw [step_colon rfl]
        exact if_pos (reaches_place key position _)
    | false =>
        cases (openQuote (.flowTable start fields .part :: outer) position).hearAll false
          name.toList with
        | none => exact Or.inr ⟨nofun, rfl⟩
        | some scalar =>
            rw [Option.bind_some, List.singleton_append, run_cons, step_colon rfl]
            split
            · exact Or.inl ⟨_, _, ⟨_, nofun, rfl⟩, rfl⟩
            · exact Or.inr ⟨nofun, rfl⟩
  have both : quote name ++ [':', ' '] = (quote name ++ [':']) ++ [' '] := by simp
  rw [both]
  apply colon.append
  intro next reached
  obtain ⟨heard, same, rfl⟩ := reached
  apply leads_blank.mono id
  intro next reached
  exact ⟨heard, same, reached⟩

end FlowLink.Yaml
