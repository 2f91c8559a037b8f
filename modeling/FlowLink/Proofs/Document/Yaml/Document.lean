import FlowLink.Proofs.Document.Yaml.JsonText

namespace FlowLink.Yaml

open Json (Faithful escape isPlain newline pretty quote write)

/-! # Documents of JSON read as YAML

The JSON of a table is read to its end as one flow collection, unless a character in it is allowed
in no YAML text.  The characters that JSON adds to the strings of a value are all harmless.
-/

variable {levels : Nat} {value heard : Datum} {good : Char → Bool} {test : Scalar → Bool}

/-! ## Characters -/

/-- All that JSON writes beside the contents of strings and the letters and digits of words. -/
def jsonMarks : List Char := ['[', ']', '\x7b', '\x7d', ',', ':', ' ', '\n', '"']

theorem of_mark (marks : jsonMarks.all good = true) {mark : Char} (member : mark ∈ jsonMarks) :
    good mark = true := List.all_eq_true.mp marks mark member

theorem forall_mem_newline (marks : jsonMarks.all good = true) (depth : Nat) :
    ∀ char ∈ newline depth, good char = true := by
  intro char member
  rcases List.mem_cons.mp member with rfl | member
  · exact of_mark marks (by decide)
  · rw [List.eq_of_mem_replicate member]
    exact of_mark marks (by decide)

theorem forall_mem_writeParts {α : Type} {writePart : Nat → α → List Char} {parts : List α}
    (marks : jsonMarks.all good = true)
    (inner : ∀ part ∈ parts, ∀ depth, ∀ char ∈ writePart depth part, good char = true)
    (depth : Nat) :
    ∀ char ∈ writeParts writePart depth parts, good char = true := by
  intro char member
  simp only [writeParts, List.mem_flatMap, List.mem_append, List.mem_singleton] at member
  obtain ⟨part, listed, rfl | broken | written⟩ := member
  · exact of_mark marks (by decide)
  · exact forall_mem_newline marks depth char broken
  · exact inner part listed depth char written

theorem forall_mem_writeBody {α β : Type} {collection : Collection β}
    {writePart : Nat → α → List Char} {parts : List α} (marks : jsonMarks.all good = true)
    (closing : good collection.closing = true)
    (inner : ∀ part ∈ parts, ∀ depth, ∀ char ∈ writePart depth part, good char = true)
    (depth : Nat) :
    ∀ char ∈ writeBody collection writePart depth parts, good char = true := by
  intro char member
  cases parts with
  | nil =>
      rw [writeBody, List.mem_singleton] at member
      exact member ▸ closing
  | cons part parts =>
      have later := forall_mem_writeParts marks
        (fun part listed => inner part (List.mem_cons_of_mem _ listed)) (depth + 1)
      simp only [writeBody, List.mem_append, List.mem_singleton] at member
      rcases member with broken | written | others | broken | rfl
      · exact forall_mem_newline marks _ char broken
      · exact inner part List.mem_cons_self _ char written
      · exact later char others
      · exact forall_mem_newline marks _ char broken
      · exact closing

theorem forall_mem_write (faithful : Faithful levels value) (passes : value.allScalars test = true)
    (marks : jsonMarks.all good = true) (words : ∀ char, char.isAlphanum = true → good char = true)
    (strings : ∀ scalar, test scalar = true → ∀ char ∈ quote scalar.text, good char = true) :
    ∀ depth, ∀ char ∈ write depth value, good char = true := by
  induction faithful with
  | null =>
      intro _ char member
      have word : "null".toList.all Char.isAlphanum = true := by decide
      exact words char (List.all_eq_true.mp word char member)
  | truth value =>
      intro _ char member
      have word : ∀ value : Bool,
          (if value then "true" else "false").toList.all Char.isAlphanum = true := by decide
      exact words char (List.all_eq_true.mp (word value) char member)
  | @natural _ value small =>
      intro _ char member
      have written : char ∈ (toString value).toList := member
      rw [Json.toList_toString] at written
      exact words char (by simp [Char.isAlphanum, Json.numeral_isDigit written])
  | text value => exact fun _ => strings _ passes
  | list _ ih =>
      intro depth char member
      rw [Datum.allScalars_list] at passes
      rw [write_list] at member
      rcases List.mem_append.mp member with opening | body
      · exact of_mark marks (List.mem_singleton.mp opening ▸ by decide)
      · exact forall_mem_writeBody marks (of_mark marks (by decide))
          (fun item listed => ih item listed (passes item listed)) depth char body
  | table _ _ ih =>
      intro depth char member
      rw [Datum.allScalars_table] at passes
      rw [write_table] at member
      rcases List.mem_append.mp member with opening | body
      · exact of_mark marks (List.mem_singleton.mp opening ▸ by decide)
      · refine forall_mem_writeBody marks (of_mark marks (by decide)) ?_ depth char body
        intro field listed depth char member
        simp only [writeField, List.mem_append, List.mem_cons, List.not_mem_nil, or_false] at member
        rcases member with (name | rfl | rfl) | written
        · exact strings field.1 (passes field listed).1 char name
        · exact of_mark marks (by decide)
        · exact of_mark marks (by decide)
        · exact ih field listed (passes field listed).2 depth char written

theorem allScalars_true (faithful : Faithful levels value) :
    value.allScalars (fun _ => true) = true := by
  induction faithful with
  | null => rfl
  | truth value => rfl
  | natural small => rfl
  | text value => rfl
  | list _ ih => exact Datum.allScalars_list.mpr ih
  | table _ _ ih => exact Datum.allScalars_table.mpr fun field member => ⟨rfl, ih field member⟩

theorem unifyBreaks_write (faithful : Faithful levels value) (depth : Nat) :
    unifyBreaks (write depth value) = (write depth value).map unify := by
  apply unifyBreaks_eq_map
  suffices kept : ∀ char ∈ write depth value, decide (char ≠ '\r') = true by simpa using kept
  refine forall_mem_write faithful (allScalars_true faithful) (by decide) ?_ ?_ depth
  · intro char word
    exact decide_eq_true (not_mark word (by decide))
  · intro scalar _
    refine forall_mem_quote (by decide) ?_
    intro char _
    refine forall_mem_escape (by decide) ?_
    intro plain
    apply decide_eq_true
    intro same
    rw [same] at plain
    contradiction

/-- Every string of the document, the field names included, is legible. -/
def isLegibleDatum (value : Datum) : Bool := value.allScalars fun scalar => isLegible scalar.text

theorem Readable.isLegible (readable : Readable value) : isLegibleDatum value = true := by
  induction readable with
  | scalar legible => exact legible
  | list _ ih => exact Datum.allScalars_list.mpr ih
  | table names _ ih =>
      exact Datum.allScalars_table.mpr fun field member =>
        ⟨isLegible_of_isKey (names field member), ih field member⟩

theorem isAllowed_of_isAlphanum {char : Char} (word : char.isAlphanum = true) :
    isAllowed char = true := by
  have within : ∀ low high : UInt32, 0x20 ≤ low.toNat → high.toNat ≤ 0x7e →
      low ≤ char.val ∧ char.val ≤ high → 0x20 ≤ char.toNat ∧ char.toNat ≤ 0x7e := by
    intro low high above below range
    obtain ⟨least, most⟩ := range
    exact ⟨above.trans (UInt32.le_iff_toNat_le.mp least),
      (UInt32.le_iff_toNat_le.mp most).trans below⟩
  have ascii : 0x20 ≤ char.toNat ∧ char.toNat ≤ 0x7e := by
    have classes : (char.isUpper || char.isLower || char.isDigit) = true := word
    rw [Bool.or_eq_true, Bool.or_eq_true] at classes
    rcases classes with (upper | lower) | digit
    · exact within 'A'.val 'Z'.val (by decide) (by decide) (of_decide_eq_true upper)
    · obtain ⟨least, most⟩ := Bool.and_eq_true_iff.mp lower
      exact within 'a'.val 'z'.val (by decide) (by decide)
        ⟨of_decide_eq_true least, of_decide_eq_true most⟩
    · obtain ⟨least, most⟩ := Bool.and_eq_true_iff.mp digit
      exact within '0'.val '9'.val (by decide) (by decide)
        ⟨of_decide_eq_true least, of_decide_eq_true most⟩
  simp [isAllowed, ascii]

theorem isAllowed_write (faithful : Faithful levels value) (legible : isLegibleDatum value = true)
    (depth : Nat) : (write depth value).all isAllowed = true := by
  apply List.all_eq_true.mpr
  refine forall_mem_write faithful legible (by decide) ?_ ?_ depth
  · intro char word
    exact isAllowed_of_isAlphanum word
  · intro scalar passes
    refine forall_mem_quote (by decide) ?_
    intro char inside
    refine forall_mem_escape (by decide) ?_
    intro plain
    rw [isLegible, Bool.and_eq_true, List.all_eq_true] at passes
    rw [← isSpellable_of_isPlain plain, passes.1 char inside]

theorem isSpellable_of_quote {text : String}
    (allowed : ∀ char ∈ quote text, isAllowed char = true) :
    text.toList.all isSpellable = true := by
  apply List.all_eq_true.mpr
  intro char inside
  cases plain : isPlain char with
  | false => exact isSpellable_of_escaped plain
  | true =>
      have written : char ∈ quote text := by
        have itself : char ∈ escape char := by simp [escape_of_isPlain plain]
        simp only [quote, List.cons_append, List.mem_cons, List.mem_append, List.mem_flatMap]
        exact Or.inr (Or.inl ⟨char, inside, itself⟩)
      rw [isSpellable_of_isPlain plain, allowed char written]

theorem isLegible_of_word {text : String} (word : text.toList.all Char.isAlphanum = true) :
    isLegible text = true := by
  rw [List.all_eq_true] at word
  rw [isLegible, Bool.and_eq_true, List.all_eq_true]
  constructor
  · intro char member
    simp [isSpellable, isAllowed_of_isAlphanum (word char member)]
  · apply isKept_of_unended
    intro char member
    have apart : ∀ mark : Char, mark.isAlphanum = false → char ≠ mark :=
      fun mark noWord => not_mark (word char member) noWord
    simp [endsLine, apart ' ' (by decide), apart '\u0085' (by decide), apart '\u2028' (by decide),
      apart '\u2029' (by decide)]

theorem mem_writeBody {α β : Type} {collection : Collection β} {writePart : Nat → α → List Char}
    {parts : List α} {part : α} {char : Char} {depth : Nat} (listed : part ∈ parts)
    (written : char ∈ writePart (depth + 1) part) :
    char ∈ writeBody collection writePart depth parts := by
  cases parts with
  | nil => contradiction
  | cons first parts =>
      simp only [writeBody, writeParts, List.mem_append, List.mem_flatMap]
      rcases List.mem_cons.mp listed with rfl | later
      · exact Or.inr (Or.inl written)
      · exact Or.inr (Or.inr (Or.inl ⟨part, later, Or.inr (Or.inr written)⟩))

/-! ## Whole documents -/

theorem exists_source {α β : Type} {hears : α → β → Prop} {parts : List α} {heard : List β}
    {part : β} (all : List.Forall₂ hears parts heard) (member : part ∈ heard) :
    ∃ source ∈ parts, hears source part := by
  induction all with
  | nil => contradiction
  | @cons source _ _ _ first _ ih =>
      rcases List.mem_cons.mp member with rfl | member
      · exact ⟨source, List.mem_cons_self, first⟩
      · obtain ⟨source, listed, hears⟩ := ih member
        exact ⟨source, List.mem_cons_of_mem _ listed, hears⟩

theorem Heard.cut (faithful : Faithful levels value) (hears : Heard value heard) :
    heard.cut levels = heard := by
  induction faithful generalizing heard with
  | null =>
      cases hears
      rfl
  | truth value =>
      cases hears
      rfl
  | natural small =>
      cases hears
      rfl
  | text value => cases hears <;> rfl
  | @list levels items _ ih =>
      cases hears with
      | @list _ heard inner =>
          have same : ∀ item ∈ heard, item.cut levels = item := by
            intro item member
            obtain ⟨source, listed, hears⟩ := exists_source inner member
            exact ih source listed hears
          rw [Datum.cut, Datum.cutItems_eq_map, List.map_congr_left same, List.map_id']
  | @table levels fields _ _ ih =>
      cases hears with
      | @table _ heard _ inner =>
          have same : ∀ field ∈ heard, (field.1, field.2.cut levels) = field := by
            intro field member
            obtain ⟨source, listed, hears⟩ := exists_source inner member
            rw [ih source listed hears]
          rw [Datum.cut, Datum.cutFields_eq_map, List.map_congr_left same, List.map_id']

theorem step_firstBrace (rest : List Char) :
    ({} : Reader).step (Position.place ⟨0, 0, 0⟩ '\x7b' rest) =
      some (.inside [.flowTable ⟨0, 0, 0, true⟩ [] .part]) := by
  have unmarked : startsMarker ('\x7b' :: rest) = false := startsMarker_of_isSteady (by decide)
  rw [Position.place, unmarked]
  rfl

theorem run_table (fields : List (Scalar × Datum)) :
    run {} ⟨0, 0, 0⟩ (write 0 (.table fields)) =
      run (.inside [Collection.table.frame ⟨0, 0, 0, true⟩ [] .part]) ⟨0, 1, 1⟩
        (writeBody .table writeField 0 fields) := by
  rw [write_table]
  exact run_step (step_firstBrace _)

theorem read?_of_allowed (faithful : Faithful levels value)
    (allowed : (write 0 value).all isAllowed = true) :
    read? (pretty value) =
      ((run {} ⟨0, 0, 0⟩ (write 0 value)).bind Reader.finish).map (Datum.cut depthLimit) := by
  rw [read?, pretty, String.toList_ofList, places?, allowed, if_pos rfl,
    unifyBreaks_write faithful, Option.bind_some]
  rfl

theorem allowed_of_read? (read : read? (pretty value) = some heard) :
    ∀ char ∈ write 0 value, isAllowed char = true := by
  rw [read?, pretty, String.toList_ofList, places?] at read
  split at read
  next allowed => exact List.all_eq_true.mp allowed
  next => contradiction

/-- A table is read as one that may be heard of it, and for sure if it is readable. -/
theorem read?_pretty {fields : List (Scalar × Datum)}
    (faithful : Faithful depthLimit (.table fields)) :
    (∃ heard, Heard (.table fields) heard ∧ read? (pretty (.table fields)) = some heard) ∨
      ¬ Readable (.table fields) ∧ read? (pretty (.table fields)) = none := by
  have reads : ∀ field ∈ fields, Reads field.2 := by
    cases faithful with
    | table _ inner => exact fun field member => reads_of_faithful (inner field member)
  cases allowed : (write 0 (.table fields)).all isAllowed with
  | false =>
      -- A forbidden character rules out the whole text, wherever it stands.
      refine Or.inr ⟨fun readable => ?_, ?_⟩
      · rw [isAllowed_write faithful readable.isLegible] at allowed
        contradiction
      · rw [read?, pretty, String.toList_ofList, places?, allowed]
        rfl
  | true =>
      have body := leads_body (fun field member => reads_field (reads field member)) 0
        ⟨0, 0, 0, true⟩ [] ⟨0, 1, 1⟩ []
      rw [List.append_nil, ← run_table] at body
      rw [read?_of_allowed faithful allowed]
      rcases body with ⟨next, later, ⟨heard, hears, rfl⟩, same⟩ | ⟨uncertain, fails⟩
      · have finished : (Reader.inside [] (.held ⟨0, 0, 0, true⟩ (.table heard))).finish =
            some (.table heard) := rfl
        have whole : Heard (.table fields) (.table heard) := heard_table hears
        have read : (run {} ⟨0, 0, 0⟩ (write 0 (.table fields))).bind Reader.finish =
            some (.table heard) := by
          rw [same]
          exact finished
        exact Or.inl ⟨_, whole, by rw [read, Option.map_some, whole.cut faithful]⟩
      · refine Or.inr ⟨fun readable => uncertain readable.fields, ?_⟩
        rw [fails]
        rfl

end FlowLink.Yaml
