import FlowLink.Proofs.Document.Datum
import FlowLink.Proofs.Document.Json.Writing
import FlowLink.Proofs.Document.Yaml.Flow
import FlowLink.Proofs.Document.Yaml.Numeral
import Mathlib.Data.List.Forall2

namespace FlowLink.Yaml

open Json (Faithful newline quote write writeItems writeFields writeScalar)

/-! # JSON read as YAML

What JSON writes is made of flow collections, quoted strings and words, and YAML reads it as such.
There are two differences.  In YAML the name of a field is a text if it stands in quotes, whatever
it spells, and a string that is not kept is read as another one or not at all.
-/

/-- What the name of a field may be read as. -/
def HeardName (name heard : Scalar) : Prop :=
  ∃ text, heard = .ofText text ∧ (isKey name.text = true → text = name.text)

/-- What the JSON of a value may be read as. -/
inductive Heard : Datum → Datum → Prop
  | scalar {value : Scalar} (word : value.meaning ≠ .text) : Heard (.scalar value) (.scalar value)
  | text {text heard : String} (same : HeardText text heard) : Heard (.text text) (.text heard)
  | list {items heard : List Datum} (inner : List.Forall₂ Heard items heard) :
      Heard (.list items) (.list heard)
  | table {fields heard : List (Scalar × Datum)}
      (names : List.Forall₂ (fun field heard => HeardName field.1 heard.1) fields heard)
      (inner : List.Forall₂ (fun field heard => Heard field.2 heard.2) fields heard) :
      Heard (.table fields) (.table heard)

/-- YAML reads the JSON of the value for sure, and every string in it as it stands. -/
inductive Readable : Datum → Prop
  | scalar {value : Scalar} (legible : isLegible value.text = true) : Readable (.scalar value)
  | list {items : List Datum} (inner : ∀ item ∈ items, Readable item) : Readable (.list items)
  | table {fields : List (Scalar × Datum)} (names : ∀ field ∈ fields, isKey field.1.text = true)
      (inner : ∀ field ∈ fields, Readable field.2) : Readable (.table fields)

/-- Where any value may stand, the value is taken for one that may be heard of it. -/
def Reads (value : Datum) : Prop :=
  ∀ (depth : Nat) (frame : Frame) (outer : List Frame) (taken : Datum → Frame),
    frame.column? = none → (∀ heard, frame.take? heard = some (taken heard)) →
      Leads (Readable value) (.inside (frame :: outer)) (write depth value) fun next =>
        ∃ heard, Heard value heard ∧ Stands (taken heard) outer next

theorem reads_word {value : Scalar} (written : writeScalar value = value.text.toList)
    (means : plain value.text = value) (noText : value.meaning ≠ .text)
    (nonempty : value.text.toList ≠ [])
    (word : value.text.toList.all Char.isAlphanum = true) : Reads (.scalar value) := by
  rw [List.all_eq_true] at word
  intro depth frame outer taken flow takes
  have taken : frame.take? (.scalar (plain value.text)) = some (taken (.scalar value)) := by
    rw [means, takes]
  rw [write, written]
  apply (leads_word flow nonempty word taken).mono id
  intro next stands
  exact ⟨_, .scalar noText, stands⟩

theorem reads_text (text : String) : Reads (.text text) := by
  intro depth frame outer taken flow takes
  have kept : Readable (.text text) → isKept text.toList = true := by
    intro readable
    cases readable with
    | scalar legible => exact (Bool.and_eq_true_iff.mp legible).2
  apply (leads_quote flow text).mono kept
  intro next reached
  obtain ⟨start, heard, same, rfl⟩ := reached
  exact ⟨.text heard, .text same, .held start _ flow (takes _)⟩

/-! ## Collections -/

/-- What flow lists and flow tables have in common, with parts of some kind. -/
structure Collection (β : Type) where
  frame : Start → List β → Due → Frame
  opening : Char
  closing : Char
  datum : List β → Datum
  steady : isSteady opening = true ∧ isSteady closing = true
  flow : ∀ start done due, (frame start done due).column? = none
  opens : ∀ {around : Frame} {outer : List Frame} {place : Place}, around.column? = none →
    place.char = opening → place.marker = false →
      ∃ start, (Reader.inside (around :: outer)).step place =
        some (.inside (frame start [] .part :: around :: outer))
  separates : ∀ start done, (frame start done .separator).separate? = some (frame start done .part)
  closes : ∀ {start : Start} {done : List β} {due : Due} {outer : List Frame} {reader : Reader}
    {place : Place}, Stands (frame start done due) outer reader →
      due = .part ∨ due = .separator → place.char = closing → place.marker = false →
        reader.step place = some (.inside outer (.held start (datum done.reverse)))

def Collection.list : Collection Datum where
  frame := .flowList
  opening := '['
  closing := ']'
  datum := .list
  steady := by decide
  flow _ _ _ := rfl
  opens flow opens unmarked := ⟨_, step_openList flow opens unmarked⟩
  separates _ _ := rfl
  closes := Stands.closeList

def Collection.table : Collection (Scalar × Datum) where
  frame := .flowTable
  opening := '\x7b'
  closing := '\x7d'
  datum := .table
  steady := by decide
  flow _ _ _ := rfl
  opens flow opens unmarked := ⟨_, step_openTable flow opens unmarked⟩
  separates _ _ := rfl
  closes := Stands.closeTable

section

variable {α β : Type} (collection : Collection β) (writePart : Nat → α → List Char)
  (hears : α → β → Prop) (sure : α → Prop)

/-- What is written of the parts behind the first one. -/
def writeParts (depth : Nat) (parts : List α) : List Char :=
  parts.flatMap fun part => [','] ++ (newline depth ++ writePart depth part)

/-- What is written of a collection behind its first bracket. -/
def writeBody (depth : Nat) : List α → List Char
  | [] => [collection.closing]
  | part :: parts =>
    newline (depth + 1) ++ (writePart (depth + 1) part ++ (writeParts writePart (depth + 1) parts ++
      (newline depth ++ [collection.closing])))

/-- Where a part is due, the part is taken for one that may be heard of it. -/
def ReadsPart (part : α) : Prop :=
  ∀ (depth : Nat) (start : Start) (done : List β) (outer : List Frame),
    Leads (sure part) (.inside (collection.frame start done .part :: outer)) (writePart depth part)
      fun next => ∃ heard, hears part heard ∧
        Stands (collection.frame start (heard :: done) .separator) outer next

variable {collection writePart hears sure} {parts : List α}

theorem leads_comma {taken next : Frame} {outer : List Frame} {reader : Reader} {certain : Prop}
    (stands : Stands taken outer reader) (flow : taken.column? = none)
    (separates : taken.separate? = some next) :
    Leads certain reader [','] (· = .inside (next :: outer)) :=
  leads_char (by decide) fun _ comma unmarked =>
    ⟨_, stands.comma flow separates comma unmarked, rfl⟩

theorem leads_closing {start : Start} {done : List β} {due : Due} {outer : List Frame}
    {reader : Reader} {certain : Prop}
    (stands : Stands (collection.frame start done due) outer reader)
    (complete : due = .part ∨ due = .separator) :
    Leads certain reader [collection.closing]
      (· = .inside outer (.held start (collection.datum done.reverse))) :=
  leads_char collection.steady.2 fun _ closes unmarked =>
    ⟨_, collection.closes stands complete closes unmarked, rfl⟩

theorem leads_parts (reads : ∀ part ∈ parts, ReadsPart collection writePart hears sure part)
    (depth : Nat) (start : Start) (done : List β) (outer : List Frame) {reader : Reader}
    (stands : Stands (collection.frame start done .separator) outer reader) :
    Leads (∀ part ∈ parts, sure part) reader (writeParts writePart depth parts) fun next =>
      ∃ heard, List.Forall₂ hears parts heard ∧
        Stands (collection.frame start (heard.reverse ++ done) .separator) outer next := by
  -- The parts that were read so far are in the innermost frame, so they are generalized.
  induction parts generalizing done reader with
  | nil => exact .nil ⟨[], .nil, stands⟩
  | cons part parts ih =>
      have written : writeParts writePart depth (part :: parts) =
          [','] ++ (newline depth ++
            (writePart depth part ++ writeParts writePart depth parts)) := by
        simp [writeParts]
      rw [written]
      apply (leads_comma stands (collection.flow ..) (collection.separates ..)).append
      rintro _ rfl
      apply (leads_indent (collection.flow ..) depth).append
      rintro _ rfl
      have first := reads part List.mem_cons_self depth start done outer
      apply (first.mono (fun all => all part List.mem_cons_self) fun _ reached => reached).append
      intro next reached
      obtain ⟨heard, hears, stands⟩ := reached
      have later := ih (fun part member => reads part (List.mem_cons_of_mem _ member))
        (heard :: done) stands
      apply later.mono fun all part member => all part (List.mem_cons_of_mem _ member)
      intro next reached
      obtain ⟨others, hearsOthers, stands⟩ := reached
      exact ⟨heard :: others, .cons hears hearsOthers, by simpa using stands⟩

theorem leads_body (reads : ∀ part ∈ parts, ReadsPart collection writePart hears sure part)
    (depth : Nat) (start : Start) (outer : List Frame) :
    Leads (∀ part ∈ parts, sure part) (.inside (collection.frame start [] .part :: outer))
      (writeBody collection writePart depth parts) fun next =>
        ∃ heard, List.Forall₂ hears parts heard ∧
          next = .inside outer (.held start (collection.datum heard)) := by
  cases parts with
  | nil =>
      apply (leads_closing .ready (Or.inl rfl)).mono id
      rintro _ rfl
      exact ⟨[], .nil, rfl⟩
  | cons part parts =>
      apply (leads_indent (collection.flow ..) (depth + 1)).append
      rintro _ rfl
      have first := reads part List.mem_cons_self (depth + 1) start [] outer
      apply (first.mono (fun all => all part List.mem_cons_self) fun _ reached => reached).append
      intro next reached
      obtain ⟨heard, hears, stands⟩ := reached
      have later := leads_parts (fun part member => reads part (List.mem_cons_of_mem _ member))
        (depth + 1) start [heard] outer stands
      apply (later.mono (fun all part member => all part (List.mem_cons_of_mem _ member))
        fun _ reached => reached).append
      intro next reached
      obtain ⟨others, hearsOthers, stands⟩ := reached
      apply (leads_newline stands (collection.flow ..) depth).append
      intro next stands
      apply (leads_closing stands (Or.inr rfl)).mono id
      rintro _ rfl
      exact ⟨heard :: others, .cons hears hearsOthers, by simp⟩

theorem leads_collection {around : Frame} {outer : List Frame} (flow : around.column? = none)
    (reads : ∀ part ∈ parts, ReadsPart collection writePart hears sure part) (depth : Nat) :
    Leads (∀ part ∈ parts, sure part) (.inside (around :: outer))
      ([collection.opening] ++ writeBody collection writePart depth parts) fun next =>
        ∃ start heard, List.Forall₂ hears parts heard ∧
          next = .inside (around :: outer) (.held start (collection.datum heard)) := by
  have opened : Leads (∀ part ∈ parts, sure part) (.inside (around :: outer)) [collection.opening]
      fun next => ∃ start, next = .inside (collection.frame start [] .part :: around :: outer) := by
    apply leads_char collection.steady.1
    intro place opens unmarked
    obtain ⟨start, stepped⟩ := collection.opens flow opens unmarked
    exact ⟨_, stepped, start, rfl⟩
  apply opened.append
  intro next reached
  obtain ⟨start, rfl⟩ := reached
  apply (leads_body reads depth start (around :: outer)).mono id
  intro next reached
  obtain ⟨heard, hears, same⟩ := reached
  exact ⟨start, heard, hears, same⟩

end

/-! ## Lists -/

theorem writeItems_eq_writeParts (depth : Nat) (items : List Datum) :
    writeItems depth items = writeParts write depth items := by
  induction items with
  | nil => rfl
  | cons item items ih => simp [writeItems, writeParts, ih]

theorem write_list (depth : Nat) (items : List Datum) :
    write depth (.list items) =
      [Collection.list.opening] ++ writeBody .list write depth items := by
  cases items with
  | nil => rfl
  | cons item items => simp [write, writeBody, writeItems_eq_writeParts, Collection.list]

theorem reads_list {items : List Datum} (reads : ∀ item ∈ items, Reads item) :
    Reads (.list items) := by
  intro depth frame outer taken flow takes
  have inner : Readable (.list items) → ∀ item ∈ items, Readable item := by
    intro readable
    cases readable with
    | list inner => exact inner
  have parts : ∀ item ∈ items, ReadsPart .list write Heard Readable item := by
    intro item member depth start done outer
    exact reads item member depth (.flowList start done .part) outer
      (fun heard => .flowList start (heard :: done) .separator) rfl fun _ => rfl
  rw [write_list]
  apply (leads_collection flow parts depth).mono inner
  intro next reached
  obtain ⟨start, heard, hears, rfl⟩ := reached
  exact ⟨.list heard, .list hears, .held start _ flow (takes _)⟩

/-! ## Tables -/

/-- What the field may be read as. -/
def HeardField (field heard : Scalar × Datum) : Prop :=
  HeardName field.1 heard.1 ∧ Heard field.2 heard.2

def FieldReadable (field : Scalar × Datum) : Prop :=
  isKey field.1.text = true ∧ Readable field.2

def writeField (depth : Nat) (field : Scalar × Datum) : List Char :=
  quote field.1.text ++ [':', ' '] ++ write depth field.2

theorem reads_field {field : Scalar × Datum} (reads : Reads field.2) :
    ReadsPart .table writeField HeardField FieldReadable field := by
  intro depth start done outer
  apply ((leads_key start done outer field.1.text).mono And.left fun _ reached => reached).append
  intro next reached
  obtain ⟨name, same, rfl⟩ := reached
  have value := reads depth (.flowTable start done (.value (.text name))) outer
    (fun heard => .flowTable start ((.ofText name, heard) :: done) .separator) rfl fun _ => rfl
  apply value.mono And.right
  intro next reached
  obtain ⟨heard, hears, stands⟩ := reached
  exact ⟨(.ofText name, heard), ⟨⟨name, rfl, same⟩, hears⟩, stands⟩

theorem writeFields_eq_writeParts (depth : Nat) (fields : List (Scalar × Datum)) :
    writeFields depth fields = writeParts writeField depth fields := by
  induction fields with
  | nil => rfl
  | cons field fields ih => simp [writeFields, writeParts, writeField, ih]

theorem write_table (depth : Nat) (fields : List (Scalar × Datum)) :
    write depth (.table fields) =
      [Collection.table.opening] ++ writeBody .table writeField depth fields := by
  cases fields with
  | nil => rfl
  | cons field fields =>
      simp [write, writeBody, writeField, writeFields_eq_writeParts, Collection.table]

theorem heard_table {fields heard : List (Scalar × Datum)}
    (hears : List.Forall₂ HeardField fields heard) : Heard (.table fields) (.table heard) :=
  .table (hears.imp fun _ _ both => both.1) (hears.imp fun _ _ both => both.2)

theorem Readable.fields {fields : List (Scalar × Datum)} (readable : Readable (.table fields)) :
    ∀ field ∈ fields, FieldReadable field := by
  cases readable with
  | table names inner => exact fun field member => ⟨names field member, inner field member⟩

theorem reads_table {fields : List (Scalar × Datum)} (reads : ∀ field ∈ fields, Reads field.2) :
    Reads (.table fields) := by
  intro depth frame outer taken flow takes
  have parts := fun field member => reads_field (reads field member)
  rw [write_table]
  apply (leads_collection flow parts depth).mono Readable.fields
  intro next reached
  obtain ⟨start, heard, hears, rfl⟩ := reached
  exact ⟨.table heard, heard_table hears, .held start _ flow (takes _)⟩

theorem reads_of_faithful {levels : Nat} {value : Datum} (faithful : Faithful levels value) :
    Reads value := by
  induction faithful with
  | null => exact reads_word rfl (by decide) nofun (by decide) (by decide)
  | truth value =>
      cases value with
      | true => exact reads_word rfl (by decide) nofun (by decide) (by decide)
      | false => exact reads_word rfl (by decide) nofun (by decide) (by decide)
  | @natural _ value small =>
      have written := Json.toList_toString value
      have noText : (Scalar.ofNat value).meaning ≠ .text := Meaning.noConfusion
      apply reads_word rfl (plain_toString small) noText
      · exact fun empty => Nat.toDigits_ne_nil (written.symm.trans empty)
      · apply List.all_eq_true.mpr
        intro char member
        have digit : char.isDigit = true := Json.numeral_isDigit (written ▸ member)
        simp [Char.isAlphanum, digit]
  | text value => exact reads_text value
  | list _ ih => exact reads_list ih
  | table _ _ ih => exact reads_table ih

end FlowLink.Yaml
