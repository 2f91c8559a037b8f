import FlowLink.Proofs.Document.Decoding
import FlowLink.Proofs.Document.Yaml.Document

namespace FlowLink.Yaml

open Json (Faithful pretty write)

/-! # Records and tables of ids

The JSON of records is read as the same records.  In JSON the ids that name the fields of a table
stand in quotes like all names, so YAML reads them as texts, which are no ids.
-/

variable {value heard : Datum} {fields : List (String × Datum)}

theorem Heard.of_table {fields : List (Scalar × Datum)} (hears : Heard (.table fields) heard) :
    ∃ others, heard = .table others ∧ List.Forall₂ HeardField fields others := by
  cases hears with
  | @table _ others names inner =>
      refine ⟨others, rfl, ?_⟩
      induction names with
      | nil => exact .nil
      | cons name _ ih =>
          cases inner with
          | cons value inner => exact .cons ⟨name, value⟩ (ih inner)

theorem heard_scalar_iff {value : Scalar} (word : value.meaning ≠ .text) :
    Heard (.scalar value) heard ↔ heard = .scalar value := by
  constructor
  · intro hears
    cases hears with
    | scalar => rfl
    | text => exact absurd rfl word
  · rintro rfl
    exact .scalar word

theorem heard_text_iff {text : String} :
    Heard (.text text) heard ↔ ∃ other, HeardText text other ∧ heard = .text other := by
  constructor
  · intro hears
    cases hears with
    | scalar word => exact absurd rfl word
    | text hears => exact ⟨_, hears, rfl⟩
  · rintro ⟨other, hears, rfl⟩
    exact .text hears

theorem heard_empty_iff : Heard (.table []) heard ↔ heard = .table [] := by
  constructor
  · intro hears
    obtain ⟨_, rfl, all⟩ := hears.of_table
    cases all
    rfl
  · rintro rfl
    exact .table .nil .nil

/-- A field with a name that is read for sure keeps this name. -/
def HeardEntry (field heard : String × Datum) : Prop := heard.1 = field.1 ∧ Heard field.2 heard.2

theorem heardEntry_iff {name : String} {entry : String × Datum} :
    HeardEntry (name, value) entry ↔ ∃ heard, Heard value heard ∧ entry = (name, heard) := by
  constructor
  · rintro ⟨named, hears⟩
    exact ⟨entry.2, hears, Prod.ext named rfl⟩
  · rintro ⟨heard, hears, rfl⟩
    exact ⟨rfl, hears⟩

theorem Heard.of_record (keys : ∀ field ∈ fields, isKey field.1 = true)
    (hears : Heard (.record fields) heard) :
    ∃ entries, heard = .record entries ∧ List.Forall₂ HeardEntry fields entries := by
  obtain ⟨others, rfl, all⟩ := hears.of_table
  clear hears
  induction fields generalizing others with
  | nil =>
      cases all
      exact ⟨[], rfl, .nil⟩
  | cons field fields ih =>
      cases all with
      | @cons _ other _ others first rest =>
          obtain ⟨⟨text, named, same⟩, inner⟩ := first
          obtain ⟨entries, written, all⟩ :=
            ih (fun field member => keys field (List.mem_cons_of_mem _ member)) others rest
          have kept : text = field.1 := same (keys field List.mem_cons_self)
          have first : other = (.ofText text, other.2) := Prod.ext named rfl
          refine ⟨(text, other.2) :: entries, ?_, .cons ⟨kept, inner⟩ all⟩
          rw [first, Datum.table.inj written]
          rfl

/-- The values that a decoder takes from a record are those heard of its values. -/
theorem fields_heard (dialect : Dialect) (names : List String)
    (named : fields.map Prod.fst = names) (nodup : names.Nodup) (keys : names.all isKey = true)
    (hears : Heard (.record fields) heard) :
    ∃ values, heard = .record (names.zip values) ∧
      dialect.fields names heard = some (values.map some) ∧
      List.Forall₂ Heard (fields.map Prod.snd) values := by
  subst named
  rw [List.all_map, List.all_eq_true] at keys
  obtain ⟨entries, rfl, all⟩ := hears.of_record keys
  have names : entries.map Prod.fst = fields.map Prod.fst := by
    clear nodup keys hears
    induction all with
    | nil => rfl
    | cons first _ ih => rw [List.map_cons, List.map_cons, first.1, ih]
  refine ⟨entries.map Prod.snd, ?_, ?_, ?_⟩
  · rw [← names, ← List.zip_of_prod rfl rfl]
  · rw [← names, Dialect.fields_whole_record entries (names ▸ nodup), List.map_map]
    rfl
  · rw [List.forall₂_map_left_iff, List.forall₂_map_right_iff]
    exact all.imp fun _ _ hears => hears.2

/-! ## Records -/

/-- All tables in the document are records whose fields are found by their names. -/
inductive Recorded : Datum → Prop
  | scalar (value : Scalar) : Recorded (.scalar value)
  | list {items : List Datum} (inner : ∀ item ∈ items, Recorded item) : Recorded (.list items)
  | record {fields : List (String × Datum)} (keys : ∀ field ∈ fields, isKey field.1 = true)
      (inner : ∀ field ∈ fields, Recorded field.2) : Recorded (.record fields)

theorem Recorded.of_table {fields : List (Scalar × Datum)} (recorded : Recorded (.table fields)) :
    (∀ field ∈ fields, isKey field.1.text = true) ∧ ∀ field ∈ fields, Recorded field.2 := by
  cases recorded with
  | record keys inner => exact ⟨List.forall_mem_map.mpr keys, List.forall_mem_map.mpr inner⟩

theorem recorded_items {α : Type} {encode : α → Datum} (recorded : ∀ item, Recorded (encode item))
    (items : List α) : Recorded (.list (items.map encode)) := by
  apply Recorded.list
  intro value member
  obtain ⟨item, _, rfl⟩ := List.mem_map.mp member
  exact recorded item

theorem recorded_record (names : List String) (named : fields.map Prod.fst = names)
    (keys : names.all isKey = true) (inner : ∀ field ∈ fields, Recorded field.2) :
    Recorded (.record fields) := by
  apply Recorded.record _ inner
  intro field member
  exact List.all_eq_true.mp keys field.1 (named ▸ List.mem_map_of_mem member)

theorem recorded_empty : Recorded (.table []) := by
  have record : Recorded (.record []) := recorded_record [] rfl rfl (by simp)
  exact record

theorem Recorded.readable (recorded : Recorded value) (legible : isLegibleDatum value = true) :
    Readable value := by
  induction recorded with
  | scalar value => exact .scalar legible
  | list _ ih =>
      have inner := Datum.allScalars_list.mp legible
      exact .list fun item member => ih item member (inner item member)
  | @record fields keys _ ih =>
      have inner := Datum.allScalars_table.mp legible
      rw [List.forall_mem_map] at inner
      apply Readable.table
      · exact List.forall_mem_map.mpr keys
      · exact List.forall_mem_map.mpr fun field member => ih field member (inner field member).2

theorem eq_of_forall₂ {α : Type} {hears : α → α → Prop} {parts heard : List α}
    (same : ∀ part ∈ parts, ∀ other, hears part other → other = part)
    (all : List.Forall₂ hears parts heard) : heard = parts := by
  induction all with
  | nil => rfl
  | @cons part other _ _ first _ ih =>
      rw [same part List.mem_cons_self other first,
        ih fun part member => same part (List.mem_cons_of_mem _ member)]

theorem Recorded.eq_of_heard (recorded : Recorded value) (legible : isLegibleDatum value = true)
    (hears : Heard value heard) : heard = value := by
  induction recorded generalizing heard with
  | scalar value =>
      cases hears with
      | scalar => rfl
      | text hears =>
          have kept := (Bool.and_eq_true_iff.mp legible).2
          exact congrArg Datum.text (hears.eq_of_isKept kept)
  | list _ ih =>
      have inner := Datum.allScalars_list.mp legible
      cases hears with
      | list all =>
          exact congrArg Datum.list
            (eq_of_forall₂ (fun item member _ => ih item member (inner item member)) all)
  | @record fields keys _ ih =>
      have inner := Datum.allScalars_table.mp legible
      rw [List.forall_mem_map] at inner
      obtain ⟨others, rfl, all⟩ := hears.of_record keys
      have same : ∀ field ∈ fields, ∀ other, HeardEntry field other → other = field := by
        intro field member other hears
        exact Prod.ext hears.1 (ih field member (inner field member).2 hears.2)
      rw [eq_of_forall₂ same all]

/-- What is read as itself is legible, down to its last string. -/
theorem Recorded.legible_of_heard {levels depth : Nat} (recorded : Recorded value)
    (faithful : Faithful levels value) (hears : Heard value value)
    (allowed : ∀ char ∈ write depth value, isAllowed char = true) :
    isLegibleDatum value = true := by
  induction faithful generalizing depth with
  | null =>
      have legible : isLegible "null" = true := by decide
      exact legible
  | truth value =>
      have legible : ∀ value : Bool, isLegible (if value then "true" else "false") = true := by
        decide
      exact legible value
  | @natural _ value _ =>
      have legible : isLegible (toString value) = true := by
        apply isLegible_of_word
        rw [Json.toList_toString, List.all_eq_true]
        intro char member
        simp [Char.isAlphanum, Json.numeral_isDigit member]
      exact legible
  | text value =>
      have kept : isKept value.toList = true := by
        cases hears with
        | scalar word => exact absurd rfl word
        | text same => exact heardText_self_iff.mp same
      exact Bool.and_eq_true_iff.mpr ⟨isSpellable_of_quote allowed, kept⟩
  | list _ ih =>
      cases recorded with
      | list recorded =>
          cases hears with
          | list inner =>
              rw [List.forall₂_same] at inner
              rw [write_list] at allowed
              apply Datum.allScalars_list.mpr
              intro item listed
              exact ih item listed (recorded item listed) (inner item listed) fun char written =>
                allowed char (List.mem_append_right _ (mem_writeBody listed written))
  | @table _ fields _ _ ih =>
      obtain ⟨keys, recorded⟩ := recorded.of_table
      cases hears with
      | table _ inner =>
          rw [List.forall₂_same] at inner
          rw [write_table] at allowed
          apply Datum.allScalars_table.mpr
          intro field listed
          refine ⟨isLegible_of_isKey (keys field listed), ?_⟩
          exact ih field listed (recorded field listed) (inner field listed) fun char written =>
            allowed char (List.mem_append_right _
              (mem_writeBody listed (List.mem_append_right _ written)))

/-- The records that YAML reads as they are are those whose strings are all legible. -/
theorem read?_eq_some_iff {fields : List (Scalar × Datum)}
    (faithful : Faithful depthLimit (.table fields)) (recorded : Recorded (.table fields)) :
    read? (pretty (.table fields)) = some (.table fields) ↔
      isLegibleDatum (.table fields) = true := by
  constructor
  · intro read
    rcases read?_pretty faithful with ⟨heard, hears, found⟩ | ⟨_, unread⟩
    · rw [read] at found
      rw [← Option.some.inj found] at hears
      exact recorded.legible_of_heard faithful hears (allowed_of_read? read)
    · rw [read] at unread
      contradiction
  · intro legible
    rcases read?_pretty faithful with ⟨heard, hears, read⟩ | ⟨unreadable, _⟩
    · rw [read, recorded.eq_of_heard legible hears]
    · exact absurd (recorded.readable legible) unreadable

/-- A next-line character, which is not legible, comes back as a blank. -/
example : read? (pretty (.record [("name", .text "\u0085")])) =
    some (.record [("name", .text " ")]) := by cbv

/-! ## Tables of ids -/

theorem arrange_eq_nil_iff (order : FieldOrder) (fields : List (Scalar × Datum)) :
    order.arrange fields = [] ↔ fields = [] := by
  rw [← List.length_eq_zero_iff, (order.perm fields).length_eq, List.length_eq_zero_iff]

theorem mapOf_heard {α β ι κ : Type} [Ord κ] [Std.TransOrd κ] {dialect : Dialect} {key : Nat → κ}
    {decode : Datum → Option α} {order : FieldOrder} {index : ι → Nat} {encode : ι → β → Datum}
    {entries : List (ι × β)} (nonempty : entries ≠ [])
    (hears : Heard (order.table index encode entries) heard) :
    dialect.mapOf key decode heard = none := by
  obtain ⟨others, rfl, all⟩ := hears.of_table
  cases others with
  | nil =>
      have empty := List.forall₂_nil_right_iff.mp all
      rw [arrange_eq_nil_iff, List.map_eq_nil_iff] at empty
      contradiction
  | cons other others =>
      obtain ⟨_, _, ⟨⟨text, named, _⟩, _⟩, _⟩ := List.forall₂_cons_right_iff.mp all
      have unread : Dialect.mapEntry key decode other = none := by
        rw [Dialect.mapEntry, named]
        rfl
      simp [Dialect.mapOf, Dialect.entries, List.mapM_cons, unread]

theorem table_nil {ι β : Type} (order : FieldOrder) (index : ι → Nat) (encode : ι → β → Datum) :
    order.table index encode [] = .table [] := by
  rw [FieldOrder.table, (arrange_eq_nil_iff order _).mpr List.map_nil]

/-! ## Decoding what is heard -/

/-- Of all that may be heard of the value, only the value itself is decoded as the item. -/
def Settles {α : Type} (decode : Datum → Option α) (item : α) (value : Datum) : Prop :=
  ∀ heard, Heard value heard → decode heard = some item → heard = value

theorem eq_map_of_heard {α : Type} {encode : α → Datum} {decode : Datum → Option α}
    {items : List α} {heard : List Datum}
    (settles : ∀ item ∈ items, Settles decode item (encode item))
    (all : List.Forall₂ Heard (items.map encode) heard)
    (decoded : heard.mapM decode = some items) : heard = items.map encode := by
  induction items generalizing heard with
  | nil =>
      cases all
      rfl
  | cons item items ih =>
      cases all with
      | @cons _ first _ heard hears all =>
          simp only [List.mapM_cons, bind, pure, Option.bind_eq_some_iff, Option.some.injEq,
            List.cons.injEq] at decoded
          obtain ⟨_, one, _, others, rfl, rfl⟩ := decoded
          rw [List.map_cons, settles _ List.mem_cons_self first hears one,
            ih (fun item member => settles item (List.mem_cons_of_mem _ member)) all others]

theorem settles_items {α : Type} {dialect : Dialect} {encode : α → Datum}
    {decode : Datum → Option α} {items : List α}
    (settles : ∀ item ∈ items, Settles decode item (encode item)) :
    Settles (dialect.listOf decode) items (.list (items.map encode)) := by
  intro heard hears decoded
  cases hears with
  | list all => exact congrArg Datum.list (eq_map_of_heard settles all decoded)

/-- A record is settled if the values of its fields are. -/
theorem settles_record {α : Type} {dialect : Dialect} {decode : Datum → Option α} {item : α}
    (names : List String) (named : fields.map Prod.fst = names) (nodup : names.Nodup)
    (keys : names.all isKey = true)
    (settles : ∀ heard values, dialect.fields names heard = some (values.map some) →
      decode heard = some item → List.Forall₂ Heard (fields.map Prod.snd) values →
        values = fields.map Prod.snd) :
    Settles decode item (.record fields) := by
  intro heard hears decoded
  obtain ⟨values, same, found, all⟩ := fields_heard dialect names named nodup keys hears
  rw [same, settles heard values found decoded all, ← named, ← List.zip_of_prod rfl rfl]

end FlowLink.Yaml
