import FlowLink.Proofs.Document.Datum
import FlowLink.Proofs.Document.Json.Writing

namespace FlowLink.Json

open Reader

/-! # Reading what is written

The tokens of a value are read as the value, wherever a value may stand.  So what is written is read
back, unless it is nested so deep that the reader gives it up.
-/

def Reads (value : Datum) : Prop :=
  ∀ frames due, due = .value ∨ due = .valueOrClose →
    (tokens value).foldlM step (inside frames due) = deliver value frames

theorem read_cons {reader next : Reader} {token : Token} {rest : List Token}
    (steps : step reader token = some next) :
    (token :: rest).foldlM step reader = rest.foldlM step next := by
  rw [List.foldlM_cons, steps]
  rfl

theorem read_append {reader next : Reader} {first rest : List Token}
    (reads : first.foldlM step reader = some next) :
    (first ++ rest).foldlM step reader = rest.foldlM step next := by
  rw [List.foldlM_append, reads]
  rfl

theorem read_single (reader : Reader) (token : Token) :
    [token].foldlM step reader = step reader token := by simp

theorem read_items {items : List Datum} (reads : ∀ item ∈ items, Reads item)
    (before : List Datum) (outer : List Frame) :
    (tokensOfItems items).foldlM step (inside (.list before :: outer) .commaOrClose) =
      some (inside (.list (items.reverse ++ before) :: outer) .commaOrClose) := by
  induction items generalizing before with
  | nil => rfl
  | cons item items ih =>
      have first := reads item List.mem_cons_self (.list before :: outer) .value (Or.inl rfl)
      have later := ih (fun item member => reads item (List.mem_cons_of_mem _ member))
        (item :: before)
      have comma : step (inside (.list before :: outer) .commaOrClose) .comma =
          some (inside (.list before :: outer) .value) := rfl
      rw [tokensOfItems, List.cons_append, read_cons comma, read_append first, later]
      simp

theorem read_field {name : Scalar} {value : Datum} (faithful : FaithfulName name)
    (reads : Reads value) (before : List (Scalar × Datum)) (outer : List Frame)
    {due : Due} (named : due = .name ∨ due = .nameOrClose) :
    (.quoted name.text (spelling name.text.toList) :: .colon :: tokens value).foldlM step
        (inside (.table before :: outer) due) =
      some (inside (.table ((name, value) :: before) :: outer) .commaOrClose) := by
  have taken : step (inside (.table before :: outer) due)
        (.quoted name.text (spelling name.text.toList)) =
      some (inside (.field before name :: outer) .colon) := by
    have same : takeName (.table before :: outer) (.quoted name.text (spelling name.text.toList)) =
        some (inside (.field before name :: outer) .colon) := by
      rw [takeName, faithful]
    rcases named with rfl | rfl <;> exact same
  have colon : step (inside (.field before name :: outer) .colon) .colon =
      some (inside (.field before name :: outer) .value) := rfl
  rw [read_cons taken, read_cons colon, reads _ _ (Or.inl rfl)]
  rfl

theorem read_fields {fields : List (Scalar × Datum)}
    (names : ∀ field ∈ fields, FaithfulName field.1) (reads : ∀ field ∈ fields, Reads field.2)
    (before : List (Scalar × Datum)) (outer : List Frame) :
    (tokensOfFields fields).foldlM step (inside (.table before :: outer) .commaOrClose) =
      some (inside (.table (fields.reverse ++ before) :: outer) .commaOrClose) := by
  induction fields generalizing before with
  | nil => rfl
  | cons field fields ih =>
      have first := read_field (names field List.mem_cons_self) (reads field List.mem_cons_self)
        before outer (Or.inl rfl)
      have later := ih (fun field member => names field (List.mem_cons_of_mem _ member))
        (fun field member => reads field (List.mem_cons_of_mem _ member)) (field :: before)
      have comma : step (inside (.table before :: outer) .commaOrClose) .comma =
          some (inside (.table before :: outer) .name) := rfl
      rw [tokensOfFields, List.cons_append, List.cons_append, List.cons_append, read_cons comma,
        ← List.cons_append, ← List.cons_append, read_append first, later]
      simp

theorem reads_list {items : List Datum} (reads : ∀ item ∈ items, Reads item) :
    Reads (.list items) := by
  intro frames due mayBegin
  have opens : step (inside frames due) .openList =
      some (inside (.list [] :: frames) .valueOrClose) := by
    rcases mayBegin with rfl | rfl <;> rfl
  cases items with
  | nil =>
      rw [tokens, read_cons opens, read_single]
      rfl
  | cons item items =>
      have first : (tokens item).foldlM step (inside (.list [] :: frames) .valueOrClose) =
          some (inside (.list [item] :: frames) .commaOrClose) :=
        reads item List.mem_cons_self _ _ (Or.inr rfl)
      have later := read_items (fun item member => reads item (List.mem_cons_of_mem _ member))
        [item] frames
      rw [tokens, List.cons_append, List.cons_append, List.append_assoc, read_cons opens,
        read_append first, read_append later, read_single]
      simp [step, close]

theorem reads_table {fields : List (Scalar × Datum)}
    (names : ∀ field ∈ fields, FaithfulName field.1) (reads : ∀ field ∈ fields, Reads field.2) :
    Reads (.table fields) := by
  intro frames due mayBegin
  have opens : step (inside frames due) .openTable =
      some (inside (.table [] :: frames) .nameOrClose) := by
    rcases mayBegin with rfl | rfl <;> rfl
  cases fields with
  | nil =>
      rw [tokens, read_cons opens, read_single]
      rfl
  | cons field fields =>
      have first := read_field (names field List.mem_cons_self) (reads field List.mem_cons_self)
        [] frames (Or.inr rfl)
      have later := read_fields (fun field member => names field (List.mem_cons_of_mem _ member))
        (fun field member => reads field (List.mem_cons_of_mem _ member)) [field] frames
      rw [tokens]
      simp only [List.cons_append, List.append_assoc]
      rw [read_cons opens, ← List.cons_append, ← List.cons_append, read_append first,
        read_append later, read_single]
      simp [step, close]

theorem stringValue_spelling (text : String) (chars : List Char) :
    stringValue text (spelling chars) = .ofText text := by
  unfold stringValue spelling
  cases chars.all isPlain <;> rfl

theorem Faithful.reads {levels : Nat} {value : Datum} (faithful : Faithful levels value) :
    Reads value := by
  induction faithful with
  | null =>
      intro frames due mayBegin
      rcases mayBegin with rfl | rfl <;> exact read_single _ _
  | truth value =>
      intro frames due mayBegin
      rcases mayBegin with rfl | rfl <;> exact read_single _ _
  | natural small =>
      intro frames due mayBegin
      rcases mayBegin with rfl | rfl <;> exact read_single _ _
  | text value =>
      intro frames due mayBegin
      have token : tokens (.text value) = [.quoted value (spelling value.toList)] := rfl
      have begins : beginValue frames (.quoted value (spelling value.toList)) =
          deliver (.text value) frames := by
        rw [beginValue, stringValue_spelling]
        rfl
      rw [token, read_single]
      rcases mayBegin with rfl | rfl <;> exact begins
  | list _ ih => exact reads_list ih
  | table names _ ih => exact reads_table names ih

theorem ofTokens?_tokens {levels : Nat} {value : Datum} (faithful : Faithful levels value) :
    ofTokens? (tokens value) = some value := by
  rw [ofTokens?, start, faithful.reads _ _ (Or.inl rfl)]
  rfl

theorem tokens?_write {levels : Nat} {value : Datum} (faithful : Faithful levels value) :
    tokens? (write 0 value) = some (tokens value) := by
  have scanned := faithful.scans 0 [] [] delimited_nil
  simp only [List.append_nil] at scanned
  change scan [] (write 0 value) = _
  rw [scanned]
  simp [scan, Scanner.finish]

theorem Faithful.cut {levels : Nat} {value : Datum} (faithful : Faithful levels value) :
    value.cut levels = value := by
  induction faithful with
  | null => rfl
  | truth value => rfl
  | natural small => rfl
  | text value => rfl
  | list _ ih =>
      rw [Datum.cut, Datum.cutItems_eq_map, List.map_congr_left ih, List.map_id']
  | @table levels fields _ _ ih =>
      have same : ∀ field ∈ fields, (field.1, field.2.cut levels) = field :=
        fun field member => Prod.ext rfl (ih field member)
      rw [Datum.cut, Datum.cutFields_eq_map, List.map_congr_left same, List.map_id']

/-- What JSON can say is read back as it was written, without the values that are too deep. -/
theorem read?_pretty_eq_cut {levels : Nat} {value : Datum} (faithful : Faithful levels value) :
    read? (pretty value) = some (value.cut depthLimit) := by
  rw [read?, pretty, String.toList_ofList, tokens?_write faithful, Option.bind_some,
    ofTokens?_tokens faithful, Option.map_some]

theorem read?_pretty {value : Datum} (faithful : Faithful depthLimit value) :
    read? (pretty value) = some value := by
  rw [read?_pretty_eq_cut faithful, faithful.cut]

end FlowLink.Json
