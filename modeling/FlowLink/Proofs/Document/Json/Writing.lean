import FlowLink.Proofs.Document.Json.Number
import FlowLink.Proofs.Document.Json.Scanning

namespace FlowLink.Json

/-! # What is written scans to its tokens

Writing a value and reading it meet at its tokens.  Here what is written is shown to scan to them,
for the values that JSON can say, which `Faithful` describes.
-/

/-- The name is read back as it was, so that it means a number exactly if it is written as one. -/
def FaithfulName (name : Scalar) : Prop := fieldName name.text (spelling name.text.toList) = name

/-- JSON can say the value, whose lists and tables are not nested deeper than this many levels. -/
inductive Faithful : Nat → Datum → Prop
  | null {levels : Nat} : Faithful levels .null
  | truth {levels : Nat} (value : Bool) : Faithful levels (.truth value)
  | natural {levels value : Nat} (small : value < wordLimit) : Faithful levels (.natural value)
  | text {levels : Nat} (value : String) : Faithful levels (.text value)
  | list {levels : Nat} {items : List Datum} (inner : ∀ item ∈ items, Faithful levels item) :
      Faithful (levels + 1) (.list items)
  | table {levels : Nat} {fields : List (Scalar × Datum)}
      (names : ∀ field ∈ fields, FaithfulName field.1)
      (inner : ∀ field ∈ fields, Faithful levels field.2) : Faithful (levels + 1) (.table fields)

theorem faithfulName_ofText {text : String} (noNumber : idName? text.toList = none) :
    FaithfulName (.ofText text) := by
  unfold FaithfulName spelling
  split <;> simp [Scalar.ofText, fieldName, noNumber]

theorem endsWord_of_isDigit {char : Char} (digit : char.isDigit = true) :
    Scanner.endsWord char = false := by
  cases ends : Scanner.endsWord char with
  | false => rfl
  | true =>
      simp only [Scanner.endsWord, isBlank, Bool.or_eq_true, decide_eq_true_eq] at ends
      rcases ends with ((((rfl | rfl) | rfl) | rfl) | rfl) | means
      · contradiction
      · contradiction
      · contradiction
      · contradiction
      · contradiction
      · unfold punctuation? at means
        split at means <;> contradiction

theorem isPlain_of_isDigit {char : Char} (digit : char.isDigit = true) : isPlain char = true := by
  have code : 48 ≤ char.toNat := by
    simp only [Char.isDigit, Bool.and_eq_true, decide_eq_true_eq] at digit
    exact digit.1
  have noQuote : char ≠ '"' := by
    intro same
    rw [same] at digit
    contradiction
  have noBackslash : char ≠ '\\' := by
    intro same
    rw [same] at digit
    contradiction
  have printable : 0x20 ≤ char.toNat := by omega
  simp [isPlain, noQuote, noBackslash, printable]

theorem faithfulName_ofNat {value : Nat} (small : value < wordLimit) :
    FaithfulName (.ofNat value) := by
  have written : (Scalar.ofNat value).text.toList = numeral value := toList_toString value
  have plain : (numeral value).all isPlain = true :=
    List.all_eq_true.mpr fun _ member => isPlain_of_isDigit (numeral_isDigit member)
  rw [FaithfulName, written, spelling, if_pos plain]
  simp only [fieldName, written, idName?_numeral small]
  rfl

theorem faithful_items {α : Type} {levels : Nat} {encode : α → Datum} {items : List α}
    (inner : ∀ item ∈ items, Faithful levels (encode item)) :
    Faithful (levels + 1) (.list (items.map encode)) := by
  apply Faithful.list
  intro written member
  obtain ⟨item, listed, rfl⟩ := List.mem_map.mp member
  exact inner item listed

theorem faithful_entries {α κ : Type} {levels : Nat} {order : FieldOrder} {index : κ → Nat}
    {encode : κ → α → Datum} {entries : List (κ × α)}
    (small : ∀ entry ∈ entries, index entry.1 < wordLimit)
    (inner : ∀ entry ∈ entries, Faithful levels (encode entry.1 entry.2)) :
    Faithful (levels + 1) (order.table index encode entries) := by
  apply Faithful.table
  · intro written member
    obtain ⟨entry, listed, rfl⟩ := List.mem_map.mp ((order.perm _).mem_iff.mp member)
    exact faithfulName_ofNat (small entry listed)
  · intro written member
    obtain ⟨entry, listed, rfl⟩ := List.mem_map.mp ((order.perm _).mem_iff.mp member)
    exact inner entry listed

theorem faithful_record {levels : Nat} {fields : List (String × Datum)} (names : List String)
    (named : fields.map Prod.fst = names)
    (noNumber : (names.all fun name => (idName? name.toList).isNone) = true)
    (inner : ∀ field ∈ fields, Faithful levels field.2) :
    Faithful (levels + 1) (.record fields) := by
  apply Faithful.table
  · intro written member
    obtain ⟨field, listed, rfl⟩ := List.mem_map.mp member
    have isName : field.1 ∈ names := named ▸ List.mem_map_of_mem listed
    have word := List.all_eq_true.mp noNumber field.1 isName
    exact faithfulName_ofText (Option.isNone_iff_eq_none.mp word)
  · intro written member
    obtain ⟨field, listed, rfl⟩ := List.mem_map.mp member
    exact inner field listed

mutual

def tokens : Datum → List Token
  | .scalar value =>
    [match value.meaning with
      | .text => .quoted value.text (spelling value.text.toList)
      | _ => .word value]
  | .list [] => [.openList, .closeList]
  | .list (item :: items) => .openList :: tokens item ++ tokensOfItems items ++ [.closeList]
  | .table [] => [.openTable, .closeTable]
  | .table ((name, value) :: fields) =>
    .openTable :: .quoted name.text (spelling name.text.toList) :: .colon :: tokens value
      ++ tokensOfFields fields ++ [.closeTable]

def tokensOfItems : List Datum → List Token
  | [] => []
  | item :: items => .comma :: tokens item ++ tokensOfItems items

def tokensOfFields : List (Scalar × Datum) → List Token
  | [] => []
  | (name, value) :: fields =>
    .comma :: .quoted name.text (spelling name.text.toList) :: .colon :: tokens value
      ++ tokensOfFields fields

end

def Scans (value : Datum) : Prop :=
  ∀ depth done rest, Delimited rest →
    scan done (write depth value ++ rest) = scan ((tokens value).reverse ++ done) rest

theorem delimited_newline (depth : Nat) (rest : List Char) : Delimited (newline depth ++ rest) :=
  delimited_cons (by decide)

theorem delimited_writeItems {depth : Nat} {items : List Datum} {rest : List Char}
    (delimited : Delimited rest) : Delimited (writeItems depth items ++ rest) := by
  cases items with
  | nil => simpa [writeItems] using delimited
  | cons item items =>
      rw [writeItems]
      exact delimited_cons (by decide)

theorem delimited_writeFields {depth : Nat} {fields : List (Scalar × Datum)} {rest : List Char}
    (delimited : Delimited rest) : Delimited (writeFields depth fields ++ rest) := by
  cases fields with
  | nil => simpa [writeFields] using delimited
  | cons field fields =>
      rw [writeFields]
      exact delimited_cons (by decide)

theorem scan_writeItems {items : List Datum} (scans : ∀ item ∈ items, Scans item) (depth : Nat)
    (done : List Token) {rest : List Char} (delimited : Delimited rest) :
    scan done (writeItems depth items ++ rest) =
      scan ((tokensOfItems items).reverse ++ done) rest := by
  induction items generalizing done with
  | nil => rfl
  | cons item items ih =>
      have later := ih fun item member => scans item (List.mem_cons_of_mem _ member)
      simp only [writeItems, tokensOfItems, List.cons_append, List.append_assoc]
      rw [scan_punctuation ',' rfl, scan_newline, scans item List.mem_cons_self depth _ _
        (delimited_writeItems delimited), later]
      simp

theorem scan_field {value : Datum} (scans : Scans value) (name : String) (depth : Nat)
    (done : List Token) {rest : List Char} (delimited : Delimited rest) :
    scan done (newline depth ++ (quote name ++ ':' :: ' ' :: (write depth value ++ rest))) =
      scan ((tokens value).reverse ++ .colon :: .quoted name (spelling name.toList) :: done)
        rest := by
  rw [scan_newline, scan_quote, scan_punctuation ':' rfl, scan_blank (by decide),
    scans depth _ _ delimited]

theorem scan_writeFields {fields : List (Scalar × Datum)}
    (scans : ∀ field ∈ fields, Scans field.2) (depth : Nat) (done : List Token) {rest : List Char}
    (delimited : Delimited rest) :
    scan done (writeFields depth fields ++ rest) =
      scan ((tokensOfFields fields).reverse ++ done) rest := by
  induction fields generalizing done with
  | nil => rfl
  | cons field fields ih =>
      have later := ih fun field member => scans field (List.mem_cons_of_mem _ member)
      simp only [writeFields, tokensOfFields, List.cons_append, List.append_assoc, List.nil_append]
      rw [scan_punctuation ',' rfl,
        scan_field (scans field List.mem_cons_self) _ _ _ (delimited_writeFields delimited), later]
      simp

theorem scans_word {value : Scalar} (written : writeScalar value = value.text.toList)
    (noText : value.meaning ≠ .text) (means : word? value.text.toList = some value)
    (nonempty : value.text.toList ≠ [])
    (within : value.text.toList.any Scanner.endsWord = false) : Scans (.scalar value) := by
  intro depth done rest delimited
  have goesOn : ∀ char ∈ value.text.toList, Scanner.endsWord char = false := by
    simpa using within
  have token : tokens (.scalar value) = [.word value] := by
    unfold tokens
    cases meaning : value.meaning <;> first | rfl | contradiction
  rw [write, written, scan_word means nonempty goesOn delimited, token]
  rfl

theorem scans_text (value : String) : Scans (.text value) := by
  intro depth done rest _
  exact scan_quote value

theorem scans_natural {value : Nat} (small : value < wordLimit) : Scans (.natural value) := by
  apply scans_word
  · rfl
  · simp [Scalar.ofNat]
  · exact (congrArg word? (toList_toString value)).trans (word?_numeral small)
  · exact fun empty => Nat.toDigits_ne_nil ((toList_toString value).symm.trans empty)
  · apply List.any_eq_false.mpr
    intro char member
    have digit : char ∈ numeral value := toList_toString value ▸ member
    simp [endsWord_of_isDigit (numeral_isDigit digit)]

theorem scans_list {items : List Datum} (scans : ∀ item ∈ items, Scans item) :
    Scans (.list items) := by
  intro depth done rest delimited
  cases items with
  | nil =>
      simp only [write, tokens, List.cons_append, List.nil_append]
      rw [scan_punctuation '[' rfl, scan_punctuation ']' rfl]
      rfl
  | cons item items =>
      have later : ∀ item ∈ items, Scans item :=
        fun item member => scans item (List.mem_cons_of_mem _ member)
      simp only [write, tokens, List.cons_append, List.append_assoc, List.nil_append]
      rw [scan_punctuation '[' rfl, scan_newline, scans item List.mem_cons_self _ _ _
        (delimited_writeItems (delimited_newline _ _)),
        scan_writeItems later _ _ (delimited_newline _ _), scan_newline, scan_punctuation ']' rfl]
      simp

theorem scans_table {fields : List (Scalar × Datum)} (scans : ∀ field ∈ fields, Scans field.2) :
    Scans (.table fields) := by
  intro depth done rest delimited
  cases fields with
  | nil =>
      simp only [write, tokens, List.cons_append, List.nil_append]
      rw [scan_punctuation '\x7b' rfl, scan_punctuation '\x7d' rfl]
      rfl
  | cons field fields =>
      have later : ∀ field ∈ fields, Scans field.2 :=
        fun field member => scans field (List.mem_cons_of_mem _ member)
      simp only [write, tokens, List.cons_append, List.append_assoc, List.nil_append]
      rw [scan_punctuation '\x7b' rfl,
        scan_field (scans field List.mem_cons_self) _ _ _
          (delimited_writeFields (delimited_newline _ _)),
        scan_writeFields later _ _ (delimited_newline _ _), scan_newline,
        scan_punctuation '\x7d' rfl]
      simp

theorem Faithful.scans {levels : Nat} {value : Datum} (faithful : Faithful levels value) :
    Scans value := by
  induction faithful with
  | null => exact scans_word rfl (by decide) (by decide) (by decide) (by decide)
  | truth value =>
      cases value <;>
        exact scans_word rfl (by decide) (by decide) (by decide) (by decide)
  | natural small => exact scans_natural small
  | text value => exact scans_text value
  | list _ ih => exact scans_list ih
  | table _ _ ih => exact scans_table ih

end FlowLink.Json
