import FlowLink.Document.Datum

namespace FlowLink.Datum

/-! # Parts of documents

What is defined by recursion on a document, for the parts of its lists and tables at once.
-/

theorem allScalarsOfItems_eq_all (test : Scalar → Bool) (items : List Datum) :
    allScalarsOfItems test items = items.all (allScalars test) := by
  induction items with
  | nil => rfl
  | cons item items ih => rw [allScalarsOfItems, ih, List.all_cons]

theorem allScalarsOfFields_eq_all (test : Scalar → Bool) (fields : List (Scalar × Datum)) :
    allScalarsOfFields test fields =
      fields.all fun field => test field.1 && field.2.allScalars test := by
  induction fields with
  | nil => rfl
  | cons field fields ih => rw [allScalarsOfFields, ih, List.all_cons]

theorem allScalars_list {test : Scalar → Bool} {items : List Datum} :
    (list items).allScalars test = true ↔ ∀ item ∈ items, item.allScalars test = true := by
  rw [allScalars, allScalarsOfItems_eq_all, List.all_eq_true]

theorem allScalars_table {test : Scalar → Bool} {fields : List (Scalar × Datum)} :
    (table fields).allScalars test = true ↔
      ∀ field ∈ fields, test field.1 = true ∧ field.2.allScalars test = true := by
  simp only [allScalars, allScalarsOfFields_eq_all, List.all_eq_true, Bool.and_eq_true]

theorem cutItems_eq_map (levels : Nat) (items : List Datum) :
    cutItems levels items = items.map (cut levels) := by
  induction items with
  | nil => rfl
  | cons item items ih => rw [cutItems, ih, List.map_cons]

theorem cutFields_eq_map (levels : Nat) (fields : List (Scalar × Datum)) :
    cutFields levels fields = fields.map fun field => (field.1, field.2.cut levels) := by
  induction fields with
  | nil => rfl
  | cons field fields ih => rw [cutFields, ih, List.map_cons]

end FlowLink.Datum
