import FlowLink.Files.Basic

namespace FlowLink

/-! # Ways out of the working directory and back

Two dots lead from the working directory to those around it, and their names lead back to the same
locations.  So a file that is there has one location, whichever way a path takes.
-/

namespace Location

variable {around : List String} {level : Nat} {name : String}

theorem parent_above (inside : level < around.length) :
    (above level).parent around = above (level + 1) := by
  have up : (above level).getLast? = none ∨ (above level).getLast? = some ".." := by
    cases level <;> simp [above, List.getLast?_replicate]
  have short : (above level).length < around.length := by rwa [above, List.length_replicate]
  have grown : above level ++ [".."] = above (level + 1) := List.replicate_succ'.symm
  unfold parent
  rcases up with last | last <;> rw [last] <;> simp only [short, if_true, grown]

/-- A name that a directory can have. -/
def IsProper (name : String) : Prop := name ≠ "" ∧ name ≠ "." ∧ name ≠ ".."

theorem enter_above (named : around[level]? = some name) (proper : IsProper name) :
    (above (level + 1)).enter name around = above level := by
  obtain ⟨nonempty, noDot, noDots⟩ := proper
  have ambient : (above (level + 1)).isAmbient = true := by
    simp [above, isAmbient, List.all_replicate]
  have apart : above (level + 1) ≠ [] := by simp [above]
  have length : (above (level + 1)).length - 1 = level := by simp [above]
  simp only [enter, nonempty, noDot, noDots, decide_false, Bool.or_self, Bool.false_eq_true,
    if_false, length, named, ambient, apart, ne_eq, not_false_eq_true, decide_true, Bool.and_self,
    if_true]
  simp [above, List.dropLast_replicate]

theorem foldl_enter_out (within : level ≤ around.length) :
    (List.replicate level "..").foldl (fun location name => enter location name around) [] =
      above level := by
  induction level with
  | zero => rfl
  | succ level ih =>
      have out : (above level).enter ".." around = (above level).parent around := rfl
      rw [List.replicate_succ', List.foldl_append, ih (Nat.le_of_succ_le within), List.foldl_cons,
        List.foldl_nil, out, parent_above within]

theorem foldl_enter_back (proper : ∀ name ∈ around, IsProper name)
    (within : level ≤ around.length) :
    (around.take level).reverse.foldl (fun location name => enter location name around)
      (above level) = [] := by
  induction level with
  | zero => rfl
  | succ level ih =>
      have inside : level < around.length := within
      have named : around[level]? = some around[level] := List.getElem?_eq_getElem inside
      rw [List.take_add_one, named, Option.toList_some, List.reverse_append,
        List.reverse_singleton, List.singleton_append, List.foldl_cons,
        enter_above named (proper _ (List.getElem_mem inside)), ih (Nat.le_of_succ_le within)]

/-- Levels up by dots and down again by name, and all the way down from the outermost directory, is
to the working directory. -/
theorem foldl_enter_around (proper : ∀ name ∈ around, IsProper name)
    (within : level ≤ around.length) :
    (List.replicate level ".." ++ (around.take level).reverse).foldl
        (fun location name => enter location name around) [] = [] ∧
      around.reverse.foldl (fun location name => enter location name around)
        (above around.length) = [] := by
  constructor
  · rw [List.foldl_append, foldl_enter_out within, foldl_enter_back proper within]
  · have down := foldl_enter_back proper (Nat.le_refl around.length)
    rwa [List.take_length] at down

end Location

namespace Files

/-! # What is written is read again

Writing a file makes its location no directory and takes no directory away.  A path therefore leads
to the same place before and after.
-/

variable {files after : Files} {path : Path} {location other : Location} {text : String}
  {content : Content}

@[simp] theorem around_put : (files.put location content).around = files.around := rfl

@[simp] theorem resolve_put : (files.put location content).resolve = files.resolve := rfl

theorem find?_put_self : (files.put location content).find? location = some content := by
  simp [find?, put]

theorem lookup_filter_of_ne (entries : List (Location × Content)) (apart : other ≠ location) :
    (entries.filter fun entry => entry.1 ≠ location).lookup other = entries.lookup other := by
  induction entries with
  | nil => rfl
  | cons entry rest ih =>
      obtain ⟨place, found⟩ := entry
      by_cases same : place = location
      · have passed : (other == place) = false := by simpa [same] using apart
        rw [List.filter_cons_of_neg (by simp [same]), List.lookup_cons, passed]
        exact ih
      · rw [List.filter_cons_of_pos (by simp [same]), List.lookup_cons, List.lookup_cons, ih]

theorem find?_put_of_ne (apart : other ≠ location) :
    (files.put location content).find? other = files.find? other := by
  have passed : (other == location) = false := by simpa using apart
  rw [find?, put, List.lookup_cons, passed]
  exact lookup_filter_of_ne files.entries apart

theorem isDirectory_put :
    (files.put location content).isDirectory other = true ↔
      files.isDirectory other = true ∨
        (other.isPrefixOf location && other.length < location.length) = true := by
  simp only [isDirectory, put, Bool.or_eq_true, List.any_cons, List.any_eq_true, List.mem_filter,
    decide_eq_true_eq]
  constructor
  · intro directory
    rcases directory with empty | above | ⟨entry, ⟨member, _⟩, above⟩
    · exact Or.inl (Or.inl empty)
    · exact Or.inr above
    · exact Or.inl (Or.inr ⟨entry, member, above⟩)
  · intro directory
    rcases directory with (empty | ⟨entry, member, above⟩) | above
    · exact Or.inl empty
    · by_cases same : entry.1 = location
      · exact Or.inr (Or.inl (same ▸ above))
      · exact Or.inr (Or.inr ⟨entry, ⟨member, same⟩, above⟩)
    · exact Or.inr (Or.inl above)

theorem isDirectory_put_self :
    (files.put location content).isDirectory location = files.isDirectory location := by
  rw [Bool.eq_iff_iff, isDirectory_put]
  simp

theorem follow_put {start : Location} {names : List String}
    (followed : files.follow start names = .ok other) :
    (files.put location content).follow start names = .ok other := by
  induction names generalizing start with
  | nil => exact followed
  | cons name rest ih =>
      unfold follow at followed ⊢
      cases directory : files.isDirectory start with
      | false =>
          rw [directory, if_neg Bool.false_ne_true] at followed
          split at followed <;> contradiction
      | true =>
          rw [directory, if_pos rfl] at followed
          rw [isDirectory_put.mpr (Or.inl directory), if_pos rfl]
          split at followed
          next short =>
            rw [if_pos short, around_put, resolve_put]
            split at followed
            next => exact ih followed
            next => contradiction
          next => contradiction

theorem locate_put (located : files.locate path = .ok other) :
    (files.put location content).locate path = .ok other := by
  unfold locate at located ⊢
  split at located
  next => contradiction
  next nonempty =>
    rw [if_neg nonempty]
    split at located
    next => contradiction
    next short =>
      rw [if_neg short]
      exact follow_put located

/-- Writing a text changes no file but the one that the path leads to. -/
theorem find?_of_write? (written : files.write? path text = some after)
    (elsewhere : files.locate path ≠ .ok other) : after.find? other = files.find? other := by
  unfold write? at written
  split at written
  next location located =>
    split at written
    next => contradiction
    next =>
      cases written
      apply find?_put_of_ne
      rintro rfl
      exact elsewhere located
  next => contradiction

/-- What is written to a path is what is read from it. -/
theorem read_of_write? (written : files.write? path text = some after) :
    after.read path = .ok text := by
  unfold write? at written
  cases located : files.locate path with
  | error fault => simp [located] at written
  | ok location =>
      simp only [located] at written
      cases directory : files.isDirectory location with
      | true => simp [directory] at written
      | false =>
          simp only [directory, Bool.false_or, decide_eq_true_eq,
            Option.ite_none_left_eq_some, Option.some.injEq] at written
          obtain ⟨_, rfl⟩ := written
          have file : (files.put location (.text text)).isDirectory location = false :=
            isDirectory_put_self.trans directory
          simp only [read, locate_put located, bind, Except.bind, file, Bool.false_eq_true,
            if_false, find?_put_self]

end Files

end FlowLink
