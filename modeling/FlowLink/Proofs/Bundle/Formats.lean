import FlowLink.Proofs.Bundle.Loading
import FlowLink.Proofs.Codec.Records

namespace FlowLink.Bundle

open Dialect Yaml

/-! # Saved bundles under names for YAML

A bundle is saved as JSON whatever the name of the file is, but a name decides what it is read as.
Under a name for YAML a bundle with entries is lost, and one without is found again exactly if YAML
reads all its strings as they are.
-/

variable {bundle : Bundle} {orders : Orders} {path : Path} {files after : Files}
  {warnings : List Event}

theorem ofText?_toJson_of_addressed (yaml : isYaml path = true) (fits : bundle.IdsFit)
    (addressed : bundle.hasEntries = true) : ofText? path (bundle.toJson orders) = none := by
  have faithful : Json.Faithful depthLimit (bundle.encode orders) := encode_faithful fits
  obtain ⟨fields, encoded⟩ : ∃ fields, bundle.encode orders = .table fields := ⟨_, rfl⟩
  rw [encoded] at faithful
  rw [ofText?, if_pos yaml, toJson, encoded]
  rcases read?_pretty faithful with ⟨heard, hears, read⟩ | ⟨_, unread⟩
  · rw [← encoded] at hears
    rw [read, Option.bind_some, decode?_heard addressed hears]
  · rw [unread, Option.bind_none]

/-- A bundle without entries is taken for itself only if nothing else is heard of it. -/
theorem ofText?_toJson_of_bare (yaml : isYaml path = true) (fits : bundle.IdsFit)
    (bare : bundle.hasEntries = false) :
    ofText? path (bundle.toJson orders) = some bundle ↔
      isLegibleDatum (bundle.encode orders) = true := by
  have faithful : Json.Faithful depthLimit (bundle.encode orders) := encode_faithful fits
  have recorded : Recorded (bundle.encode orders) := encode_recorded bare
  have itself : Yaml.read? (bundle.toJson orders) = some (bundle.encode orders) ↔
      isLegibleDatum (bundle.encode orders) = true := read?_eq_some_iff faithful recorded
  rw [ofText?, if_pos yaml, ← itself]
  constructor
  · intro taken
    obtain ⟨heard, read, decoded⟩ := Option.bind_eq_some_iff.mp taken
    rcases read?_pretty faithful with ⟨other, hears, found⟩ | ⟨_, unread⟩
    · have same : heard = other := Option.some.inj (read.symm.trans found)
      rw [read, settles_encode bare fits.tree heard (same ▸ hears) decoded]
    · exact absurd (read.symm.trans unread) (Option.some_ne_none heard)
  · intro read
    rw [read, Option.bind_some, decode?_encode yaml_standard fits]

theorem load_unreadable (yaml : isYaml path = true) (fits : bundle.IdsFit)
    (addressed : bundle.hasEntries = true)
    (written : files.write? path (bundle.toJson orders) = some after) :
    load path (after.read path) = .error .parse := by
  rw [Files.read_of_write? written]
  simp only [load, ofText?_toJson_of_addressed yaml fits addressed]

theorem load_bare_iff (yaml : isYaml path = true) (fits : bundle.IdsFit)
    (bare : bundle.hasEntries = false) (valid : bundle.validate = .ok warnings)
    (written : files.write? path (bundle.toJson orders) = some after) :
    load path (after.read path) = .ok (bundle, warnings) ↔
      isLegibleDatum (bundle.encode orders) = true := by
  rw [load_eq_ok_iff, Files.read_of_write? written, ← ofText?_toJson_of_bare yaml fits bare]
  constructor
  · rintro ⟨text, read, taken, _⟩
    rwa [← Except.ok.inj read] at taken
  · intro taken
    exact ⟨_, rfl, taken, valid⟩

/-- A valid bundle that was saved is loaded again under a name for JSON.  Under a name for YAML it
is not, if it has entries; if it has none, it is exactly if all its strings are legible. -/
theorem load_saved (bundle : Bundle) (orders : Orders) (path : Path) (files after : Files)
    (warnings : List Event) (fits : bundle.IdsFit) (valid : bundle.validate = .ok warnings)
    (written : files.write? path (bundle.toJson orders) = some after) :
    (isYaml path = false → load path (after.read path) = .ok (bundle, warnings)) ∧
      (isYaml path = true → bundle.hasEntries = true →
        load path (after.read path) = .error .parse) ∧
      (isYaml path = true → bundle.hasEntries = false →
        (load path (after.read path) = .ok (bundle, warnings) ↔
          isLegibleDatum (bundle.encode orders) = true)) := by
  refine ⟨?_, ?_, ?_⟩
  · intro json
    rw [Files.read_of_write? written]
    exact load_toJson json fits valid
  · intro yaml addressed
    exact load_unreadable yaml fits addressed written
  · intro yaml bare
    exact load_bare_iff yaml fits bare valid written

/-- A valid unit without entries.  Nothing is in it but a text. -/
def note (text : String) : Bundle where
  tree :=
    { elements := #[⟨⟨0⟩, .compilationUnit [⟨1⟩]⟩, ⟨⟨1⟩, .literal text⟩]
      root := some ⟨0⟩ }
  graph := ⟨#[], ∅, ∅⟩
  analysis := .empty

/-- A directory with nothing but a saved bundle in it. -/
def fileOf (bundle : Bundle) (name : String) : Files :=
  Files.empty.put [name] (.text bundle.toJson)

/-- The text of the note has to be quoted, and there is a line separator in it that is kept. -/
theorem note_and_echo_load_saved :
    let legible := note "\"no\": \\ # \t\r\n a\u2028---"
    load ⟨"unit.json"⟩ ((echo.fileOf "unit.json").read ⟨"unit.json"⟩) = .ok (echo, []) ∧
      load ⟨"unit.yaml"⟩ ((echo.fileOf "unit.yaml").read ⟨"unit.yaml"⟩) = .error .parse ∧
      load ⟨"unit.yml"⟩ ((legible.fileOf "unit.yml").read ⟨"unit.yml"⟩) = .ok (legible, []) := by
  intro legible
  have json : ∀ bundle : Bundle,
      Files.empty.write? ⟨"unit.json"⟩ bundle.toJson = some (bundle.fileOf "unit.json") :=
    fun _ => rfl
  have yaml : ∀ bundle : Bundle,
      Files.empty.write? ⟨"unit.yaml"⟩ bundle.toJson = some (bundle.fileOf "unit.yaml") :=
    fun _ => rfl
  have yml : ∀ bundle : Bundle,
      Files.empty.write? ⟨"unit.yml"⟩ bundle.toJson = some (bundle.fileOf "unit.yml") :=
    fun _ => rfl
  have fits : echo.IdsFit := by decide
  have valid : echo.validate = .ok [] := by decide
  obtain ⟨loaded, _⟩ := load_saved echo {} ⟨"unit.json"⟩ _ _ [] fits valid (json echo)
  obtain ⟨_, lost, _⟩ := load_saved echo {} ⟨"unit.yaml"⟩ _ _ [] fits valid (yaml echo)
  obtain ⟨_, _, found⟩ :=
    load_saved legible {} ⟨"unit.yml"⟩ _ _ [] (by decide) (by decide) (yml legible)
  exact ⟨loaded (by decide), lost (by decide) (by decide), (found (by decide) (by decide)).mpr
    (by decide)⟩

/-- Both conditions are needed, and so is each part of the second one: a text may have a character
that YAML does not allow, a next-line character, a blank on either side of a line separator, or a
mark behind one. -/
theorem not_always_load_saved :
    (¬ ∀ (bundle : Bundle) (path : Path) (files after : Files) (warnings : List Event),
      bundle.IdsFit → bundle.validate = .ok warnings →
        files.write? path bundle.toJson = some after →
        load path (after.read path) = .ok (bundle, warnings)) ∧
      ∀ text ∈ ["\x7f", "\u0085", " \u2028", "\u2028 ", "\u2028--- "],
        (note text).IdsFit ∧ (note text).validate = .ok [] ∧ (note text).hasEntries = false ∧
          load ⟨"unit.yaml"⟩ (((note text).fileOf "unit.yaml").read ⟨"unit.yaml"⟩) ≠
            .ok (note text, []) := by
  have written : ∀ bundle : Bundle,
      Files.empty.write? ⟨"unit.yaml"⟩ bundle.toJson = some (bundle.fileOf "unit.yaml") :=
    fun _ => rfl
  constructor
  · intro always
    have fits : echo.IdsFit := by decide
    have loaded := always echo ⟨"unit.yaml"⟩ _ _ [] fits (by decide) (written echo)
    rw [load_unreadable (by decide) fits (by decide) (written echo)] at loaded
    contradiction
  · intro text listed
    have facts : (note text).IdsFit ∧ (note text).validate = .ok [] ∧
        (note text).hasEntries = false ∧ isLegibleDatum (note text).encode = false := by
      revert text
      decide
    obtain ⟨fits, valid, bare, illegible⟩ := facts
    refine ⟨fits, valid, bare, fun loaded => ?_⟩
    rw [load_bare_iff (by decide) fits bare valid (written _), illegible] at loaded
    contradiction

end FlowLink.Bundle
