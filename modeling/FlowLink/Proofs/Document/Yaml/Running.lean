import FlowLink.Document.Yaml.Reader
import Mathlib.Algebra.Ring.Nat

namespace FlowLink.Yaml

/-! # Reading a text piece by piece

`Leads` says what reading a piece of a text comes to, wherever the piece stands and whatever follows
it: to a reader of some kind or, unless that is certain, to nothing at all.  What is known of pieces
is put together by `Leads.append`.
-/

structure Position where
  line : Nat
  column : Nat
  offset : Nat

namespace Position

def advance (position : Position) (char : Char) : Position :=
  if isBreak char then ⟨position.line + 1, 0, 0⟩
  else ⟨position.line, position.column + 1, position.offset + char.utf8Size⟩

def along (position : Position) (text : List Char) : Position := text.foldl advance position

/-- On one line, columns count characters and offsets count their bytes. -/
theorem along_of_unbroken {text : List Char} (position : Position)
    (unbroken : ∀ char ∈ text, isBreak char = false) :
    position.along text =
      ⟨position.line, position.column + text.length,
        position.offset + (text.map Char.utf8Size).sum⟩ := by
  induction text generalizing position with
  | nil => rfl
  | cons char rest ih =>
      have advanced : position.advance char =
          ⟨position.line, position.column + 1, position.offset + char.utf8Size⟩ := by
        rw [advance, unbroken char List.mem_cons_self, if_neg Bool.false_ne_true]
      rw [along, List.foldl_cons, advanced]
      change Position.along _ rest = _
      rw [ih _ fun char member => unbroken char (List.mem_cons_of_mem _ member)]
      simp only [List.length_cons, List.map_cons, List.sum_cons, Position.mk.injEq, true_and]
      omega

def place (position : Position) (char : Char) (rest : List Char) : Place :=
  ⟨char, position.line, position.column, position.offset, rest.head?,
    position.column = 0 && startsMarker (char :: rest)⟩

end Position

/-- A reader in the middle of a document. -/
def Reader.inside (frames : List Frame) (lexeme : Lexeme := .none) : Reader :=
  { outline := { frames }, mayBegin := false, lexeme }

/-- A next-line character counts as a line feed. -/
def unify (char : Char) : Char := if char = '\u0085' then '\n' else char

/-- Goes on with a text, in which there is no carriage return. -/
def run (reader : Reader) (position : Position) (text : List Char) : Option Reader :=
  (placesFrom position.line position.column position.offset (text.map unify)).foldlM Reader.step
    reader

variable {reader next : Reader} {position : Position} {char : Char} {text rest : List Char}

theorem run_cons :
    run reader position (char :: rest) =
      (reader.step (position.place (unify char) (rest.map unify))).bind fun next =>
        run next (position.advance (unify char)) rest := by
  unfold run Position.advance
  rw [List.map_cons, placesFrom, List.foldlM_cons]
  split <;> rfl

theorem run_step (steps : reader.step (position.place (unify char) (rest.map unify)) = some next) :
    run reader position (char :: rest) = run next (position.advance (unify char)) rest := by
  rw [run_cons, steps, Option.bind_some]

theorem unifyBreaks_eq_map (noReturn : ∀ char ∈ text, char ≠ '\r') :
    unifyBreaks text = text.map unify := by
  induction text with
  | nil => rfl
  | cons char rest ih =>
      have first : char ≠ '\r' := noReturn char List.mem_cons_self
      have later := ih fun char member => noReturn char (List.mem_cons_of_mem _ member)
      unfold unifyBreaks
      split
      next same => cases same
      next same =>
        obtain ⟨rfl, _⟩ := List.cons.inj same
        contradiction
      next same =>
        obtain ⟨rfl, rfl⟩ := List.cons.inj same
        simp [later, unify, first]

/-! ## Pieces -/

def Leads (certain : Prop) (reader : Reader) (piece : List Char) (post : Reader → Prop) : Prop :=
  ∀ position rest,
    (∃ next later, post next ∧ run reader position (piece ++ rest) = run next later rest) ∨
      ¬ certain ∧ run reader position (piece ++ rest) = none

variable {certain weaker : Prop} {piece more : List Char} {post middle : Reader → Prop}

theorem Leads.nil (holds : post reader) : Leads certain reader [] post := by
  intro position rest
  exact Or.inl ⟨reader, position, holds, rfl⟩

theorem Leads.append (first : Leads certain reader piece middle)
    (second : ∀ next, middle next → Leads certain next more post) :
    Leads certain reader (piece ++ more) post := by
  intro position rest
  rw [List.append_assoc]
  rcases first position (more ++ rest) with ⟨next, later, holds, same⟩ | ⟨uncertain, fails⟩
  · rw [same]
    exact second next holds later rest
  · exact Or.inr ⟨uncertain, fails⟩

theorem Leads.mono (leads : Leads certain reader piece middle) (needs : weaker → certain)
    (holds : ∀ next, middle next → post next) : Leads weaker reader piece post := by
  intro position rest
  rcases leads position rest with ⟨next, later, reached, same⟩ | ⟨uncertain, fails⟩
  · exact Or.inl ⟨next, later, holds next reached, same⟩
  · exact Or.inr ⟨fun claimed => uncertain (needs claimed), fails⟩

/-- The character neither begins the mark of a document's start or end, nor is read as another. -/
def isSteady (char : Char) : Bool := char ≠ '-' && char ≠ '.' && char ≠ '\u0085'

theorem startsMarker_of_isSteady (steady : isSteady char = true) :
    startsMarker (char :: rest) = false := by
  simp only [isSteady, Bool.and_eq_true, decide_eq_true_eq] at steady
  unfold startsMarker
  split
  next same =>
    obtain ⟨rfl, _⟩ := List.cons.inj same
    simp [steady]
  next => rfl

theorem marker_place (steady : isSteady char = true) :
    (position.place char rest).marker = false := by
  simp [Position.place, startsMarker_of_isSteady steady]

theorem unify_of_isSteady (steady : isSteady char = true) : unify char = char := by
  simp only [isSteady, Bool.and_eq_true, decide_eq_true_eq] at steady
  rw [unify, if_neg steady.2]

theorem leads_char (steady : isSteady char = true)
    (steps : ∀ place : Place, place.char = char → place.marker = false →
      ∃ next, reader.step place = some next ∧ post next) : Leads certain reader [char] post := by
  intro position rest
  obtain ⟨next, stepped, holds⟩ :=
    steps (position.place char (rest.map unify)) rfl (marker_place steady)
  refine Or.inl ⟨next, position.advance char, holds, ?_⟩
  have same := unify_of_isSteady steady
  rw [← same] at stepped
  rw [List.singleton_append, run_step stepped, same]

end FlowLink.Yaml
