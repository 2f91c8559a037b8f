import FlowLink.Proofs.Tree.Validation
import FlowLink.Synthetic

namespace FlowLink

open Std

/-! # The layout of synthetic units

A synthetic unit is built by appending elements only.  So its tree is a row of shapes, which is put
together from the rows of its methods, and these from the rows of their statements.  The ids in a
row depend on where it begins and on nothing else.
-/

namespace SyntaxTree

variable {tree : SyntaxTree} {shape : Shape} {row : List Shape}

/-- Appends elements of these shapes. -/
def pushAll (tree : SyntaxTree) (row : List Shape) : SyntaxTree := row.foldl push tree

theorem pushAll_append (tree : SyntaxTree) (first second : List Shape) :
    tree.pushAll (first ++ second) = (tree.pushAll first).pushAll second :=
  List.foldl_append

theorem size_push (tree : SyntaxTree) (shape : Shape) : (tree.push shape).size = tree.size + 1 :=
  Array.size_push _

theorem size_pushAll (tree : SyntaxTree) (row : List Shape) :
    (tree.pushAll row).size = tree.size + row.length := by
  induction row generalizing tree with
  | nil => rfl
  | cons shape row ih =>
      rw [pushAll, List.foldl_cons]
      change (pushAll (tree.push shape) row).size = _
      rw [ih, size_push, List.length_cons]
      omega

def shapes (tree : SyntaxTree) : List Shape := tree.elements.toList.map Element.shape

theorem shape?_eq_getElem? (id : TreeId) : tree.shape? id = tree.shapes[id.index]? := by
  rw [shapes, List.getElem?_map, Array.getElem?_toList]
  rfl

theorem shapes_pushAll (tree : SyntaxTree) (row : List Shape) :
    (tree.pushAll row).shapes = tree.shapes ++ row := by
  induction row generalizing tree with
  | nil => exact (List.append_nil _).symm
  | cons shape row ih =>
      change ((tree.push shape).pushAll row).shapes = _
      rw [ih]
      simp [shapes, push]

/-- Every element has the id of its slot. -/
def Numbered (tree : SyntaxTree) : Prop :=
  ∀ (slot : Nat) (element : Element), tree.elements[slot]? = some element → element.id.index = slot

theorem Numbered.push (numbered : tree.Numbered) (shape : Shape) : (tree.push shape).Numbered := by
  intro slot element found
  simp only [SyntaxTree.push, Array.getElem?_push] at found
  split at found
  next last =>
    cases found
    exact last.symm
  next => exact numbered slot element found

theorem Numbered.pushAll (numbered : tree.Numbered) (row : List Shape) :
    (tree.pushAll row).Numbered := by
  induction row generalizing tree with
  | nil => exact numbered
  | cons shape row ih => exact ih (numbered.push shape)

theorem numbered_empty : empty.Numbered := nofun

end SyntaxTree

namespace Synthetic

/-! ## Rows -/

/-- The element that the read of this step names as its latest write: the target of the step before
it, or the declaration. -/
def written (start : Nat) : Nat → Nat
  | 0 => start
  | step + 1 => start + 6 * step + 4

def assignmentRow (start step : Nat) : List Shape :=
  [.identifier "x", .literal "1",
    .binary "+" ⟨start + 6 * step + 1⟩ ⟨start + 6 * step + 2⟩, .identifier "x",
    .assignment ⟨start + 6 * step + 4⟩ ⟨start + 6 * step + 3⟩,
    .expressionStatement ⟨start + 6 * step + 5⟩]

/-- The declaration and the first so many assignments. -/
def assignedRow (start steps : Nat) : List Shape :=
  .variableDecl "x" none :: (List.range steps).flatMap (assignmentRow start)

def assignedStatements (start steps : Nat) : List TreeId :=
  ⟨start⟩ :: (List.range steps).map fun step => ⟨start + 6 * step + 6⟩

/-- What follows the assignments of a method, up to the method itself. -/
def closingRow (start steps number : Nat) : List Shape :=
  [.identifier "x", .returnStatement (some ⟨start + 6 * steps + 1⟩),
    .block (assignedStatements start steps ++ [⟨start + 6 * steps + 2⟩]),
    .methodDecl ("m" ++ toString number) [] (some ⟨start + 6 * steps + 3⟩)]

def methodRow (start steps number : Nat) : List Shape :=
  assignedRow start steps ++ closingRow start steps number

/-- Where a method begins. -/
def start (steps number : Nat) : Nat := number * (6 * steps + 5)

def method (steps number : Nat) : TreeId := ⟨start steps number + 6 * steps + 4⟩

def methodRows (methods steps : Nat) : List Shape :=
  (List.range methods).flatMap fun number => methodRow (start steps number) steps number

def unitRow (methods steps : Nat) : List Shape :=
  methodRows methods steps ++
    [.classDecl "Bench" ((List.range methods).map (method steps)),
      .compilationUnit [⟨start steps methods⟩]]

/-- The facts about the first so many reads. -/
def facts (start : Nat) : Nat → FactMap
  | 0 => ∅
  | steps + 1 =>
    (facts start steps).insert ⟨start + 6 * steps + 1⟩ (.ofList [TreeId.mk (written start steps)])

theorem length_assignedRow (start steps : Nat) :
    (assignedRow start steps).length = 6 * steps + 1 := by
  simp [assignedRow, assignmentRow, List.length_flatMap, Nat.mul_comm]

theorem length_methodRow (start steps number : Nat) :
    (methodRow start steps number).length = 6 * steps + 5 := by
  rw [methodRow, List.length_append, length_assignedRow]
  rfl

theorem length_methodRows (methods steps : Nat) :
    (methodRows methods steps).length = start steps methods := by
  simp [methodRows, List.length_flatMap, length_methodRow, start]

theorem length_unitRow (methods steps : Nat) :
    (unitRow methods steps).length = methods * (6 * steps + 5) + 2 := by
  rw [unitRow, List.length_append, length_methodRows]
  rfl

theorem assignedRow_succ (start steps : Nat) :
    assignedRow start (steps + 1) = assignedRow start steps ++ assignmentRow start steps := by
  simp [assignedRow, List.range_succ, List.flatMap_append]

theorem assignedStatements_succ (start steps : Nat) :
    assignedStatements start (steps + 1) =
      assignedStatements start steps ++ [⟨start + 6 * steps + 6⟩] := by
  simp [assignedStatements, List.range_succ]

theorem methodRows_succ (methods steps : Nat) :
    methodRows (methods + 1) steps =
      methodRows methods steps ++ methodRow (start steps methods) steps methods := by
  simp [methodRows, List.range_succ, List.flatMap_append]

/-! ## What is built -/

theorem reassign_eq {body : SyntheticBody} {start step : Nat}
    (size : body.tree.size = start + 6 * step + 1) :
    body.reassign =
      { tree := body.tree.pushAll (assignmentRow start step)
        statements := body.statements.push ⟨start + 6 * step + 6⟩
        lastWrite := ⟨start + 6 * step + 4⟩
        outputs := ⟨body.outputs.lastWrites.insert ⟨start + 6 * step + 1⟩
          (.ofList [body.lastWrite]), body.outputs.lastUses⟩ } := by
  simp only [SyntheticBody.reassign, SyntheticBody.read, SyntaxTree.pushed,
    SyntaxTree.pushAssignment, SyntaxTree.nextId, SyntaxTree.size_push, size]
  rfl

theorem finish_eq {body : SyntheticBody} {start steps : Nat}
    (size : body.tree.size = start + 6 * steps + 1) :
    body.finish =
      ({ tree := body.tree.pushAll [.identifier "x",
          .returnStatement (some ⟨start + 6 * steps + 1⟩),
          .block (body.statements.toList ++ [⟨start + 6 * steps + 2⟩])]
         statements := body.statements.push ⟨start + 6 * steps + 2⟩
         lastWrite := body.lastWrite
         outputs := ⟨body.outputs.lastWrites.insert ⟨start + 6 * steps + 1⟩
          (.ofList [body.lastWrite]), body.outputs.lastUses⟩ }, ⟨start + 6 * steps + 3⟩) := by
  simp only [SyntheticBody.finish, SyntheticBody.read, SyntaxTree.pushed, SyntaxTree.nextId,
    SyntaxTree.size_push, size, Array.toList_push]
  rfl

theorem size_assigned (tree : SyntaxTree) (steps : Nat) :
    (tree.pushAll (assignedRow tree.size steps)).size = tree.size + 6 * steps + 1 := by
  rw [SyntaxTree.size_pushAll, length_assignedRow, Nat.add_assoc]

theorem repeat_reassign (tree : SyntaxTree) (steps : Nat) :
    Nat.repeat SyntheticBody.reassign steps (.start tree) =
      { tree := tree.pushAll (assignedRow tree.size steps)
        statements := (assignedStatements tree.size steps).toArray
        lastWrite := ⟨written tree.size steps⟩
        outputs := ⟨facts tree.size steps, ∅⟩ } := by
  induction steps with
  | zero => rfl
  | succ steps ih =>
      rw [Nat.repeat, ih, reassign_eq (size_assigned tree steps), assignedRow_succ,
        SyntaxTree.pushAll_append, assignedStatements_succ, ← List.push_toArray]
      rfl

theorem pushSyntheticMethod_eq (tree : SyntaxTree) (steps number : Nat) :
    tree.pushSyntheticMethod ("m" ++ toString number) steps =
      (tree.pushAll (methodRow tree.size steps number), ⟨tree.size + 6 * steps + 4⟩,
        ⟨facts tree.size (steps + 1), ∅⟩) := by
  rw [SyntaxTree.pushSyntheticMethod, repeat_reassign, finish_eq (size_assigned tree steps)]
  simp only [SyntaxTree.pushed, SyntaxTree.nextId, SyntaxTree.size_pushAll, length_assignedRow]
  rw [methodRow, SyntaxTree.pushAll_append]
  rfl

def outputs (steps number : Nat) : MethodFacts := ⟨facts (start steps number) (steps + 1), ∅⟩

/-- The facts about the first so many methods of a class. -/
def recorded (classId : TreeId) (steps : Nat) : Nat → Analysis
  | 0 => .empty
  | methods + 1 =>
    (recorded classId steps methods).insert classId (method steps methods) (outputs steps methods)

def tree (methods steps : Nat) : SyntaxTree := SyntaxTree.empty.pushAll (unitRow methods steps)

abbrev classId (methods steps : Nat) : TreeId := ⟨start steps methods⟩

abbrev unitId (methods steps : Nat) : TreeId := ⟨start steps methods + 1⟩

abbrev analysis (methods steps : Nat) : Analysis :=
  recorded (classId methods steps) steps methods

theorem pushSyntheticMethods_eq (methods steps : Nat) :
    SyntaxTree.empty.pushSyntheticMethods methods steps =
      (SyntaxTree.empty.pushAll (methodRows methods steps),
        ((List.range methods).map fun number =>
          (method steps number, outputs steps number)).toArray) := by
  have size : ∀ methods,
      (SyntaxTree.empty.pushAll (methodRows methods steps)).size = start steps methods := by
    intro methods
    rw [SyntaxTree.size_pushAll, length_methodRows]
    exact Nat.zero_add _
  rw [SyntaxTree.pushSyntheticMethods]
  induction methods with
  | zero => rfl
  | succ methods ih =>
      rw [List.range_succ, List.foldl_append, ih, List.foldl_cons, List.foldl_nil]
      simp only [pushSyntheticMethod_eq, size]
      rw [methodRows_succ, SyntaxTree.pushAll_append, List.map_append, List.map_singleton,
        ← List.push_toArray]
      rfl

theorem syntheticUnit_eq (methods steps : Nat) :
    syntheticUnit methods steps =
      (tree methods steps, analysis methods steps) := by
  have size : (SyntaxTree.empty.pushAll (methodRows methods steps)).size = start steps methods := by
    rw [SyntaxTree.size_pushAll, length_methodRows]
    exact Nat.zero_add _
  have folded : ∀ count classId, ((List.range count).map fun number =>
      (method steps number, outputs steps number)).foldl
        (fun analysis entry => analysis.insert classId entry.1 entry.2) .empty =
          recorded classId steps count := by
    intro count classId
    induction count with
    | zero => rfl
    | succ count ih =>
        rw [List.range_succ, List.map_append, List.foldl_append, ih]
        rfl
  rw [syntheticUnit, pushSyntheticMethods_eq]
  simp only [SyntaxTree.pushed, SyntaxTree.nextId, size, List.foldl_toArray, folded]
  rw [tree, unitRow, SyntaxTree.pushAll_append]
  simp only [List.map_map]
  rfl

/-! ## Looking elements up -/

/-- Rows of one width on end are looked up by number and offset. -/
theorem getElem?_flatMap_range {α : Type} {rows : Nat → List α} {width : Nat}
    (even : ∀ number, (rows number).length = width) {count number offset : Nat}
    (within : number < count) (inside : offset < width) :
    ((List.range count).flatMap rows)[number * width + offset]? = (rows number)[offset]? := by
  induction count with
  | zero => exact absurd within (Nat.not_lt_zero _)
  | succ count ih =>
      have length : ((List.range count).flatMap rows).length = count * width := by
        simp [List.length_flatMap, even]
      rw [List.range_succ, List.flatMap_append, List.flatMap_singleton]
      rcases Nat.lt_succ_iff_lt_or_eq.mp within with earlier | rfl
      · have bound : number * width + offset < count * width := by
          have next : (number + 1) * width ≤ count * width := Nat.mul_le_mul_right width earlier
          rw [Nat.succ_mul] at next
          omega
        rw [List.getElem?_append_left (length ▸ bound), ih earlier]
      · rw [List.getElem?_append_right (by omega), length, Nat.add_sub_cancel_left]

/-- What stands at which place in the tree of a synthetic unit. -/
inductive Lays (methods steps : Nat) : Nat → Shape → Prop
  | declaration {number : Nat} (declared : number < methods) :
      Lays methods steps (start steps number) (.variableDecl "x" none)
  | read {number step : Nat} (declared : number < methods) (within : step ≤ steps) :
      Lays methods steps (start steps number + 6 * step + 1) (.identifier "x")
  | one {number step : Nat} (declared : number < methods) (within : step < steps) :
      Lays methods steps (start steps number + 6 * step + 2) (.literal "1")
  | sum {number step : Nat} (declared : number < methods) (within : step < steps) :
      Lays methods steps (start steps number + 6 * step + 3)
        (.binary "+" ⟨start steps number + 6 * step + 1⟩ ⟨start steps number + 6 * step + 2⟩)
  | target {number step : Nat} (declared : number < methods) (within : step < steps) :
      Lays methods steps (start steps number + 6 * step + 4) (.identifier "x")
  | assignment {number step : Nat} (declared : number < methods) (within : step < steps) :
      Lays methods steps (start steps number + 6 * step + 5)
        (.assignment ⟨start steps number + 6 * step + 4⟩ ⟨start steps number + 6 * step + 3⟩)
  | statement {number step : Nat} (declared : number < methods) (within : step < steps) :
      Lays methods steps (start steps number + 6 * step + 6)
        (.expressionStatement ⟨start steps number + 6 * step + 5⟩)
  | returning {number : Nat} (declared : number < methods) :
      Lays methods steps (start steps number + 6 * steps + 2)
        (.returnStatement (some ⟨start steps number + 6 * steps + 1⟩))
  | block {number : Nat} (declared : number < methods) :
      Lays methods steps (start steps number + 6 * steps + 3)
        (.block (assignedStatements (start steps number) steps ++
          [⟨start steps number + 6 * steps + 2⟩]))
  | method {number : Nat} (declared : number < methods) :
      Lays methods steps (start steps number + 6 * steps + 4)
        (.methodDecl ("m" ++ toString number) [] (some ⟨start steps number + 6 * steps + 3⟩))
  | classDecl :
      Lays methods steps (start steps methods)
        (.classDecl "Bench" ((List.range methods).map (method steps)))
  | compilationUnit :
      Lays methods steps (start steps methods + 1) (.compilationUnit [⟨start steps methods⟩])

section

variable {methods steps number step offset place : Nat} {shape : Shape}

theorem getElem?_unitRow (declared : number < methods) (inside : offset < 6 * steps + 5) :
    (unitRow methods steps)[start steps number + offset]? =
      (methodRow (start steps number) steps number)[offset]? := by
  have bound : start steps number + offset < (methodRows methods steps).length := by
    have next : (number + 1) * (6 * steps + 5) ≤ methods * (6 * steps + 5) :=
      Nat.mul_le_mul_right _ declared
    rw [length_methodRows, start, start]
    rw [Nat.succ_mul] at next
    omega
  rw [unitRow, List.getElem?_append_left bound]
  exact getElem?_flatMap_range (fun _ => length_methodRow _ _ _) declared inside

theorem getElem?_assigned (declared : number < methods) (within : step < steps)
    (inside : offset < 6) :
    (unitRow methods steps)[start steps number + 6 * step + (offset + 1)]? =
      (assignmentRow (start steps number) step)[offset]? := by
  have bound : 6 * step + (offset + 1) < (assignedRow (start steps number) steps).length := by
    rw [length_assignedRow]
    omega
  have width : ∀ number step, (assignmentRow number step).length = 6 := fun _ _ => rfl
  rw [Nat.add_assoc, getElem?_unitRow declared (by omega), methodRow,
    List.getElem?_append_left bound, assignedRow, ← Nat.add_assoc, List.getElem?_cons_succ,
    Nat.mul_comm, getElem?_flatMap_range (width _) within inside]

theorem getElem?_closing (declared : number < methods) (inside : offset < 4) :
    (unitRow methods steps)[start steps number + 6 * steps + (offset + 1)]? =
      (closingRow (start steps number) steps number)[offset]? := by
  have behind : (assignedRow (start steps number) steps).length ≤ 6 * steps + (offset + 1) := by
    rw [length_assignedRow]
    omega
  have left : 6 * steps + (offset + 1) - (6 * steps + 1) = offset := by omega
  rw [Nat.add_assoc, getElem?_unitRow declared (by omega), methodRow,
    List.getElem?_append_right behind, length_assignedRow, left]

theorem getElem?_ending (offset : Nat) :
    (unitRow methods steps)[start steps methods + offset]? =
      ([.classDecl "Bench" ((List.range methods).map (method steps)),
        .compilationUnit [⟨start steps methods⟩]] : List Shape)[offset]? := by
  rw [unitRow, List.getElem?_append_right (by rw [length_methodRows]; omega), length_methodRows,
    Nat.add_sub_cancel_left]

theorem getElem?_of_lays (lays : Lays methods steps place shape) :
    (unitRow methods steps)[place]? = some shape := by
  have early : ∀ {number step} (offset : Fin 6), number < methods → step < steps →
      (unitRow methods steps)[start steps number + 6 * step + (offset.val + 1)]? =
        (assignmentRow (start steps number) step)[offset.val]? :=
    fun offset declared within => getElem?_assigned declared within offset.isLt
  have late : ∀ {number} (offset : Fin 4), number < methods →
      (unitRow methods steps)[start steps number + 6 * steps + (offset.val + 1)]? =
        (closingRow (start steps number) steps number)[offset.val]? :=
    fun offset declared => getElem?_closing declared offset.isLt
  cases lays with
  | declaration declared =>
      exact getElem?_unitRow declared (Nat.succ_pos _ : 0 < 6 * steps + 5)
  | read declared within =>
      rcases Nat.lt_or_eq_of_le within with earlier | rfl
      · exact early 0 declared earlier
      · exact late 0 declared
  | one declared within => exact early 1 declared within
  | sum declared within => exact early 2 declared within
  | target declared within => exact early 3 declared within
  | assignment declared within => exact early 4 declared within
  | statement declared within => exact early 5 declared within
  | returning declared => exact late 1 declared
  | block declared => exact late 2 declared
  | method declared => exact late 3 declared
  | classDecl => exact getElem?_ending 0
  | compilationUnit => exact getElem?_ending 1

theorem Lays.unique {other : Shape} (lays : Lays methods steps place shape)
    (again : Lays methods steps place other) : shape = other :=
  Option.some.inj ((getElem?_of_lays lays).symm.trans (getElem?_of_lays again))

theorem Lays.lt_size (lays : Lays methods steps place shape) : place < start steps methods + 2 := by
  obtain ⟨bound, _⟩ := List.getElem?_eq_some_iff.mp (getElem?_of_lays lays)
  exact length_unitRow methods steps ▸ bound

theorem start_succ (steps number : Nat) :
    start steps (number + 1) = start steps number + (6 * steps + 5) := Nat.succ_mul _ _

/-- A later method begins behind an earlier one. -/
theorem start_add_le (steps : Nat) {later : Nat} (before : number < later) :
    start steps number + (6 * steps + 5) ≤ start steps later := by
  rw [← start_succ]
  exact Nat.mul_le_mul_right _ before

/-- Methods do not overlap. -/
theorem number_unique {other : Nat} (first : start steps number ≤ place)
    (last : place ≤ start steps number + 6 * steps + 4) (first' : start steps other ≤ place)
    (last' : place ≤ start steps other + 6 * steps + 4) : number = other := by
  rcases Nat.lt_trichotomy number other with before | same | behind
  · have next := start_add_le steps before
    omega
  · exact same
  · have next := start_add_le steps behind
    omega

theorem exists_lays (bound : place < start steps methods + 2) :
    ∃ shape, Lays methods steps place shape := by
  rcases Nat.lt_or_ge place (start steps methods) with inside | behind
  · have declared : place / (6 * steps + 5) < methods :=
      Nat.div_lt_of_lt_mul (Nat.mul_comm .. ▸ inside)
    have split : start steps (place / (6 * steps + 5)) + place % (6 * steps + 5) = place :=
      Nat.div_add_mod' ..
    generalize place / (6 * steps + 5) = number at declared split
    have bounded : place % (6 * steps + 5) < 6 * steps + 5 := Nat.mod_lt _ (Nat.succ_pos _)
    generalize place % (6 * steps + 5) = offset at split bounded
    subst split
    obtain rfl | ⟨step, within, assigned⟩ | closing : offset = 0 ∨
        (∃ step < steps, offset = 6 * step + 1 ∨ offset = 6 * step + 2 ∨ offset = 6 * step + 3 ∨
          offset = 6 * step + 4 ∨ offset = 6 * step + 5 ∨ offset = 6 * step + 6) ∨
        (offset = 6 * steps + 1 ∨ offset = 6 * steps + 2 ∨ offset = 6 * steps + 3 ∨
          offset = 6 * steps + 4) := by
      rcases Nat.eq_zero_or_pos offset with none | some
      · exact .inl none
      rcases Nat.lt_or_ge (6 * steps) offset with closing | assigned
      · exact .inr (.inr (by omega))
      · exact .inr (.inl ⟨(offset - 1) / 6, by omega, by omega⟩)
    · exact ⟨_, .declaration declared⟩
    · rcases assigned with rfl | rfl | rfl | rfl | rfl | rfl
      · exact ⟨_, .read declared (Nat.le_of_lt within)⟩
      · exact ⟨_, .one declared within⟩
      · exact ⟨_, .sum declared within⟩
      · exact ⟨_, .target declared within⟩
      · exact ⟨_, .assignment declared within⟩
      · exact ⟨_, .statement declared within⟩
    · rcases closing with rfl | rfl | rfl | rfl
      · exact ⟨_, .read declared (Nat.le_refl steps)⟩
      · exact ⟨_, .returning declared⟩
      · exact ⟨_, .block declared⟩
      · exact ⟨_, .method declared⟩
  · obtain rfl | rfl : place = start steps methods ∨ place = start steps methods + 1 := by omega
    · exact ⟨_, .classDecl⟩
    · exact ⟨_, .compilationUnit⟩

theorem shapes_tree (methods steps : Nat) : (tree methods steps).shapes = unitRow methods steps :=
  SyntaxTree.shapes_pushAll ..

theorem size_tree (methods steps : Nat) :
    (tree methods steps).size = methods * (6 * steps + 5) + 2 := by
  rw [tree, SyntaxTree.size_pushAll, length_unitRow]
  exact Nat.zero_add _

theorem root_tree (methods steps : Nat) :
    (tree methods steps).root = some (unitId methods steps) := by
  have size : (SyntaxTree.empty.pushAll (methodRows methods steps)).size = start steps methods := by
    rw [SyntaxTree.size_pushAll, length_methodRows]
    exact Nat.zero_add _
  rw [tree, unitRow, SyntaxTree.pushAll_append]
  change some (TreeId.mk (SyntaxTree.push _ _).size) = _
  rw [SyntaxTree.size_push, size]

theorem shape?_tree_iff {id : TreeId} :
    (tree methods steps).shape? id = some shape ↔ Lays methods steps id.index shape := by
  rw [SyntaxTree.shape?_eq_getElem?, shapes_tree]
  constructor
  · intro found
    obtain ⟨bound, _⟩ := List.getElem?_eq_some_iff.mp found
    obtain ⟨laid, lays⟩ := exists_lays (length_unitRow methods steps ▸ bound)
    cases (getElem?_of_lays lays).symm.trans found
    exact lays
  · exact getElem?_of_lays

end

end Synthetic

end FlowLink
