import FlowLink.Codec.Bundle
import FlowLink.Proofs.Codec.Facts
import FlowLink.Proofs.Codec.Graph

namespace FlowLink

open Std

/-! # Decoded ids are numbers of 64 bits

Every format reads an id as a number that 64 bits hold, or not at all.  So whatever is decoded has
no other ids, wherever in it they stand.
-/

namespace Dialect

/-- Every value that the decoder gives is of this kind. -/
def Gives {α : Type} (decode : Datum → Option α) (kind : α → Prop) : Prop :=
  ∀ value result, decode value = some result → kind result

def Bounded (dialect : Dialect) : Prop :=
  ∀ meaning value, dialect.id? meaning = some value → value < wordLimit

theorem naturalId_lt {meaning : Meaning} {value : Nat} (read : naturalId meaning = some value) :
    value < wordLimit := by
  cases meaning with
  | natural number =>
      rw [naturalId, Option.ite_none_right_eq_some, Option.some.injEq] at read
      obtain ⟨small, rfl⟩ := read
      exact small
  | _ => contradiction

theorem json_bounded : json.Bounded := fun _ _ => naturalId_lt

theorem yaml_bounded : yaml.Bounded := fun _ _ => naturalId_lt

theorem neutral_bounded : neutral.Bounded := by
  intro meaning value read
  cases meaning with
  | negative magnitude =>
      cases magnitude with
      | zero =>
          cases read
          decide
      | succ _ => contradiction
  | natural number =>
      have natural : naturalId (.natural number) = some value := read
      exact naturalId_lt natural
  | _ => contradiction

variable {α β κ : Type} {dialect : Dialect} {kind : α → Prop} {decode : Datum → Option α}

theorem required_gives (gives : Gives decode kind) {value : Option Datum} {result : α}
    (decoded : required decode value = some result) : kind result := by
  obtain ⟨value, _, decoded⟩ := Option.bind_eq_some_iff.mp decoded
  exact gives value result decoded

theorem defaulted_gives (gives : Gives decode kind) {fallback : α} (standard : kind fallback)
    {value : Option Datum} {result : α} (decoded : defaulted fallback decode value = some result) :
    kind result := by
  cases value with
  | none =>
      cases decoded
      exact standard
  | some value => exact gives value result decoded

theorem mem_of_mapM {f : β → Option α} {items : List β} {results : List α} {result : α}
    (mapped : items.mapM f = some results) (member : result ∈ results) :
    ∃ item ∈ items, f item = some result := by
  induction items generalizing results with
  | nil =>
      cases mapped
      contradiction
  | cons item rest ih =>
      simp only [List.mapM_cons, bind, pure, Option.bind_eq_some_iff, Option.some.injEq] at mapped
      obtain ⟨first, found, later, mapped, rfl⟩ := mapped
      rcases List.mem_cons.mp member with rfl | member
      · exact ⟨item, List.mem_cons_self, found⟩
      · obtain ⟨other, listed, found⟩ := ih mapped member
        exact ⟨other, List.mem_cons_of_mem _ listed, found⟩

theorem listOf_gives (gives : Gives decode kind) :
    Gives (dialect.listOf decode) fun results => ∀ result ∈ results, kind result := by
  intro value results decoded result member
  obtain ⟨items, _, mapped⟩ := Option.bind_eq_some_iff.mp decoded
  obtain ⟨item, _, decoded⟩ := mem_of_mapM mapped member
  exact gives item result decoded

section

variable [DecidableEq α] [Ord α] [TransOrd α] [LawfulEqOrd α]

theorem setOf_gives (gives : Gives decode kind) :
    Gives (dialect.setOf decode) fun results => ∀ result ∈ results.toList, kind result := by
  intro value results decoded result member
  obtain ⟨members, listed, rfl⟩ := Option.map_eq_some_iff.mp decoded
  rw [ExtTreeSet.mem_toList, ExtTreeSet.mem_ofList, List.contains_iff_mem] at member
  exact listOf_gives gives value members listed result member

end

section

variable [DecidableEq κ] [Ord κ] [TransOrd κ] [LawfulEqOrd κ]

theorem mem_of_getElem?_ofList {entries : List (κ × α)} {key : κ} {value : α}
    (found : (ExtTreeMap.ofList entries)[key]? = some value) : (key, value) ∈ entries := by
  rw [ExtTreeMap.ofList_eq_insertMany_empty, ExtTreeMap.getElem?_insertMany_list,
    ExtTreeMap.getElem?_empty, Option.or_none, List.findSomeRev?_eq_findSome?_reverse] at found
  obtain ⟨entry, member, given⟩ := List.exists_of_findSome?_eq_some found
  rw [Option.ite_none_right_eq_some, Option.some.injEq, Std.compare_eq_iff_eq] at given
  obtain ⟨rfl, rfl⟩ := given
  exact List.mem_reverse.mp member

/-- The keys of a decoded map are addressed by numbers of 64 bits. -/
theorem mapOf_gives {key : Nat → κ} {fits : κ → Prop}
    (addressed : ∀ number, number < wordLimit → fits (key number)) (gives : Gives decode kind) :
    Gives (dialect.mapOf key decode) fun results =>
      ∀ entry ∈ results.toList, fits entry.1 ∧ kind entry.2 := by
  intro value results decoded entry member
  obtain ⟨_, _⟩ := entry
  obtain ⟨fields, _, decoded⟩ := Option.bind_eq_some_iff.mp decoded
  obtain ⟨entries, mapped, rfl⟩ := Option.map_eq_some_iff.mp decoded
  have listed := mem_of_getElem?_ofList (ExtTreeMap.mem_toList_iff_getElem?_eq_some.mp member)
  obtain ⟨field, _, read⟩ := mem_of_mapM mapped listed
  simp only [mapEntry, bind, pure, Option.bind_eq_some_iff, Option.some.injEq,
    Prod.mk.injEq] at read
  obtain ⟨number, named, content, decoded, rfl, rfl⟩ := read
  exact ⟨addressed number (naturalId_lt named), gives _ content decoded⟩

end

end Dialect

variable {dialect : Dialect}

open Dialect

theorem Dialect.index_lt (bounded : dialect.Bounded) {value : Datum} {number : Nat}
    (read : dialect.index value = some number) : number < wordLimit := by
  cases value with
  | scalar value => exact bounded value.meaning number read
  | list _ => contradiction
  | table _ => contradiction

theorem TreeId.allFit_nil : TreeId.AllFit [] := List.forall_mem_nil _

theorem TreeId.decode?_gives (bounded : dialect.Bounded) :
    Gives (TreeId.decode? dialect) TreeId.Fits := by
  intro value id decoded
  obtain ⟨number, read, rfl⟩ := Option.map_eq_some_iff.mp decoded
  exact index_lt bounded read

theorem TreeId.nullable_gives (bounded : dialect.Bounded) :
    Gives (nullable (TreeId.decode? dialect)) fun id? => TreeId.AllFit id?.toList := by
  intro value id? decoded
  unfold nullable at decoded
  split at decoded
  · cases decoded
    exact TreeId.allFit_nil
  · obtain ⟨id, read, rfl⟩ := Option.map_eq_some_iff.mp decoded
    exact List.forall_mem_singleton.mpr (TreeId.decode?_gives bounded value id read)

theorem NodeId.decode?_gives (bounded : dialect.Bounded) :
    Gives (NodeId.decode? dialect) NodeId.Fits := by
  intro value id decoded
  obtain ⟨number, read, rfl⟩ := Option.map_eq_some_iff.mp decoded
  exact index_lt bounded read

/-! ## Trees -/

namespace ShapeForm

theorem part_fits {value : Option Datum} {id : TreeId} (decoded : part value = some id) :
    id.Fits :=
  required_gives (TreeId.decode?_gives neutral_bounded) decoded

theorem part?_fits {value : Option Datum} {id? : Option TreeId} (decoded : part? value = some id?) :
    TreeId.AllFit id?.toList := by
  have absent : TreeId.AllFit (none : Option TreeId).toList := TreeId.allFit_nil
  exact defaulted_gives (TreeId.nullable_gives neutral_bounded) absent decoded

theorem parts_fit {value : Option Datum} {ids : List TreeId} (decoded : parts value = some ids) :
    TreeId.AllFit ids :=
  defaulted_gives (listOf_gives (TreeId.decode?_gives neutral_bounded)) TreeId.allFit_nil decoded

theorem build_fits {form : ShapeForm} (member : form ∈ all) {values : List (Option Datum)}
    {shape : Shape} (built : form.build values = some shape) : TreeId.AllFit shape.children := by
  simp only [all, List.mem_cons, List.not_mem_nil, or_false] at member
  rcases member with rfl | rfl | rfl | rfl | rfl | rfl | rfl | rfl | rfl | rfl | rfl | rfl | rfl |
    rfl | rfl | rfl | rfl | rfl
  -- One goal for each kind of element, with the values of its fields.
  all_goals
    simp only at built
    split at built
    · simp only [bind, pure, Option.bind_eq_some_iff, Option.some.injEq] at built
      grind [Shape.children, TreeId.allFit_nil, TreeId.allFit_cons, TreeId.allFit_append,
        part_fits, part?_fits, parts_fit]
    · contradiction

theorem mem_all_of_ofTag? {tag : Datum} {form : ShapeForm} (named : ofTag? tag = some form) :
    form ∈ all := by
  unfold ofTag? at named
  split at named
  · exact List.mem_of_find?_eq_some named
  · exact List.mem_of_getElem? named
  · contradiction

end ShapeForm

theorem Element.decode?_gives (bounded : dialect.Bounded) :
    Gives (Element.decode? dialect) Element.IdsFit := by
  intro value element decoded
  unfold Element.decode? at decoded
  split at decoded
  next fields =>
    simp only [bind, pure, Option.bind_eq_some_iff] at decoded
    obtain ⟨heads, _, decoded⟩ := decoded
    split at decoded
    next id tag =>
      simp only [Option.bind_eq_some_iff, Option.some.injEq] at decoded
      obtain ⟨_, _, form, named, id, read, shape, built, rfl⟩ := decoded
      obtain ⟨values, _, built⟩ := Option.bind_eq_some_iff.mp built
      exact ⟨required_gives (TreeId.decode?_gives bounded) read,
        ShapeForm.build_fits (ShapeForm.mem_all_of_ofTag? named) built⟩
    next => contradiction
  next => contradiction

theorem SyntaxTree.decode?_gives (bounded : dialect.Bounded) :
    Gives (SyntaxTree.decode? dialect) SyntaxTree.IdsFit := by
  intro value tree decoded
  simp only [SyntaxTree.decode?, bind, pure, Option.bind_eq_some_iff] at decoded
  obtain ⟨parts, _, decoded⟩ := decoded
  split at decoded
  next nodes root =>
    simp only [Option.bind_eq_some_iff, Option.some.injEq] at decoded
    obtain ⟨elements, readElements, root, readRoot, rfl⟩ := decoded
    have absent : TreeId.AllFit (none : Option TreeId).toList := TreeId.allFit_nil
    exact ⟨required_gives (listOf_gives (Element.decode?_gives bounded)) readElements,
      defaulted_gives (TreeId.nullable_gives bounded) absent readRoot⟩
  next => contradiction

/-! ## Graphs -/

theorem Node.decode?_gives (bounded : dialect.Bounded) :
    Gives (Node.decode? dialect) fun node => node.id.Fits := by
  intro value node decoded
  simp only [Node.decode?, bind, pure, Option.bind_eq_some_iff] at decoded
  obtain ⟨parts, _, decoded⟩ := decoded
  split at decoded
  next id type contents =>
    simp only [Option.bind_eq_some_iff, Option.some.injEq] at decoded
    obtain ⟨id, read, _, _, _, _, rfl⟩ := decoded
    exact required_gives (NodeId.decode?_gives bounded) read
  next => contradiction

theorem Link.decode?_gives (bounded : dialect.Bounded) :
    Gives (Link.decode? dialect) fun link => link.target.Fits := by
  intro value link decoded
  simp only [Link.decode?, bind, pure, Option.bind_eq_some_iff] at decoded
  obtain ⟨parts, _, decoded⟩ := decoded
  split at decoded
  next target kind =>
    simp only [Option.bind_eq_some_iff, Option.some.injEq] at decoded
    obtain ⟨target, read, _, _, rfl⟩ := decoded
    exact NodeId.decode?_gives bounded _ _ read
  next => contradiction

theorem FeatureGraph.decode?_gives (bounded : dialect.Bounded) :
    Gives (FeatureGraph.decode? dialect) FeatureGraph.IdsFit := by
  intro value graph decoded
  simp only [FeatureGraph.decode?, bind, pure, Option.bind_eq_some_iff] at decoded
  obtain ⟨parts, _, decoded⟩ := decoded
  split at decoded
  next nodes treeNodes edges =>
    simp only [Option.bind_eq_some_iff, Option.some.injEq] at decoded
    obtain ⟨nodes, readNodes, treeNodes, readTreeNodes, adjacency, readAdjacency, rfl⟩ := decoded
    have elements : ∀ entry ∈ treeNodes.toList, entry.1.Fits ∧ entry.2.Fits :=
      defaulted_gives (mapOf_gives (fun _ small => small) (NodeId.decode?_gives bounded))
        (by simp) readTreeNodes
    have sources : ∀ entry ∈ adjacency.toList,
        entry.1.Fits ∧ ∀ link ∈ entry.2.toList, link.target.Fits :=
      defaulted_gives
        (mapOf_gives (fun _ small => small) (setOf_gives (Link.decode?_gives bounded)))
        (by simp) readAdjacency
    exact
      { nodes := required_gives (listOf_gives (Node.decode?_gives bounded)) readNodes
        elements := fun entry member => (elements entry member).1
        elementNodes := fun entry member => (elements entry member).2
        sources := fun entry member => (sources entry member).1
        targets := fun entry member => (sources entry member).2 }
  next => contradiction

/-! ## Analyses -/

theorem FactMap.decode?_gives (bounded : dialect.Bounded) :
    Gives (FactMap.decode? dialect) FactMap.IdsFit := by
  intro value facts decoded
  have points : ∀ entry ∈ facts.toList, entry.1.Fits ∧ TreeId.AllFit entry.2.toList :=
    mapOf_gives (fun _ small => small) (setOf_gives (TreeId.decode?_gives bounded)) value facts
      decoded
  exact ⟨fun entry member => (points entry member).1, fun entry member => (points entry member).2⟩

theorem MethodFacts.decode?_gives (bounded : dialect.Bounded) :
    Gives (MethodFacts.decode? dialect) MethodFacts.IdsFit := by
  intro value outputs decoded
  simp only [MethodFacts.decode?, bind, pure, Option.bind_eq_some_iff] at decoded
  obtain ⟨parts, _, decoded⟩ := decoded
  split at decoded
  next lastWrites lastUses =>
    simp only [Option.bind_eq_some_iff, Option.some.injEq] at decoded
    obtain ⟨lastWrites, readWrites, lastUses, readUses, rfl⟩ := decoded
    have empty : FactMap.IdsFit ∅ := ⟨by simp, by simp⟩
    exact ⟨defaulted_gives (FactMap.decode?_gives bounded) empty readWrites,
      defaulted_gives (FactMap.decode?_gives bounded) empty readUses⟩
  next => contradiction

theorem Analysis.decode?_gives (bounded : dialect.Bounded) :
    Gives (Analysis.decode? dialect) Analysis.IdsFit := by
  intro value analysis decoded
  obtain ⟨classes, read, rfl⟩ := Option.map_eq_some_iff.mp decoded
  have entries : ∀ entry ∈ classes.toList, entry.1.Fits ∧
      ∀ method ∈ entry.2.toList, method.1.Fits ∧ method.2.IdsFit :=
    mapOf_gives (fun _ small => small)
      (mapOf_gives (fun _ small => small) (MethodFacts.decode?_gives bounded)) value classes read
  exact
    { classes := fun entry member => (entries entry member).1
      methods := fun entry member method declared => ((entries entry member).2 method declared).1
      facts := fun entry member method declared => ((entries entry member).2 method declared).2 }

end FlowLink
