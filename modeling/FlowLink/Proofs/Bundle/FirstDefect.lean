import FlowLink.Proofs.Bundle.Validation
import FlowLink.Proofs.Facts
import FlowLink.Proofs.Tree.Validation
import Mathlib.Data.Finset.Card

namespace FlowLink

open Std

/-! # The defect that is reported

A bundle with several defects is refused with one of them.  `Reports` says which: the places are
checked in a fixed order, and every place before the reported one is in order.  Only the
associations of a graph have no order of their own, so that any dangling one may be reported.
-/

section Search

variable {α β : Type} {precedes : α → α → Prop} {items : List α} {test : α → Option β} {found : β}

/-- In a list that is sorted strictly, the first hit is the hit that no other one precedes. -/
theorem findSome?_eq_some_iff_of_sorted
    (asymmetric : ∀ left right, precedes left right → ¬precedes right left)
    (sorted : items.Pairwise precedes) :
    items.findSome? test = some found ↔
      ∃ item ∈ items, test item = some found ∧
        ∀ earlier ∈ items, precedes earlier item → test earlier = none := by
  rw [List.findSome?_eq_some_iff]
  constructor
  · rintro ⟨before, item, after, rfl, hit, missed⟩
    obtain ⟨-, later, -⟩ := List.pairwise_append.mp sorted
    refine ⟨item, by simp, hit, fun earlier member precedesItem => ?_⟩
    rcases List.mem_append.mp member with inBefore | inRest
    · exact missed earlier inBefore
    rcases List.mem_cons.mp inRest with rfl | inAfter
    · exact absurd precedesItem (asymmetric _ _ precedesItem)
    · exact absurd precedesItem (asymmetric _ _ ((List.pairwise_cons.mp later).1 earlier inAfter))
  · rintro ⟨item, member, hit, missed⟩
    obtain ⟨before, after, rfl⟩ := List.append_of_mem member
    obtain ⟨-, -, across⟩ := List.pairwise_append.mp sorted
    refine ⟨before, item, after, rfl, hit, fun earlier inBefore => ?_⟩
    exact missed earlier (List.mem_append_left _ inBefore) (across earlier inBefore item (by simp))

theorem slots_sorted (items : List α) :
    items.zipIdx.Pairwise fun left right => left.2 < right.2 := by
  rw [← List.pairwise_map (f := Prod.snd) (R := (· < ·)), List.zipIdx_map_snd]
  exact List.pairwise_lt_range'

/-- The first hit in an arena stands in the lowest slot with a hit. -/
theorem findSome?_slots_eq_some_iff {arena : Array α} {test : α × Nat → Option β} :
    arena.toList.zipIdx.findSome? test = some found ↔
      ∃ item slot, arena[slot]? = some item ∧ test (item, slot) = some found ∧
        ∀ other earlier, arena[earlier]? = some other → earlier < slot →
          test (other, earlier) = none := by
  rw [findSome?_eq_some_iff_of_sorted (fun _ _ => Nat.lt_asymm) (slots_sorted _)]
  simp only [Prod.exists, Prod.forall, List.mk_mem_zipIdx_iff_getElem?, Array.getElem?_toList]

theorem findSome?_slots_eq_none_iff {arena : Array α} {test : α × Nat → Option β} :
    arena.toList.zipIdx.findSome? test = none ↔
      ∀ item slot, arena[slot]? = some item → slot < arena.size → test (item, slot) = none := by
  simp only [List.findSome?_eq_none_iff, Prod.forall, List.mk_mem_zipIdx_iff_getElem?,
    Array.getElem?_toList]
  constructor
  · intro missed item slot stored _
    exact missed item slot stored
  · intro missed item slot stored
    obtain ⟨bound, -⟩ := Array.getElem?_eq_some_iff.mp stored
    exact missed item slot stored bound

end Search

namespace SyntaxTree

variable {tree : SyntaxTree} {slot : Nat} {element : Element} {defect : Defect}

/-- The elements before `count` are in their slots and refer into the arena. -/
def SoundBelow (tree : SyntaxTree) (count : Nat) : Prop :=
  ∀ (element : Element) (slot : Nat), tree.elements[slot]? = some element → slot < count →
    element.id.index = slot ∧ ∀ child ∈ element.shape.children, child.index < tree.size

/-- The lowest slot that is not in order is reported, by its id if that is wrong and by its first
missing child otherwise.  The root is looked at when all slots are in order. -/
inductive Reports (tree : SyntaxTree) : Defect → Prop where
  | misplaced {slot : Nat} {element : Element} (stored : tree.elements[slot]? = some element)
      (below : tree.SoundBelow slot) (elsewhere : element.id.index ≠ slot) :
      Reports tree (.misplaced slot element.id)
  | missingChild {slot : Nat} {element : Element} {before after : List TreeId} {child : TreeId}
      (stored : tree.elements[slot]? = some element) (below : tree.SoundBelow slot)
      (placed : element.id.index = slot)
      (parts : element.shape.children = before ++ child :: after)
      (present : ∀ earlier ∈ before, earlier.index < tree.size)
      (missing : tree.size ≤ child.index) : Reports tree (.missingChild ⟨slot⟩ child)
  | missingRoot {root : TreeId} (below : tree.SoundBelow tree.size)
      (rooted : tree.root = some root) (missing : tree.size ≤ root.index) :
      Reports tree (.missingRoot root)

theorem slotDefect?_of_misplaced (elsewhere : element.id.index ≠ slot) :
    tree.slotDefect? slot element = some (.misplaced slot element.id) :=
  if_pos elsewhere

/-- A slot that holds its own element is reported by the first child outside the arena. -/
theorem slotDefect?_eq_some_iff_of_placed (stored : tree.elements[slot]? = some element)
    (placed : element.id.index = slot) :
    tree.slotDefect? slot element = some defect ↔
      ∃ child before after, element.shape.children = before ++ child :: after ∧
        (∀ earlier ∈ before, earlier.index < tree.size) ∧ tree.size ≤ child.index ∧
        defect = .missingChild ⟨slot⟩ child := by
  have parent : element.id = ⟨slot⟩ := congrArg TreeId.mk placed
  rw [slotDefect?, if_neg (not_not.mpr placed), children_of_placed stored placed, parent]
  simp only [Option.map_eq_some_iff, List.find?_eq_some_iff_append, decide_eq_true_eq,
    Bool.not_eq_true', decide_eq_false_iff_not, Nat.not_le]
  constructor
  · rintro ⟨child, ⟨missing, before, after, parts, present⟩, rfl⟩
    exact ⟨child, before, after, parts, present, missing, rfl⟩
  · rintro ⟨child, before, after, parts, present, missing, rfl⟩
    exact ⟨child, ⟨missing, before, after, parts, present⟩, rfl⟩

theorem soundBelow_iff {count : Nat} :
    tree.SoundBelow count ↔
      ∀ element slot, tree.elements[slot]? = some element → slot < count →
        tree.slotDefect? slot element = none := by
  rw [SoundBelow]
  apply forall_congr'
  intro element
  apply forall_congr'
  intro slot
  constructor
  · intro sound stored below
    exact (slotDefect?_eq_none_iff stored).mpr (sound stored below)
  · intro faultless stored below
    exact (slotDefect?_eq_none_iff stored).mp (faultless stored below)

theorem soundBelow_size_iff :
    tree.SoundBelow tree.size ↔
      (tree.elements.toList.zipIdx.findSome? fun (element, slot) =>
        tree.slotDefect? slot element) = none := by
  rw [soundBelow_iff, findSome?_slots_eq_none_iff]
  rfl

theorem rootDefect?_eq_some_iff :
    tree.rootDefect? = some defect ↔
      ∃ root, tree.root = some root ∧ tree.size ≤ root.index ∧ .missingRoot root = defect := by
  simp only [rootDefect?, Option.map_eq_some_iff, Option.filter_eq_some_iff, decide_eq_true_eq,
    and_assoc]

theorem defect?_eq_some_iff : tree.defect? = some defect ↔ tree.Reports defect := by
  rw [defect?, Option.or_eq_some_iff, ← soundBelow_size_iff, rootDefect?_eq_some_iff,
    findSome?_slots_eq_some_iff]
  constructor
  · rintro (⟨element, slot, stored, offends, earlier⟩ | ⟨below, root, rooted, missing, rfl⟩)
    · have below := soundBelow_iff.mpr earlier
      by_cases placed : element.id.index = slot
      · obtain ⟨child, before, after, parts, present, missing, rfl⟩ :=
          (slotDefect?_eq_some_iff_of_placed stored placed).mp offends
        exact .missingChild stored below placed parts present missing
      · obtain rfl := Option.some.inj ((slotDefect?_of_misplaced placed).symm.trans offends)
        exact .misplaced stored below placed
    · exact .missingRoot below rooted missing
  · intro reports
    cases reports with
    | misplaced stored below elsewhere =>
        exact .inl ⟨_, _, stored, slotDefect?_of_misplaced elsewhere, soundBelow_iff.mp below⟩
    | missingChild stored below placed parts present missing =>
        have offends := (slotDefect?_eq_some_iff_of_placed stored placed).mpr
          ⟨_, _, _, parts, present, missing, rfl⟩
        exact .inl ⟨_, _, stored, offends, soundBelow_iff.mp below⟩
    | missingRoot below rooted missing => exact .inr ⟨below, _, rooted, missing, rfl⟩

end SyntaxTree

namespace FeatureGraph

variable {graph : FeatureGraph} {defect : Defect}

/-- The nodes before `count` are in their slots. -/
def PlacedBelow (graph : FeatureGraph) (count : Nat) : Prop :=
  ∀ (node : Node) (slot : Nat), graph.nodes[slot]? = some node → slot < count →
    node.id.index = slot

/-- The lowest misplaced node is reported, else any dangling association, else the dangling edge
that comes before all others. -/
inductive Reports (graph : FeatureGraph) : Defect → Prop where
  | misplaced {slot : Nat} {node : Node} (stored : graph.nodes[slot]? = some node)
      (below : graph.PlacedBelow slot) (elsewhere : node.id.index ≠ slot) :
      Reports graph (.misplaced slot node.id)
  | danglingAssociation {tree : TreeId} {node : NodeId} (placed : graph.PlacedBelow graph.nodeCount)
      (associated : graph.treeNode? tree = some node) (missing : graph.hasNode node = false) :
      Reports graph (.danglingAssociation tree node)
  | danglingEdge {edge : Edge} (placed : graph.PlacedBelow graph.nodeCount)
      (registered : ∀ (tree : TreeId) (node : NodeId),
        graph.treeNode? tree = some node → graph.hasNode node = true)
      (present : graph.hasEdge edge = true) (dangling : graph.hasEnds edge = false)
      (tied : ∀ earlier : Edge, graph.hasEdge earlier = true → earlier.Precedes edge →
        graph.hasEnds earlier = true) :
      Reports graph (.danglingEdge edge)

theorem placedBelow_nodeCount_iff :
    graph.PlacedBelow graph.nodeCount ↔
      (graph.nodes.toList.zipIdx.findSome? fun (node, slot) =>
        if node.id.index ≠ slot then some (Defect.misplaced slot node.id) else none) = none := by
  rw [findSome?_slots_eq_none_iff]
  simp only [ite_eq_right_iff, reduceCtorEq, imp_false, not_not]
  rfl

theorem misplaced_iff :
    (graph.nodes.toList.zipIdx.findSome? fun (node, slot) =>
        if node.id.index ≠ slot then some (Defect.misplaced slot node.id) else none) =
        some defect ↔
      ∃ node slot, graph.nodes[slot]? = some node ∧ node.id.index ≠ slot ∧
        .misplaced slot node.id = defect ∧ graph.PlacedBelow slot := by
  rw [findSome?_slots_eq_some_iff]
  simp only [Option.ite_none_right_eq_some, Option.some.injEq, and_assoc, ite_eq_right_iff,
    reduceCtorEq, imp_false, not_not]
  rfl

theorem danglingEdge_iff :
    (graph.edges.findSome? fun edge =>
        if graph.hasEnds edge then none else some (Defect.danglingEdge edge)) = some defect ↔
      ∃ edge, graph.hasEdge edge = true ∧ graph.hasEnds edge = false ∧
        .danglingEdge edge = defect ∧
        ∀ earlier : Edge, graph.hasEdge earlier = true → earlier.Precedes edge →
          graph.hasEnds earlier = true := by
  rw [findSome?_eq_some_iff_of_sorted (fun _ _ => Edge.Precedes.asymm) graph.edges_ordered]
  simp only [mem_edges_iff, Option.ite_none_left_eq_some, Option.some.injEq, and_assoc,
    Bool.not_eq_true, ite_eq_left_iff, reduceCtorEq, imp_false, Bool.not_eq_false]

theorem reports_of_defect? (refused : graph.defect? = some defect) : graph.Reports defect := by
  rw [defect?, Option.or_eq_some_iff, Option.or_eq_some_iff, Option.or_eq_none_iff,
    ← placedBelow_nodeCount_iff, registered_iff_noDanglingAssociation, misplaced_iff,
    danglingEdge_iff] at refused
  rcases refused with (⟨node, slot, stored, elsewhere, rfl, below⟩ | ⟨placed, associations⟩) |
    ⟨⟨placed, registered⟩, edge, present, dangling, rfl, tied⟩
  · exact .misplaced stored below elsewhere
  · obtain ⟨⟨tree, node⟩, listed, missing⟩ := List.exists_of_findSome?_eq_some associations
    rw [ExtTreeMap.mem_toList_iff_getElem?_eq_some] at listed
    rw [Option.ite_none_left_eq_some, Bool.not_eq_true, Option.some.injEq] at missing
    obtain ⟨missing, rfl⟩ := missing
    exact .danglingAssociation placed listed missing
  · exact .danglingEdge placed registered present dangling tied

theorem PlacedBelow.placed (below : graph.PlacedBelow graph.nodeCount) {slot : Nat} {node : Node}
    (stored : graph.nodes[slot]? = some node) : node.id.index = slot :=
  below node slot stored (Array.getElem?_eq_some_iff.mp stored).1

/-- Where an association dangles and all nodes are in place, an association is reported. -/
theorem defect?_of_danglingAssociation {tree : TreeId} {node : NodeId}
    (placed : graph.PlacedBelow graph.nodeCount) (associated : graph.treeNode? tree = some node)
    (missing : graph.hasNode node = false) :
    ∃ tree node, graph.defect? = some (.danglingAssociation tree node) := by
  cases refused : graph.defect? with
  | none =>
      have intact := defect?_eq_none_iff.mp refused
      exact absurd (intact.registered tree node associated) (Bool.eq_false_iff.mp missing)
  | some reported =>
      cases reports_of_defect? refused with
      | misplaced stored _ elsewhere => exact absurd (placed.placed stored) elsewhere
      | danglingAssociation _ _ _ => exact ⟨_, _, rfl⟩
      | danglingEdge _ registered _ _ _ =>
          exact absurd (registered tree node associated) (Bool.eq_false_iff.mp missing)

/-- What may be reported is reported, but for the choice among several dangling associations. -/
theorem defect?_of_reports (reports : graph.Reports defect) :
    graph.defect? = some defect ∨
      (∃ tree node, defect = .danglingAssociation tree node) ∧
        ∃ tree node, graph.defect? = some (.danglingAssociation tree node) := by
  rw [defect?, Option.or_eq_some_iff, Option.or_eq_some_iff, Option.or_eq_none_iff,
    ← placedBelow_nodeCount_iff, registered_iff_noDanglingAssociation, misplaced_iff,
    danglingEdge_iff]
  cases reports with
  | misplaced stored below elsewhere =>
      exact .inl (.inl (.inl ⟨_, _, stored, elsewhere, rfl, below⟩))
  | danglingAssociation placed associated missing =>
      exact .inr ⟨⟨_, _, rfl⟩, defect?_of_danglingAssociation placed associated missing⟩
  | danglingEdge placed registered present dangling tied =>
      exact .inl (.inr ⟨⟨placed, registered⟩, _, present, dangling, rfl, tied⟩)

end FeatureGraph

namespace Bundle

variable {bundle : Bundle} {defect : Defect} {warnings : List Event}

/-- The tree is judged first, then the graph, and at last whether there is a root. -/
inductive Reports (bundle : Bundle) : Defect → Prop where
  | tree {defect : SyntaxTree.Defect} (reports : bundle.tree.Reports defect) :
      Reports bundle (.tree defect)
  | graph {defect : FeatureGraph.Defect} (sound : bundle.tree.Sound)
      (reports : bundle.graph.Reports defect) : Reports bundle (.graph defect)
  | rootless (sound : bundle.tree.Sound) (intact : bundle.graph.Intact)
      (absent : bundle.tree.root = none) : Reports bundle .rootless

theorem validate_eq_error_iff : bundle.validate = .error defect ↔ bundle.defect? = some defect := by
  unfold validate
  cases bundle.defect? with
  | none => simp
  | some first => simp

theorem defect?_eq_some_iff :
    bundle.defect? = some defect ↔
      (∃ ofTree, bundle.tree.defect? = some ofTree ∧ .tree ofTree = defect) ∨
        bundle.tree.Sound ∧
          ((∃ ofGraph, bundle.graph.defect? = some ofGraph ∧ .graph ofGraph = defect) ∨
            bundle.graph.Intact ∧ bundle.tree.root = none ∧ .rootless = defect) := by
  rw [defect?, Option.or_assoc, Option.or_eq_some_iff, Option.or_eq_some_iff,
    Option.map_eq_none_iff, Option.map_eq_none_iff, Option.map_eq_some_iff,
    Option.map_eq_some_iff, SyntaxTree.defect?_eq_none_iff, FeatureGraph.defect?_eq_none_iff,
    Option.ite_none_right_eq_some, Option.isNone_iff_eq_none, Option.some.injEq]

theorem reports_of_error (refused : bundle.validate = .error defect) : bundle.Reports defect := by
  rw [validate_eq_error_iff, defect?_eq_some_iff] at refused
  rcases refused with ⟨ofTree, first, rfl⟩ | ⟨sound, ⟨ofGraph, first, rfl⟩ | ⟨intact, absent, rfl⟩⟩
  · exact .tree (SyntaxTree.defect?_eq_some_iff.mp first)
  · exact .graph sound (FeatureGraph.reports_of_defect? first)
  · exact .rootless sound intact absent

theorem error_of_reports (reports : bundle.Reports defect) :
    bundle.validate = .error defect ∨
      (∃ tree node, defect = .graph (.danglingAssociation tree node)) ∧
        ∃ tree node, bundle.validate = .error (.graph (.danglingAssociation tree node)) := by
  simp only [validate_eq_error_iff, defect?_eq_some_iff]
  cases reports with
  | tree reports => exact .inl (.inl ⟨_, SyntaxTree.defect?_eq_some_iff.mpr reports, rfl⟩)
  | graph sound reports =>
      rcases FeatureGraph.defect?_of_reports reports with
        first | ⟨⟨tree, node, rfl⟩, other, otherNode, first⟩
      · exact .inl (.inr ⟨sound, .inl ⟨_, first, rfl⟩⟩)
      · exact .inr ⟨⟨tree, node, rfl⟩, other, otherNode, .inr ⟨sound, .inl ⟨_, first, rfl⟩⟩⟩
  | rootless sound intact absent => exact .inl (.inr ⟨sound, .inr ⟨intact, absent, rfl⟩⟩)

theorem accepted_iff :
    (∃ warnings, bundle.validate = .ok warnings) ↔
      bundle.tree.Sound ∧ bundle.graph.Intact ∧
        ∃ root, bundle.tree.root = some root ∧ root.index < bundle.tree.size := by
  simp only [validate_eq_ok_iff, exists_and_left, exists_eq', and_true, defect?_eq_none_iff,
    SyntaxTree.defect?_eq_none_iff, Option.isSome_iff_exists]
  constructor
  · rintro ⟨sound, intact, root, rooted⟩
    exact ⟨sound, intact, root, rooted, sound.rooted root rooted⟩
  · rintro ⟨sound, intact, root, rooted, -⟩
    exact ⟨sound, intact, root, rooted⟩

/-- The ids that the analysis mentions but the tree does not have. -/
def unknownIds (bundle : Bundle) : List TreeId :=
  bundle.analysis.mentioned.toList.filter fun id => (bundle.tree.get? id).isNone

theorem mem_unknownIds_iff {id : TreeId} :
    id ∈ bundle.unknownIds ↔ bundle.analysis.Mentions id ∧ bundle.tree.size ≤ id.index := by
  rw [unknownIds, List.mem_filter, ExtTreeSet.mem_toList, Analysis.mem_mentioned_iff,
    Option.isNone_iff_eq_none, SyntaxTree.get?, Array.getElem?_eq_none_iff]
  rfl

theorem unknownIds_nodup (bundle : Bundle) : bundle.unknownIds.Nodup := by
  apply List.Nodup.filter
  exact ExtTreeSet.distinct_toList.imp fun distinct same =>
    distinct (Std.compare_eq_iff_eq.mpr same)

theorem warnings_eq (bundle : Bundle) :
    bundle.warnings =
      if bundle.unknownIds.toFinset = ∅ then []
      else [.unknownElements bundle.unknownIds.toFinset.card] := by
  rw [warnings, unknownElements, List.countP_eq_length_filter, ← unknownIds,
    List.toFinset_card_of_nodup bundle.unknownIds_nodup]
  simp only [List.length_eq_zero_iff, List.toFinset_eq_empty_iff]

/-- Exactly the bundles with a sound tree, an intact graph and a root are accepted, and any other is
refused with the defect that is due.  The analysis never decides this: ids that only it mentions are
counted in a warning. -/
theorem validate_exact (bundle : Bundle) :
    ((∃ warnings, bundle.validate = .ok warnings) ↔
      bundle.tree.Sound ∧ bundle.graph.Intact ∧
        ∃ root, bundle.tree.root = some root ∧ root.index < bundle.tree.size) ∧
    (∀ defect, bundle.validate = .error defect → bundle.Reports defect) ∧
    (∀ defect, bundle.Reports defect → bundle.validate = .error defect ∨
      (∃ tree node, defect = .graph (.danglingAssociation tree node)) ∧
        ∃ tree node, bundle.validate = .error (.graph (.danglingAssociation tree node))) ∧
    (∀ warnings, bundle.validate = .ok warnings → ∃ unknown : Finset TreeId,
      (∀ id, id ∈ unknown ↔ bundle.analysis.Mentions id ∧ bundle.tree.size ≤ id.index) ∧
        warnings = if unknown = ∅ then [] else [.unknownElements unknown.card]) ∧
    ∀ analysis defect, validate { bundle with analysis := analysis } = .error defect ↔
      bundle.validate = .error defect := by
  refine ⟨accepted_iff, fun _ => reports_of_error, fun _ => error_of_reports, ?_, ?_⟩
  · intro warnings accepted
    obtain ⟨-, rfl⟩ := validate_eq_ok_iff.mp accepted
    refine ⟨bundle.unknownIds.toFinset, fun id => ?_, bundle.warnings_eq⟩
    rw [List.mem_toFinset, mem_unknownIds_iff]
  · intro analysis defect
    rw [validate_eq_error_iff, validate_eq_error_iff]
    rfl

/-- Two slots are out of order, and so are the root and the graph. -/
def crossed : Bundle where
  tree :=
    ⟨#[⟨⟨0⟩, .identifier "a"⟩, ⟨⟨1⟩, .methodCall none "f" [⟨0⟩, ⟨7⟩, ⟨8⟩]⟩, ⟨⟨5⟩, .literal "1"⟩],
      some ⟨9⟩⟩
  graph := ⟨#[⟨⟨4⟩, .comment, ""⟩], ∅, ∅⟩
  analysis := .empty

/-- A unit without types, and facts about a class that it does not have. -/
def orphaned : Bundle where
  tree := SyntaxTree.empty.push (.compilationUnit [])
  graph := .empty
  analysis := Analysis.empty.insert ⟨3⟩ ⟨0⟩ .empty

theorem crossed_refused_orphaned_warned :
    crossed.Reports (.tree (.missingChild ⟨1⟩ ⟨7⟩)) ∧
      ∃ unknown : Finset TreeId,
        (∀ id, id ∈ unknown ↔ orphaned.analysis.Mentions id ∧ orphaned.tree.size ≤ id.index) ∧
          [Event.unknownElements 1] = if unknown = ∅ then [] else [.unknownElements unknown.card] :=
  ⟨(validate_exact crossed).2.1 _ (by decide),
    (validate_exact orphaned).2.2.2.1 _ (by decide)⟩

end Bundle

end FlowLink
