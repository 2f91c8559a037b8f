import FlowLink.Proofs.Graph.Skeleton

namespace FlowLink

open Std

/-! # How a plain skeleton represents a tree

An element has the syntax node in its own slot.  The tokens follow behind all syntax nodes, in the
order of the elements that have one, so that the id of a token tells how many such elements come
before its own.  This holds of every tree without defects, also where elements are shared or lead
back to themselves, since the skeleton is drawn from the arena and not from the tree in it.
-/

/-- What the token of an element says: a name, or the value of a literal. -/
inductive Shape.Spells : Shape → NodeType → String → Prop
  | identifier (name : String) : Spells (.identifier name) .identifierToken name
  | variableDecl (name : String) (initial : Option TreeId) :
    Spells (.variableDecl name initial) .identifierToken name
  | methodDecl (name : String) (params : List TreeId) (body : Option TreeId) :
    Spells (.methodDecl name params body) .identifierToken name
  | classDecl (name : String) (members : List TreeId) :
    Spells (.classDecl name members) .identifierToken name
  | literal (value : String) : Spells (.literal value) .token value

theorem Shape.token?_eq_some_iff {shape : Shape} {type : NodeType} {contents : String} :
    shape.token? = some (type, contents) ↔ shape.Spells type contents := by
  constructor
  · intro named
    cases shape <;> cases named <;> constructor
  · intro spells
    cases spells <;> rfl

namespace SyntaxTree

theorem mem_children_iff {tree : SyntaxTree} {parent child : TreeId} :
    child ∈ tree.children parent ↔
      ∃ shape, tree.shape? parent = some shape ∧ child ∈ shape.children := by
  rw [children]
  cases tree.shape? parent <;> simp

/-- The element is there and has a token that says this. -/
def Spells (tree : SyntaxTree) (id : TreeId) (type : NodeType) (contents : String) : Prop :=
  ∃ shape, tree.shape? id = some shape ∧ shape.Spells type contents

/-- The number of elements with a token in the slots before this one. -/
def spelledBefore (tree : SyntaxTree) (id : TreeId) : Nat :=
  (tree.elements.toList.take id.index).countP fun element => element.shape.token?.isSome

/-- Where the token of an element stands, if it has one. -/
def tokenSlot (tree : SyntaxTree) (id : TreeId) : NodeId := ⟨tree.size + tree.spelledBefore id⟩

variable {tree : SyntaxTree} {id : TreeId} {token : NodeId}

theorem length_tokenTexts (elements : List Element) :
    (tokenTexts elements).length = elements.countP fun element => element.shape.token?.isSome := by
  rw [tokenTexts, List.length_filterMap_eq_countP]

theorem tokenNode?_eq_some_iff :
    tree.tokenNode? id = some token ↔
      token = tree.tokenSlot id ∧ ∃ type contents, tree.Spells id type contents := by
  rw [tokenNode?, length_tokenTexts, Option.map_eq_some_iff]
  constructor
  · intro represented
    obtain ⟨⟨type, contents⟩, named, rfl⟩ := represented
    obtain ⟨shape, found, named⟩ := Option.bind_eq_some_iff.mp named
    exact ⟨rfl, type, contents, shape, found, Shape.token?_eq_some_iff.mp named⟩
  · intro represented
    obtain ⟨rfl, type, contents, shape, found, spells⟩ := represented
    exact ⟨(type, contents),
      Option.bind_eq_some_iff.mpr ⟨shape, found, Shape.token?_eq_some_iff.mpr spells⟩, rfl⟩

/-- Every position in the row of texts is that of an element's token. -/
theorem exists_of_lt_length_tokenTexts {elements : List Element} {position : Nat}
    (bound : position < (tokenTexts elements).length) :
    ∃ done element rest, elements = done ++ element :: rest ∧
      element.shape.token?.isSome = true ∧ (tokenTexts done).length = position := by
  induction elements generalizing position with
  | nil => exact absurd bound (Nat.not_lt_zero _)
  | cons first rest ih =>
      cases named : first.shape.token? with
      | none =>
          have skipped : ∀ elements, tokenTexts (first :: elements) = tokenTexts elements :=
            fun _ => List.filterMap_cons_none named
          rw [skipped] at bound
          obtain ⟨done, element, later, rfl, isNamed, count⟩ := ih bound
          exact ⟨first :: done, element, later, rfl, isNamed, by rw [skipped, count]⟩
      | some text =>
          cases position with
          | zero => exact ⟨[], first, rest, rfl, by rw [named]; rfl, rfl⟩
          | succ position =>
              rw [tokenTexts_cons named, List.length_cons] at bound
              obtain ⟨done, element, later, rfl, isNamed, count⟩ := ih (Nat.lt_of_succ_lt_succ bound)
              exact ⟨first :: done, element, later, rfl, isNamed,
                by rw [tokenTexts_cons named, List.length_cons, count]⟩

end SyntaxTree

namespace FeatureGraph

open SyntaxTree

variable {tree : SyntaxTree} {graph : FeatureGraph} {id : TreeId} {token : NodeId}

/-! ## Validity -/

theorem foldl_intact {α : Type} {step : FeatureGraph → α → FeatureGraph} (items : List α)
    (keeps : ∀ graph item, graph.Intact → (step graph item).Intact) (intact : graph.Intact) :
    (items.foldl step graph).Intact := by
  induction items generalizing graph with
  | nil => exact intact
  | cons item rest ih => exact ih (keeps graph item intact)

theorem addChild_intact (parent : NodeId) (child : TreeId) (intact : graph.Intact) :
    (graph.addChild parent child).Intact := by
  unfold addChild
  split
  · exact putEdge_intact intact
  · exact intact

theorem addToken_intact (parent : NodeId) (shape : Shape) (intact : graph.Intact) :
    (graph.addToken parent shape).Intact := by
  unfold addToken
  split
  · exact putEdge_intact (createNode_intact intact)
  · exact intact

theorem addStructure_intact (tree : SyntaxTree) (element : Element) (intact : graph.Intact) :
    (graph.addStructure tree element).Intact := by
  unfold addStructure
  split
  · exact addToken_intact _ _
      (foldl_intact _ (fun _ child intact => addChild_intact _ child intact) intact)
  · exact intact

theorem skeleton_intact (tree : SyntaxTree) : (skeleton tree).Intact := by
  simp only [skeleton, ← Array.foldl_toList]
  apply foldl_intact _ fun _ element intact => addStructure_intact tree element intact
  exact foldl_intact _ (fun _ _ intact => createTreeNode_intact intact) empty_intact

/-! ## Contents -/

/-- The graph consists of a syntax node for each element, a token behind them for each element that
has one, and the edges that join an element to its parts and to its token. -/
structure Represents (graph : FeatureGraph) (tree : SyntaxTree) : Prop where
  registered : ∀ id, id.index < tree.size →
    ∃ label, tree.label? id = some label ∧ graph.treeNode? id = some ⟨id.index⟩ ∧
      graph.node? ⟨id.index⟩ = some ⟨⟨id.index⟩, .astElement, label⟩
  unregistered : ∀ id, tree.size ≤ id.index → graph.treeNode? id = none
  spelled : ∀ id type contents, tree.Spells id type contents →
    graph.node? (tree.tokenSlot id) = some ⟨tree.tokenSlot id, type, contents⟩ ∧
      ∀ token, token ∈ graph.tokens ⟨id.index⟩ ↔ token = tree.tokenSlot id
  unspelled : ∀ id, id.index < tree.size → (∀ type contents, ¬ tree.Spells id type contents) →
    graph.tokens ⟨id.index⟩ = ∅
  nodes : ∀ node, graph.hasNode node = true ↔
    node.index < tree.size ∨
      ∃ id type contents, tree.Spells id type contents ∧ node = tree.tokenSlot id
  children : ∀ source target, graph.hasEdge ⟨source, target, .astChild⟩ = true ↔
    ∃ parent child, child ∈ tree.children parent ∧ source = ⟨parent.index⟩ ∧
      target = ⟨child.index⟩
  tokens : ∀ source target, graph.hasEdge ⟨source, target, .associatedToken⟩ = true ↔
    ∃ id type contents, tree.Spells id type contents ∧ source = ⟨id.index⟩ ∧
      target = tree.tokenSlot id
  kinds : ∀ edge, graph.hasEdge edge = true →
    edge.kind = .astChild ∨ edge.kind = .associatedToken

theorem tokens_skeleton (sound : tree.Sound) :
    (skeleton tree).tokens ⟨id.index⟩ = .ofList (tree.tokenNode? id).toList := by
  apply ExtTreeSet.ext_mem
  intro token
  rw [mem_tokens_skeleton sound, ExtTreeSet.mem_ofList, List.contains_iff_mem, Option.mem_toList]

theorem hasNode_skeleton_iff (sound : tree.Sound) {node : NodeId} :
    (skeleton tree).hasNode node = true ↔
      node.index < tree.size ∨
        ∃ id type contents, tree.Spells id type contents ∧ node = tree.tokenSlot id := by
  rw [hasNode_iff, (skeleton_joins sound).nodeCount]
  constructor
  · intro bound
    rcases Nat.lt_or_ge node.index tree.size with inside | behind
    · exact .inl inside
    · obtain ⟨done, element, rest, split, named, count⟩ :=
        exists_of_lt_length_tokenTexts (Nat.sub_lt_left_of_lt_add behind bound)
      obtain ⟨⟨type, contents⟩, named⟩ := Option.isSome_iff_exists.mp named
      refine .inr ⟨⟨done.length⟩, type, contents,
        ⟨element.shape, shape?_of_split split, Shape.token?_eq_some_iff.mp named⟩, ?_⟩
      rw [tokenSlot, spelledBefore, split, List.take_left' rfl, ← length_tokenTexts, count]
      exact congrArg NodeId.mk (Nat.add_sub_cancel' behind).symm
  · intro known
    rcases known with inside | ⟨id, type, contents, ⟨shape, found, spells⟩, rfl⟩
    · exact Nat.lt_add_right _ inside
    · obtain ⟨done, element, rest, split, rfl, rfl⟩ := exists_split found
      have named := Shape.token?_eq_some_iff.mpr spells
      have fewer : (tokenTexts done).length < (tokenTexts tree.elements.toList).length := by
        rw [split, tokenTexts_append, tokenTexts_cons named, List.length_append, List.length_cons]
        omega
      rw [tokenSlot, spelledBefore, split, List.take_left' rfl, ← length_tokenTexts, ← split]
      exact Nat.add_lt_add_left fewer _

theorem skeleton_represents (sound : tree.Sound) : (skeleton tree).Represents tree where
  registered id inside := by
    obtain ⟨shape, found⟩ := lt_size_iff.mp inside
    refine ⟨shape.label, ?_, ?_, node?_skeleton_of_element sound found⟩
    · rw [label?, found]
      rfl
    · rw [treeNode?_skeleton sound, if_pos inside]
  unregistered id outside := by
    rw [treeNode?_skeleton sound, if_neg (Nat.not_lt.mpr outside)]
  spelled id type contents spells := by
    have represented := tokenNode?_eq_some_iff.mpr ⟨rfl, type, contents, spells⟩
    obtain ⟨shape, found, spells⟩ := spells
    refine ⟨node?_skeleton_of_token sound found (Shape.token?_eq_some_iff.mpr spells) represented,
      ?_⟩
    intro token
    rw [mem_tokens_skeleton sound, represented, Option.some.injEq, eq_comm]
  unspelled id _ silent := by
    have unrepresented : tree.tokenNode? id = none := by
      rw [Option.eq_none_iff_forall_ne_some]
      intro token represented
      obtain ⟨_, type, contents, spells⟩ := tokenNode?_eq_some_iff.mp represented
      exact silent type contents spells
    rw [tokens_skeleton sound, unrepresented]
    rfl
  nodes node := hasNode_skeleton_iff sound
  children source target := by
    rw [hasEdge_skeleton sound]
    constructor
    · intro isEdge
      cases isEdge with
      | child found isChild => exact ⟨_, _, mem_children_iff.mpr ⟨_, found, isChild⟩, rfl, rfl⟩
    · intro refers
      obtain ⟨parent, child, isChild, rfl, rfl⟩ := refers
      obtain ⟨shape, found, isChild⟩ := mem_children_iff.mp isChild
      exact .child found isChild
  tokens source target := by
    rw [hasEdge_skeleton sound]
    constructor
    · intro isEdge
      cases isEdge with
      | token represented =>
          obtain ⟨isSlot, type, contents, spells⟩ := tokenNode?_eq_some_iff.mp represented
          exact ⟨_, type, contents, spells, rfl, isSlot⟩
    · intro represented
      obtain ⟨id, type, contents, spells, rfl, rfl⟩ := represented
      exact .token (tokenNode?_eq_some_iff.mpr ⟨rfl, type, contents, spells⟩)
  kinds edge present := by
    cases (hasEdge_skeleton sound).mp present with
    | child => exact .inl rfl
    | token => exact .inr rfl

theorem tokenOf?_skeleton (sound : tree.Sound) :
    (skeleton tree).tokenOf? id = tree.tokenNode? id := by
  rw [tokenOf?, treeNode?_skeleton sound]
  split
  next inside =>
    rw [Option.bind_some, tokens_skeleton sound]
    cases tree.tokenNode? id <;> rfl
  next outside =>
    cases represented : tree.tokenNode? id with
    | none => rfl
    | some token =>
        obtain ⟨_, _, found, _⟩ := exists_of_tokenNode? represented
        exact absurd (lt_size_iff.mpr ⟨_, found⟩) outside

/-- The plain skeleton of a tree without defects has none either and represents the tree.  The token
of an element is the one in its slot for tokens, if it has a name or value, and there is none
otherwise.  No two elements have the same token. -/
theorem skeleton_exact (tree : SyntaxTree) (valid : tree.defect? = none) :
    (∀ shape type contents, Shape.token? shape = some (type, contents) ↔
        shape.Spells type contents) ∧
      (skeleton tree).defect? = none ∧ (skeleton tree).Represents tree ∧
      (∀ id token, (skeleton tree).tokenOf? id = some token ↔
        token = tree.tokenSlot id ∧ ∃ type contents, tree.Spells id type contents) ∧
      ∀ left right token, (skeleton tree).tokenOf? left = some token →
        (skeleton tree).tokenOf? right = some token → left = right := by
  have sound := SyntaxTree.defect?_eq_none_iff.mp valid
  simp only [tokenOf?_skeleton sound]
  exact ⟨fun _ _ _ => Shape.token?_eq_some_iff, defect?_eq_none_iff.mpr (skeleton_intact tree),
    skeleton_represents sound, fun _ _ => tokenNode?_eq_some_iff,
    fun _ _ _ isLeft isRight => tokenNode?_injective isLeft isRight⟩

/-- A class whose members are a variable, twice, and a block that leads back to the class and to the
variable again.  A literal belongs to none of them. -/
def ring : SyntaxTree where
  elements := #[⟨⟨0⟩, .classDecl "C" [⟨1⟩, ⟨1⟩, ⟨2⟩]⟩, ⟨⟨1⟩, .identifier "x"⟩,
    ⟨⟨2⟩, .block [⟨0⟩, ⟨1⟩]⟩, ⟨⟨3⟩, .literal "1"⟩]
  root := none

theorem ring_skeleton_exact :
    ring.defect? = none ∧ (skeleton ring).defect? = none ∧
      (skeleton ring).tokenOf? ⟨3⟩ = some ⟨6⟩ ∧
      (skeleton ring).node? ⟨6⟩ = some ⟨⟨6⟩, .token, "1"⟩ ∧
      (skeleton ring).tokens ⟨2⟩ = ∅ ∧ (skeleton ring).hasEdge ⟨⟨2⟩, ⟨0⟩, .astChild⟩ = true ∧
      (skeleton ring).hasNode ⟨7⟩ = false := by
  have valid : ring.defect? = none := by decide
  have spells : ring.Spells ⟨3⟩ .token "1" := ⟨_, rfl, .literal "1"⟩
  have silent : ∀ type contents, ¬ ring.Spells ⟨2⟩ type contents := by
    intro type contents spelled
    obtain ⟨_, found, spells⟩ := spelled
    cases found
    cases spells
  obtain ⟨_, intact, represents, tokens, _⟩ := skeleton_exact ring valid
  exact ⟨valid, intact, (tokens ⟨3⟩ ⟨6⟩).mpr ⟨rfl, .token, "1", spells⟩,
    (represents.spelled ⟨3⟩ .token "1" spells).1, represents.unspelled ⟨2⟩ (by decide) silent,
    (represents.children ⟨2⟩ ⟨0⟩).mpr ⟨⟨2⟩, ⟨0⟩, List.mem_cons_self, rfl, rfl⟩, by decide⟩

end FeatureGraph

end FlowLink
