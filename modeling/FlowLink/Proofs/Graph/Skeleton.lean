import FlowLink.Graph.Skeleton
import FlowLink.Proofs.Graph.Calls
import FlowLink.Proofs.Tree.Validation
import Mathlib.Data.List.Induction

namespace FlowLink

open Std

/-! # What a plain skeleton consists of

The syntax nodes of a plain skeleton stand in the slots of their elements, and the token nodes
follow in the order of the elements that they represent.  A skeleton is built by two passes over
the arena; what holds of the graph after the first elements of a pass determines each next step.
-/

namespace SyntaxTree

/-- What stands in the token nodes for these elements, in order. -/
def tokenTexts (elements : List Element) : List (NodeType × String) :=
  elements.filterMap fun element => element.shape.token?

/-- The token node of an element, if it has one. -/
def tokenNode? (tree : SyntaxTree) (id : TreeId) : Option NodeId :=
  ((tree.shape? id).bind Shape.token?).map fun _ =>
    ⟨tree.size + (tokenTexts (tree.elements.toList.take id.index)).length⟩

/-- The edges of a plain skeleton. -/
inductive SkeletonEdge (tree : SyntaxTree) : Edge → Prop
  | child {parent child : TreeId} {shape : Shape} (found : tree.shape? parent = some shape)
      (isChild : child ∈ shape.children) :
      SkeletonEdge tree ⟨⟨parent.index⟩, ⟨child.index⟩, .astChild⟩
  | token {id : TreeId} {token : NodeId} (represented : tree.tokenNode? id = some token) :
      SkeletonEdge tree ⟨⟨id.index⟩, token, .associatedToken⟩

variable {tree : SyntaxTree} {done rest : List Element} {element : Element}

theorem Sound.id_of_split (sound : tree.Sound)
    (split : tree.elements.toList = done ++ element :: rest) : element.id = ⟨done.length⟩ := by
  have stored : tree.elements[done.length]? = some element := by
    rw [← Array.getElem?_toList, split]
    simp
  exact congrArg TreeId.mk (sound.placed _ _ stored)

theorem shape?_of_split (split : tree.elements.toList = done ++ element :: rest) :
    tree.shape? ⟨done.length⟩ = some element.shape := by
  rw [shape?, get?, ← Array.getElem?_toList, split]
  simp

theorem size_eq_length : tree.size = tree.elements.toList.length := Array.length_toList.symm

theorem lt_size_iff {id : TreeId} : id.index < tree.size ↔ ∃ shape, tree.shape? id = some shape := by
  simp only [shape?, get?, Option.map_eq_some_iff, Array.getElem?_eq_some_iff, size]
  constructor
  · intro bound
    exact ⟨_, _, ⟨bound, rfl⟩, rfl⟩
  · intro found
    obtain ⟨_, _, ⟨bound, _⟩, _⟩ := found
    exact bound

/-! ## Token nodes -/

theorem exists_split {id : TreeId} {shape : Shape} (found : tree.shape? id = some shape) :
    ∃ done element rest, tree.elements.toList = done ++ element :: rest ∧ id = ⟨done.length⟩ ∧
      element.shape = shape := by
  obtain ⟨element, stored, isShape⟩ := Option.map_eq_some_iff.mp found
  rw [get?, ← Array.getElem?_toList] at stored
  obtain ⟨bound, stored⟩ := List.getElem?_eq_some_iff.mp stored
  refine ⟨tree.elements.toList.take id.index, element, tree.elements.toList.drop (id.index + 1),
    ?_, ?_, isShape⟩
  · rw [← stored, ← List.drop_eq_getElem_cons bound, List.take_append_drop]
  · rw [List.length_take, Nat.min_eq_left (Nat.le_of_lt bound)]

theorem tokenTexts_append (first second : List Element) :
    tokenTexts (first ++ second) = tokenTexts first ++ tokenTexts second := List.filterMap_append

theorem tokenTexts_cons {text : NodeType × String} (named : element.shape.token? = some text) :
    tokenTexts (element :: rest) = text :: tokenTexts rest := List.filterMap_cons_some named

theorem tokenNode?_of_split (split : tree.elements.toList = done ++ element :: rest) :
    tree.tokenNode? ⟨done.length⟩ =
      element.shape.token?.map fun _ => ⟨tree.size + (tokenTexts done).length⟩ := by
  rw [tokenNode?, shape?_of_split split, split, List.take_left' rfl]
  rfl

theorem exists_of_tokenNode? {id : TreeId} {token : NodeId}
    (represented : tree.tokenNode? id = some token) :
    ∃ shape text, tree.shape? id = some shape ∧ shape.token? = some text := by
  obtain ⟨text, named, _⟩ := Option.map_eq_some_iff.mp represented
  obtain ⟨shape, found, named⟩ := Option.bind_eq_some_iff.mp named
  exact ⟨shape, text, found, named⟩

/-- Elements in later slots have later tokens. -/
theorem tokenNode?_lt {left right : TreeId} {first second : NodeId}
    (isFirst : tree.tokenNode? left = some first) (isSecond : tree.tokenNode? right = some second)
    (before : left.index < right.index) : first.index < second.index := by
  obtain ⟨_, text, found, named⟩ := exists_of_tokenNode? isFirst
  obtain ⟨_, text', found', named'⟩ := exists_of_tokenNode? isSecond
  obtain ⟨done, element, rest, split, rfl, rfl⟩ := exists_split found
  obtain ⟨done', element', rest', split', rfl, rfl⟩ := exists_split found'
  rw [tokenNode?_of_split split, named] at isFirst
  rw [tokenNode?_of_split split', named'] at isSecond
  cases isFirst
  cases isSecond
  have first : done ++ [element] <+: tree.elements.toList :=
    ⟨rest, by rw [split, List.append_assoc, List.singleton_append]⟩
  have second : done' <+: tree.elements.toList := ⟨element' :: rest', split'.symm⟩
  have within : done ++ [element] <+: done' := by
    apply List.prefix_of_prefix_length_le first second
    rw [List.length_append, List.length_singleton]
    exact before
  have fewer : (tokenTexts (done ++ [element])).length ≤ (tokenTexts done').length :=
    (within.sublist.filterMap _).length_le
  rw [tokenTexts_append, tokenTexts_cons named, List.length_append, List.length_cons] at fewer
  change tree.size + _ < tree.size + _
  omega

theorem tokenNode?_injective {left right : TreeId} {token : NodeId}
    (isLeft : tree.tokenNode? left = some token) (isRight : tree.tokenNode? right = some token) :
    left = right := by
  rcases Nat.lt_trichotomy left.index right.index with before | same | behind
  · exact absurd (tokenNode?_lt isLeft isRight before) (Nat.lt_irrefl _)
  · exact congrArg TreeId.mk same
  · exact absurd (tokenNode?_lt isRight isLeft behind) (Nat.lt_irrefl _)

theorem SkeletonEdge.source_in_arena {edge : Edge} (isEdge : tree.SkeletonEdge edge) :
    edge.source.index < tree.size := by
  cases isEdge with
  | child found _ => exact lt_size_iff.mpr ⟨_, found⟩
  | token represented =>
      obtain ⟨_, _, found, _⟩ := exists_of_tokenNode? represented
      exact lt_size_iff.mpr ⟨_, found⟩

end SyntaxTree

namespace FeatureGraph

open SyntaxTree

variable {tree : SyntaxTree} {graph : FeatureGraph} {done rest : List Element} {element : Element}
  {edge : Edge} {id : TreeId} {token : NodeId}

def syntaxNode (element : Element) : Node :=
  ⟨⟨element.id.index⟩, .astElement, element.shape.label⟩

/-- The token nodes of these elements, when this many nodes are there before. -/
def tokenNodes (count : Nat) (elements : List Element) : List Node :=
  (tokenTexts elements).mapIdx fun position (type, contents) => ⟨⟨count + position⟩, type, contents⟩

/-! ## Registering elements -/

/-- Just these elements are registered. -/
structure Registers (graph : FeatureGraph) (done : List Element) : Prop where
  nodes : graph.nodes.toList = done.map syntaxNode
  treeNodes : ∀ id, graph.treeNode? id = if id.index < done.length then some ⟨id.index⟩ else none
  edgeless : ∀ edge, graph.hasEdge edge = false

theorem addElement_registers (sound : tree.Sound)
    (split : tree.elements.toList = done ++ element :: rest) (registers : graph.Registers done) :
    (graph.addElement tree element).Registers (done ++ [element]) := by
  have isNext := sound.id_of_split split
  have count : graph.nodeCount = done.length := by
    rw [nodeCount, ← Array.length_toList, registers.nodes, List.length_map]
  have next : graph.nextId = ⟨done.length⟩ := congrArg NodeId.mk count
  have new : graph.treeNode? element.id = none := by
    rw [registers.treeNodes, isNext, if_neg (Nat.lt_irrefl _)]
  have labelled : (tree.label? element.id).getD "UNKNOWN" = element.shape.label := by
    rw [label?, isNext, shape?_of_split split]
    rfl
  rw [addElement, labelled]
  refine ⟨?_, ?_, ?_⟩
  · rw [createTreeNode_of_new new, List.map_append, ← registers.nodes]
    simp only [createNode, Array.toList_push, List.map_cons, List.map_nil, next, syntaxNode, isNext]
  · intro id
    rw [treeNode?_createTreeNode_of_new new, registers.treeNodes, next, isNext, List.length_append,
      List.length_singleton]
    by_cases same : done.length = id.index
    · rw [if_pos (congrArg TreeId.mk same), if_pos (by omega), same]
    · rw [if_neg (fun equal => same (congrArg TreeId.index equal))]
      by_cases earlier : id.index < done.length
      · rw [if_pos earlier, if_pos (by omega)]
      · rw [if_neg earlier, if_neg (by omega)]
  · intro edge
    rw [createTreeNode_of_new new]
    exact registers.edgeless edge

theorem foldl_addElement_registers (sound : tree.Sound)
    (split : tree.elements.toList = done ++ rest) :
    (done.foldl (addElement tree) empty).Registers done := by
  induction done using List.reverseRecOn generalizing rest with
  | nil => exact ⟨rfl, fun _ => rfl, fun _ => rfl⟩
  | append_singleton done element ih =>
      rw [List.append_assoc, List.singleton_append] at split
      rw [List.foldl_concat]
      exact addElement_registers sound split (ih split)

/-! ## Joining elements -/

/-- All elements are registered, and just these have their edges and tokens. -/
structure Joins (graph : FeatureGraph) (tree : SyntaxTree) (done : List Element) : Prop where
  nodes : graph.nodes.toList = tree.elements.toList.map syntaxNode ++ tokenNodes tree.size done
  treeNodes : ∀ id, graph.treeNode? id = if id.index < tree.size then some ⟨id.index⟩ else none
  edges : ∀ edge, graph.hasEdge edge = true ↔
    tree.SkeletonEdge edge ∧ edge.source.index < done.length

theorem Joins.nodeCount (joins : graph.Joins tree done) :
    graph.nodeCount = tree.size + (tokenTexts done).length := by
  rw [FeatureGraph.nodeCount, ← Array.length_toList, joins.nodes, List.length_append,
    List.length_map, ← size_eq_length, tokenNodes, List.length_mapIdx]

theorem Joins.hasNode (joins : graph.Joins tree done) {slot : Nat} (inside : slot < tree.size) :
    graph.hasNode ⟨slot⟩ = true := by
  rw [hasNode_iff, joins.nodeCount]
  exact Nat.lt_add_right _ inside

def childEdges (slot : Nat) (children : List TreeId) : List Edge :=
  children.map fun child => ⟨⟨slot⟩, ⟨child.index⟩, .astChild⟩

theorem foldl_addChild {slot : Nat} {children : List TreeId}
    (registered : ∀ child ∈ children, graph.treeNode? child = some ⟨child.index⟩) :
    children.foldl (addChild ⟨slot⟩) graph = graph.putEdges (childEdges slot children) := by
  induction children generalizing graph with
  | nil => rfl
  | cons child rest ih =>
      have first : addChild ⟨slot⟩ graph child =
          (graph.putEdge ⟨⟨slot⟩, ⟨child.index⟩, .astChild⟩).1 := by
        rw [addChild, registered child List.mem_cons_self]
      rw [List.foldl_cons, first, ih]
      · rfl
      · intro other member
        rw [treeNode?, putEdge_treeNodes]
        exact registered other (List.mem_cons_of_mem _ member)

/-- The edges of the next element are those to its children and to its token. -/
theorem skeletonEdge_next (split : tree.elements.toList = done ++ element :: rest) :
    (tree.SkeletonEdge edge ∧ edge.source.index = done.length) ↔
      (∃ child ∈ element.shape.children, edge = ⟨⟨done.length⟩, ⟨child.index⟩, .astChild⟩) ∨
        (element.shape.token?.isSome = true ∧
          edge = ⟨⟨done.length⟩, ⟨tree.size + (tokenTexts done).length⟩, .associatedToken⟩) := by
  have found := shape?_of_split split
  have represented := tokenNode?_of_split split
  constructor
  · intro isEdge
    obtain ⟨isEdge, isSource⟩ := isEdge
    cases isEdge with
    | @child parent child shape found' isChild =>
        obtain ⟨slot⟩ := parent
        cases isSource
        cases found.symm.trans found'
        exact .inl ⟨child, isChild, rfl⟩
    | @token id token isToken =>
        obtain ⟨slot⟩ := id
        cases isSource
        rw [represented, Option.map_eq_some_iff] at isToken
        obtain ⟨_, named, rfl⟩ := isToken
        exact .inr ⟨Option.isSome_of_eq_some named, rfl⟩
  · intro either
    rcases either with ⟨child, isChild, rfl⟩ | ⟨named, rfl⟩
    · exact ⟨.child found isChild, rfl⟩
    · obtain ⟨text, named⟩ := Option.isSome_iff_exists.mp named
      exact ⟨.token (represented.trans (by rw [named]; rfl)), rfl⟩

theorem addToken_nodes {parent : NodeId} {shape : Shape} :
    (graph.addToken parent shape).nodes.toList =
      graph.nodes.toList ++
        (shape.token?.map fun (type, contents) => ⟨graph.nextId, type, contents⟩).toList := by
  unfold addToken
  cases shape.token? with
  | none => simp
  | some text => simp [createNode]

theorem addToken_treeNodes {parent : NodeId} {shape : Shape} :
    (graph.addToken parent shape).treeNodes = graph.treeNodes := by
  unfold addToken
  cases shape.token? with
  | none => rfl
  | some text => exact putEdge_treeNodes

theorem hasEdge_addToken {parent : NodeId} {shape : Shape} (known : graph.hasNode parent = true) :
    (graph.addToken parent shape).hasEdge edge = true ↔
      graph.hasEdge edge = true ∨
        shape.token?.isSome = true ∧ edge = ⟨parent, graph.nextId, .associatedToken⟩ := by
  unfold addToken
  cases shape.token? with
  | none => simp
  | some text =>
      obtain ⟨type, contents⟩ := text
      have ends : (graph.createNode type contents).1.hasEnds
          ⟨parent, graph.nextId, .associatedToken⟩ = true := by
        rw [hasNode_iff] at known
        rw [hasEnds, Bool.and_eq_true, hasNode_iff, hasNode_iff, nodeCount_createNode]
        exact ⟨Nat.lt_succ_of_lt known, Nat.lt_succ_self _⟩
      have same : (graph.createNode type contents).1.hasEdge edge = graph.hasEdge edge := rfl
      simp only [hasEdge_putEdge, same, Option.isSome_some, true_and]
      apply or_congr_right
      exact and_iff_left_of_imp fun _ => ends

theorem Joins.hasEdge_children (joins : graph.Joins tree done) (sound : tree.Sound)
    (split : tree.elements.toList = done ++ element :: rest) :
    (graph.putEdges (childEdges done.length element.shape.children)).hasEdge edge = true ↔
      graph.hasEdge edge = true ∨
        ∃ child ∈ element.shape.children, edge = ⟨⟨done.length⟩, ⟨child.index⟩, .astChild⟩ := by
  have found := shape?_of_split split
  rw [hasEdge_putEdges, childEdges, List.mem_map]
  apply or_congr_right
  constructor
  · intro put
    obtain ⟨⟨child, isChild, rfl⟩, _⟩ := put
    exact ⟨child, isChild, rfl⟩
  · intro isEdge
    obtain ⟨child, isChild, rfl⟩ := isEdge
    refine ⟨⟨child, isChild, rfl⟩, ?_⟩
    rw [hasEnds, Bool.and_eq_true]
    exact ⟨joins.hasNode (lt_size_iff.mpr ⟨_, found⟩),
      joins.hasNode (sound.child_in_arena found isChild)⟩

theorem addStructure_of_split (joins : graph.Joins tree done) (sound : tree.Sound)
    (split : tree.elements.toList = done ++ element :: rest) :
    graph.addStructure tree element =
      (graph.putEdges (childEdges done.length element.shape.children)).addToken ⟨done.length⟩
        element.shape := by
  have isNext := sound.id_of_split split
  have found := shape?_of_split split
  have registered : graph.treeNode? element.id = some ⟨done.length⟩ := by
    rw [isNext, joins.treeNodes, if_pos (lt_size_iff.mpr ⟨_, found⟩)]
  have parts : tree.children element.id = element.shape.children := by
    rw [isNext, children_of_shape? found]
  rw [addStructure, registered]
  simp only [parts]
  rw [foldl_addChild]
  intro child isChild
  rw [joins.treeNodes, if_pos (sound.child_in_arena found isChild)]

theorem addStructure_joins (sound : tree.Sound)
    (split : tree.elements.toList = done ++ element :: rest) (joins : graph.Joins tree done) :
    (graph.addStructure tree element).Joins tree (done ++ [element]) := by
  rw [addStructure_of_split joins sound split]
  have next : (graph.putEdges (childEdges done.length element.shape.children)).nextId =
      ⟨tree.size + (tokenTexts done).length⟩ := by
    rw [nextId, nodeCount, putEdges_nodes, ← joins.nodeCount]
    rfl
  refine ⟨?_, ?_, ?_⟩
  · rw [addToken_nodes, putEdges_nodes, joins.nodes, next, List.append_assoc]
    apply congrArg
    rw [tokenNodes, tokenNodes, tokenTexts, tokenTexts, List.filterMap_append, List.mapIdx_append]
    cases named : element.shape.token? <;> simp [named]
  · intro id
    rw [treeNode?, addToken_treeNodes, putEdges_treeNodes]
    exact joins.treeNodes id
  · intro edge
    have known : (graph.putEdges (childEdges done.length element.shape.children)).hasNode
        ⟨done.length⟩ = true := by
      rw [FeatureGraph.hasNode, FeatureGraph.nodeCount, putEdges_nodes]
      exact joins.hasNode (lt_size_iff.mpr ⟨_, shape?_of_split split⟩)
    rw [hasEdge_addToken known, next, joins.hasEdge_children sound split, joins.edges, or_assoc,
      ← skeletonEdge_next split, List.length_append, List.length_singleton, ← and_or_left,
      Nat.lt_succ_iff_lt_or_eq]

theorem foldl_addStructure_joins (sound : tree.Sound) (joins : graph.Joins tree [])
    (split : tree.elements.toList = done ++ rest) :
    (done.foldl (addStructure tree) graph).Joins tree done := by
  induction done using List.reverseRecOn generalizing rest with
  | nil => exact joins
  | append_singleton done element ih =>
      rw [List.append_assoc, List.singleton_append] at split
      rw [List.foldl_concat]
      exact addStructure_joins sound split (ih split)

theorem skeleton_joins (sound : tree.Sound) : (skeleton tree).Joins tree tree.elements.toList := by
  have registers := foldl_addElement_registers sound (List.append_nil tree.elements.toList).symm
  simp only [skeleton, ← Array.foldl_toList]
  apply foldl_addStructure_joins sound _ (List.append_nil _).symm
  refine ⟨?_, ?_, ?_⟩
  · rw [registers.nodes]
    exact (List.append_nil _).symm
  · intro id
    rw [registers.treeNodes, ← size_eq_length]
  · intro edge
    rw [registers.edgeless]
    exact ⟨nofun, fun joined => absurd joined.2 (Nat.not_lt_zero _)⟩

/-! ## Looking things up in a skeleton -/

theorem treeNode?_skeleton (sound : tree.Sound) :
    (skeleton tree).treeNode? id = if id.index < tree.size then some ⟨id.index⟩ else none :=
  (skeleton_joins sound).treeNodes id

theorem treeNode?_skeleton_eq_some_iff {node : NodeId} (sound : tree.Sound) :
    (skeleton tree).treeNode? id = some node ↔ id.index < tree.size ∧ node = ⟨id.index⟩ := by
  rw [treeNode?_skeleton sound]
  split
  next inside => simp [inside, eq_comm]
  next outside => simp [outside]

theorem hasEdge_skeleton (sound : tree.Sound) :
    (skeleton tree).hasEdge edge = true ↔ tree.SkeletonEdge edge := by
  rw [(skeleton_joins sound).edges, ← size_eq_length]
  exact and_iff_left_of_imp SkeletonEdge.source_in_arena

theorem node?_skeleton_of_element {shape : Shape} (sound : tree.Sound)
    (found : tree.shape? id = some shape) :
    (skeleton tree).node? ⟨id.index⟩ = some ⟨⟨id.index⟩, .astElement, shape.label⟩ := by
  obtain ⟨done, element, rest, split, rfl, rfl⟩ := exists_split found
  have here : (done.map syntaxNode).length = done.length := List.length_map _
  rw [node?, ← Array.getElem?_toList, (skeleton_joins sound).nodes, split, List.map_append,
    List.append_assoc, ← here, List.getElem?_append_right (Nat.le_refl _), Nat.sub_self, here]
  simp [syntaxNode, sound.id_of_split split]

theorem node?_skeleton_of_token {shape : Shape} {type : NodeType} {contents : String}
    (sound : tree.Sound) (found : tree.shape? id = some shape)
    (named : shape.token? = some (type, contents)) (represented : tree.tokenNode? id = some token) :
    (skeleton tree).node? token = some ⟨token, type, contents⟩ := by
  obtain ⟨done, element, rest, split, rfl, rfl⟩ := exists_split found
  rw [tokenNode?_of_split split, named] at represented
  cases represented
  have text : (tokenTexts tree.elements.toList)[(tokenTexts done).length]? =
      some (type, contents) := by
    rw [split, tokenTexts_append, List.getElem?_append_right (Nat.le_refl _), Nat.sub_self,
      tokenTexts_cons named, List.getElem?_cons_zero]
  have behind : (tree.elements.toList.map syntaxNode).length = tree.size := by
    rw [List.length_map, ← size_eq_length]
  rw [node?, ← Array.getElem?_toList, (skeleton_joins sound).nodes, ← behind,
    List.getElem?_append_right (Nat.le_add_right _ _), Nat.add_sub_cancel_left, tokenNodes,
    List.getElem?_mapIdx, text, behind]
  rfl

/-- An element is represented by its token and by nothing else. -/
theorem mem_tokens_skeleton (sound : tree.Sound) :
    token ∈ (skeleton tree).tokens ⟨id.index⟩ ↔ tree.tokenNode? id = some token := by
  rw [mem_tokens_iff]
  constructor
  · intro represents
    obtain ⟨⟨kind, _, present⟩, node, isNode, isToken⟩ := represents
    obtain ⟨slot⟩ := id
    generalize isEdge : (⟨⟨slot⟩, token, kind⟩ : Edge) = edge at present
    cases (hasEdge_skeleton sound).mp present with
    | child found isChild =>
        injection isEdge with _ isTarget
        obtain ⟨shape, isShape⟩ := lt_size_iff.mp (sound.child_in_arena found isChild)
        rw [isTarget, node?_skeleton_of_element sound isShape] at isNode
        cases isNode
        contradiction
    | token represented =>
        injection isEdge with isSource isTarget
        rw [isTarget, ← represented]
        exact congrArg _ (congrArg TreeId.mk (NodeId.mk.inj isSource))
  · intro represented
    obtain ⟨shape, ⟨type, contents⟩, found, named⟩ := exists_of_tokenNode? represented
    refine ⟨⟨.associatedToken, rfl, (hasEdge_skeleton sound).mpr (.token represented)⟩, _,
      node?_skeleton_of_token sound found named represented, ?_⟩
    cases shape <;> cases named <;> rfl

end FeatureGraph

end FlowLink
