import FlowLink.Proofs.Graph.Validation

namespace FlowLink

open Std

/-! # Sequences of calls

A graph is built by calls in any order and with any arguments: edges may be put before the nodes
that they join exist, and tree elements registered time and again.  What one call does to a graph
is said once, and whatever holds of a whole sequence of calls follows by induction on it.
-/

namespace FeatureGraph

/-- A call that may change a graph. -/
inductive Call where
  | createNode (type : NodeType) (contents : String)
  | createTreeNode (tree : TreeId) (type : NodeType) (contents : String)
  | putEdge (edge : Edge)
deriving DecidableEq

def runCall (graph : FeatureGraph) : Call → FeatureGraph
  | .createNode type contents => (graph.createNode type contents).1
  | .createTreeNode tree type contents => (graph.createTreeNode tree type contents).1
  | .putEdge edge => (graph.putEdge edge).1

def runCalls (graph : FeatureGraph) (calls : List Call) : FeatureGraph := calls.foldl runCall graph

/-- The id that a call allocates, if it allocates one. -/
def allocated? (graph : FeatureGraph) : Call → Option NodeId
  | .createNode type contents => some (graph.createNode type contents).2
  | .createTreeNode tree type contents =>
    if (graph.treeNode? tree).isNone then some (graph.createTreeNode tree type contents).2 else none
  | .putEdge _ => none

/-- The ids that a sequence of calls allocates, in order. -/
def allocations (graph : FeatureGraph) : List Call → List NodeId
  | [] => []
  | call :: rest => (graph.allocated? call).toList ++ allocations (graph.runCall call) rest

variable {graph before middle after : FeatureGraph} {type : NodeType} {contents : String}
  {tree other : TreeId} {node id : NodeId} {edge : Edge} {call : Call} {calls : List Call}

/-! ## One call -/

@[simp] theorem nodeCount_createNode :
    (graph.createNode type contents).1.nodeCount = graph.nodeCount + 1 := Array.size_push _

theorem node?_createNode :
    (graph.createNode type contents).1.node? id =
      if id = graph.nextId then some ⟨graph.nextId, type, contents⟩ else graph.node? id := by
  have same : id = graph.nextId ↔ id.index = graph.nodes.size := by
    cases id
    simp [nextId, nodeCount]
  simp only [node?, createNode, Array.getElem?_push, same]

theorem createTreeNode_of_registered (registered : graph.treeNode? tree = some node) :
    graph.createTreeNode tree type contents = (graph, node) := by
  simp only [createTreeNode, registered]

theorem createTreeNode_of_new (new : graph.treeNode? tree = none) :
    graph.createTreeNode tree type contents =
      ({ (graph.createNode type contents).1 with
          treeNodes := graph.treeNodes.insert tree graph.nextId }, graph.nextId) := by
  simp only [createTreeNode, new]
  rfl

theorem treeNode?_createTreeNode_of_new (new : graph.treeNode? tree = none) :
    (graph.createTreeNode tree type contents).1.treeNode? other =
      if tree = other then some graph.nextId else graph.treeNode? other := by
  rw [createTreeNode_of_new new]
  simp only [treeNode?, ExtTreeMap.getElem?_insert, Std.compare_eq_iff_eq]

/-- Whatever happens, the element has the node that was answered. -/
theorem treeNode?_createTreeNode :
    (graph.createTreeNode tree type contents).1.treeNode? tree =
      some (graph.createTreeNode tree type contents).2 := by
  cases registered : graph.treeNode? tree with
  | some node => rw [createTreeNode_of_registered registered, registered]
  | none => rw [treeNode?_createTreeNode_of_new registered, if_pos rfl,
      createTreeNode_of_new registered]

theorem hasNode_iff : graph.hasNode id = true ↔ id.index < graph.nodeCount := decide_eq_true_iff

/-! ## Growing graphs -/

/-- Nothing of the earlier graph is lost or altered in the later one. -/
structure Extends (after before : FeatureGraph) : Prop where
  nodes : ∀ id node, before.node? id = some node → after.node? id = some node
  treeNodes : ∀ tree node, before.treeNode? tree = some node → after.treeNode? tree = some node
  edges : ∀ edge, before.hasEdge edge = true → after.hasEdge edge = true

theorem Extends.refl (graph : FeatureGraph) : graph.Extends graph :=
  ⟨fun _ _ found => found, fun _ _ found => found, fun _ present => present⟩

theorem Extends.trans (second : after.Extends middle) (first : middle.Extends before) :
    after.Extends before where
  nodes id node found := second.nodes id node (first.nodes id node found)
  treeNodes tree node found := second.treeNodes tree node (first.treeNodes tree node found)
  edges edge present := second.edges edge (first.edges edge present)

theorem nextId_absent : graph.node? graph.nextId = none := Array.getElem?_size

theorem createNode_extends : (graph.createNode type contents).1.Extends graph where
  nodes id node found := by
    rw [node?_createNode, if_neg, found]
    rintro rfl
    rw [nextId_absent] at found
    contradiction
  treeNodes _ _ found := found
  edges _ present := present

theorem createTreeNode_extends : (graph.createTreeNode tree type contents).1.Extends graph := by
  cases registered : graph.treeNode? tree with
  | some node =>
      rw [createTreeNode_of_registered registered]
      exact .refl graph
  | none =>
      refine ⟨?_, ?_, ?_⟩
      · rw [createTreeNode_of_new registered]
        exact createNode_extends.nodes
      · intro other node found
        rw [treeNode?_createTreeNode_of_new registered, if_neg, found]
        rintro rfl
        rw [registered] at found
        contradiction
      · rw [createTreeNode_of_new registered]
        exact fun _ present => present

theorem putEdge_extends : (graph.putEdge edge).1.Extends graph where
  nodes id node found := by rwa [node?, putEdge_nodes]
  treeNodes tree node found := by rwa [treeNode?, putEdge_treeNodes]
  edges _ present := hasEdge_putEdge.mpr (Or.inl present)

theorem runCall_extends (graph : FeatureGraph) (call : Call) :
    (graph.runCall call).Extends graph := by
  cases call with
  | createNode type contents => exact createNode_extends
  | createTreeNode tree type contents => exact createTreeNode_extends
  | putEdge edge => exact putEdge_extends

theorem runCalls_extends (graph : FeatureGraph) (calls : List Call) :
    (graph.runCalls calls).Extends graph := by
  induction calls generalizing graph with
  | nil => exact .refl graph
  | cons call rest ih => exact (ih (graph.runCall call)).trans (runCall_extends graph call)

theorem runCalls_append (earlier later : List Call) :
    graph.runCalls (earlier ++ later) = (graph.runCalls earlier).runCalls later :=
  List.foldl_append

/-! ## Valid graphs -/

theorem createNode_intact (intact : graph.Intact) :
    (graph.createNode type contents).1.Intact where
  placed slot node found := by
    have lookup : (graph.createNode type contents).1.node? ⟨slot⟩ = some node := found
    rw [node?_createNode] at lookup
    split at lookup
    · rename_i fresh
      cases lookup
      exact congrArg NodeId.index fresh.symm
    · exact intact.placed slot node lookup
  registered tree node found := by
    have old := intact.registered tree node found
    rw [hasNode_iff] at old ⊢
    rw [nodeCount_createNode]
    omega
  tied edge present := by
    have ends := intact.tied edge present
    simp only [hasEnds, Bool.and_eq_true, hasNode_iff, nodeCount_createNode] at ends ⊢
    omega

theorem createTreeNode_intact (intact : graph.Intact) :
    (graph.createTreeNode tree type contents).1.Intact := by
  cases registered : graph.treeNode? tree with
  | some node =>
      rw [createTreeNode_of_registered registered]
      exact intact
  | none =>
      have grown : (graph.createNode type contents).1.Intact := createNode_intact intact
      refine ⟨?_, ?_, ?_⟩
      · rw [createTreeNode_of_new registered]
        exact grown.placed
      · intro other node found
        rw [treeNode?_createTreeNode_of_new registered] at found
        rw [createTreeNode_of_new registered]
        split at found
        · cases found
          rw [hasNode_iff]
          exact Nat.lt_of_lt_of_eq (Nat.lt_succ_self _) nodeCount_createNode.symm
        · exact grown.registered other node found
      · rw [createTreeNode_of_new registered]
        exact grown.tied

theorem putEdge_intact (intact : graph.Intact) : (graph.putEdge edge).1.Intact where
  placed slot node found := by
    rw [putEdge_nodes] at found
    exact intact.placed slot node found
  registered tree node found := by
    rw [treeNode?, putEdge_treeNodes] at found
    have old := intact.registered tree node found
    rwa [hasNode, nodeCount, putEdge_nodes]
  tied other present := by
    rw [show (graph.putEdge edge).1.hasEnds other = graph.hasEnds other from
      hasEnds_putEdges [edge]]
    rcases hasEdge_putEdge.mp present with old | ⟨rfl, ends⟩
    · exact intact.tied other old
    · exact ends

theorem runCall_intact (intact : graph.Intact) (call : Call) : (graph.runCall call).Intact := by
  cases call with
  | createNode type contents => exact createNode_intact intact
  | createTreeNode tree type contents => exact createTreeNode_intact intact
  | putEdge edge => exact putEdge_intact intact

theorem runCalls_intact (intact : graph.Intact) (calls : List Call) :
    (graph.runCalls calls).Intact := by
  induction calls generalizing graph with
  | nil => exact intact
  | cons call rest ih => exact ih (runCall_intact intact call)

theorem empty_intact : empty.Intact := defect?_eq_none_iff.mp rfl

/-! ## Allocated ids -/

theorem nodeCount_runCall (graph : FeatureGraph) (call : Call) :
    (graph.runCall call).nodeCount = graph.nodeCount + (graph.allocated? call).toList.length := by
  cases call with
  | createNode type contents => exact nodeCount_createNode
  | createTreeNode tree type contents =>
      cases registered : graph.treeNode? tree with
      | some node =>
          simp [runCall, allocated?, createTreeNode_of_registered registered, registered]
      | none =>
          simp only [runCall, allocated?, createTreeNode_of_new registered, registered]
          exact nodeCount_createNode
  | putEdge edge => simp [runCall, allocated?, nodeCount]

theorem allocated?_eq_nextId (allocated : graph.allocated? call = some id) :
    id = graph.nextId := by
  cases call with
  | createNode type contents =>
      cases allocated
      rfl
  | createTreeNode tree type contents =>
      cases registered : graph.treeNode? tree with
      | some node => simp [allocated?, registered] at allocated
      | none =>
          simp only [allocated?, registered, createTreeNode_of_new registered, Option.isNone_none,
            if_true, Option.some.injEq] at allocated
          exact allocated.symm
  | putEdge edge => simp [allocated?] at allocated

/-- Calls allocate ids one after the other, from the number of nodes that there are. -/
theorem allocations_eq_range' (graph : FeatureGraph) (calls : List Call) :
    (graph.runCalls calls).nodeCount = graph.nodeCount + (graph.allocations calls).length ∧
      graph.allocations calls =
        (List.range' graph.nodeCount (graph.allocations calls).length).map NodeId.mk := by
  induction calls generalizing graph with
  | nil => exact ⟨rfl, rfl⟩
  | cons call rest ih =>
      obtain ⟨laterCount, laterIds⟩ := ih (graph.runCall call)
      have count := nodeCount_runCall graph call
      rw [show graph.runCalls (call :: rest) = (graph.runCall call).runCalls rest from rfl,
        laterCount]
      cases allocated : graph.allocated? call with
      | none =>
          rw [allocated] at count
          simp only [allocations, allocated, Option.toList_none, List.nil_append]
          rw [count] at laterIds ⊢
          exact ⟨rfl, laterIds⟩
      | some id =>
          rw [allocated] at count
          simp only [allocations, allocated, Option.toList_some, List.singleton_append,
            List.length_cons, List.range'_succ, List.map_cons]
          rw [count] at laterIds ⊢
          refine ⟨by simp only [Option.toList_some, List.length_singleton]; omega, ?_⟩
          rw [allocated?_eq_nextId allocated]
          exact congrArg (graph.nextId :: ·) laterIds

/-! ## Put edges -/

theorem hasEdge_runCall :
    (graph.runCall call).hasEdge edge = true ↔
      graph.hasEdge edge = true ∨ call = .putEdge edge ∧ graph.hasEnds edge = true := by
  cases call with
  | createNode type contents => simp [runCall, createNode, hasEdge, links]
  | createTreeNode tree type contents =>
      cases registered : graph.treeNode? tree with
      | some node => simp [runCall, createTreeNode_of_registered registered]
      | none => simp [runCall, createTreeNode_of_new registered, createNode, hasEdge, links]
  | putEdge other =>
      rw [Call.putEdge.injEq, runCall, hasEdge_putEdge]
      apply or_congr_right
      constructor
      · intro put
        obtain ⟨rfl, ends⟩ := put
        exact ⟨rfl, ends⟩
      · intro put
        obtain ⟨rfl, ends⟩ := put
        exact ⟨rfl, ends⟩

theorem hasEdge_runCalls (graph : FeatureGraph) (calls : List Call) (edge : Edge) :
    (graph.runCalls calls).hasEdge edge = true ↔
      graph.hasEdge edge = true ∨
        ∃ earlier later, calls = earlier ++ .putEdge edge :: later ∧
          (graph.runCalls earlier).hasEnds edge = true := by
  induction calls generalizing graph with
  | nil => simp [runCalls]
  | cons call rest ih =>
      rw [show graph.runCalls (call :: rest) = (graph.runCall call).runCalls rest from rfl, ih,
        hasEdge_runCall]
      constructor
      · intro either
        rcases either with (old | ⟨rfl, ends⟩) | ⟨earlier, later, rfl, ends⟩
        · exact Or.inl old
        · exact Or.inr ⟨[], rest, rfl, ends⟩
        · exact Or.inr ⟨call :: earlier, later, rfl, ends⟩
      · intro either
        rcases either with old | ⟨earlier, later, split, ends⟩
        · exact Or.inl (Or.inl old)
        · cases earlier with
          | nil =>
              obtain ⟨rfl, rfl⟩ := List.cons.inj split
              exact Or.inl (Or.inr ⟨rfl, ends⟩)
          | cons first earlier =>
              obtain ⟨rfl, rfl⟩ := List.cons.inj split
              exact Or.inr ⟨earlier, later, rfl, ends⟩

theorem putEdge_answers :
    (graph.putEdge edge).2 = true ↔ graph.hasEnds edge = true ∧ graph.hasEdge edge = false := by
  cases present : graph.hasEdge edge with
  | true => simp [putEdge_of_present present]
  | false =>
      cases ends : graph.hasEnds edge with
      | true => simp [putEdge_of_new ends present]
      | false => simp [putEdge_of_loose ends]

theorem putEdge_of_refused (refused : (graph.putEdge edge).2 = false) :
    (graph.putEdge edge).1 = graph := by
  unfold putEdge at refused ⊢
  split at refused
  · contradiction
  · rename_i unmet
    rw [if_neg unmet]

theorem putEdge_grows :
    (graph.putEdge edge).2 = true ↔ (graph.putEdge edge).1.edgeCount = graph.edgeCount + 1 := by
  cases answer : (graph.putEdge edge).2 with
  | true =>
      obtain ⟨ends, absent⟩ := putEdge_answers.mp answer
      rw [edgeCount_putEdge_of_new ends absent]
      simp
  | false =>
      rw [putEdge_of_refused answer]
      simp

/-! ## The laws of calls -/

/-- What may be relied on in a sequence of calls, whatever they are. -/
structure Lawful (start : FeatureGraph) (calls : List Call) : Prop where
  valid : (start.runCalls calls).defect? = none
  /-- A created node is numbered by the nodes before it, and its record stays. -/
  created : ∀ earlier type contents later, calls = earlier ++ .createNode type contents :: later →
    let before := start.runCalls earlier
    (before.createNode type contents).2 = ⟨before.nodeCount⟩ ∧
      (start.runCalls calls).node? ⟨before.nodeCount⟩ =
        some ⟨⟨before.nodeCount⟩, type, contents⟩
  /-- Ids are allocated one after the other, and every new node has one of them. -/
  dense : (start.runCalls calls).nodeCount = start.nodeCount + (start.allocations calls).length ∧
    start.allocations calls =
      (List.range' start.nodeCount (start.allocations calls).length).map NodeId.mk
  kept : ∀ earlier later, calls = earlier ++ later →
    (start.runCalls calls).Extends (start.runCalls earlier)
  /-- An element stays with the node that was answered, which is the one it had if it had any. -/
  registered : ∀ earlier tree type contents later,
    calls = earlier ++ .createTreeNode tree type contents :: later →
      let before := start.runCalls earlier
      (start.runCalls calls).treeNode? tree = some (before.createTreeNode tree type contents).2 ∧
        ∀ node, before.treeNode? tree = some node →
          before.createTreeNode tree type contents = (before, node)
  /-- Registering an element again answers the same node and changes nothing. -/
  registeredAgain : ∀ earlier tree type contents between type' contents' later,
    calls = earlier ++ .createTreeNode tree type contents ::
        (between ++ .createTreeNode tree type' contents' :: later) →
      let first := start.runCalls earlier
      let second := start.runCalls (earlier ++ .createTreeNode tree type contents :: between)
      second.createTreeNode tree type' contents' =
        (second, (first.createTreeNode tree type contents).2)
  /-- The edges are those of the start, and those put when both their ends existed. -/
  linked : ∀ edge, (start.runCalls calls).hasEdge edge = true ↔
    start.hasEdge edge = true ∨
      ∃ earlier later, calls = earlier ++ .putEdge edge :: later ∧
        (start.runCalls earlier).hasEnds edge = true
  /-- A put edge is answered for by the count of edges, and a refused one changes nothing. -/
  put : ∀ earlier edge later, calls = earlier ++ .putEdge edge :: later →
    let before := start.runCalls earlier
    let after := (before.putEdge edge).1
    let answer := (before.putEdge edge).2
    (answer = true ↔ after.edgeCount = before.edgeCount + 1) ∧
      (answer = false ↔ before.hasEnds edge = false ∨ before.hasEdge edge = true) ∧
      (answer = false → after = before)

theorem kept_of_split {start : FeatureGraph} {earlier later : List Call}
    (split : calls = earlier ++ later) :
    (start.runCalls calls).Extends (start.runCalls earlier) := by
  rw [split, runCalls_append]
  exact runCalls_extends _ later

theorem registered_of_split {start : FeatureGraph} {earlier later : List Call}
    (split : calls = earlier ++ .createTreeNode tree type contents :: later) :
    (start.runCalls calls).treeNode? tree =
      some ((start.runCalls earlier).createTreeNode tree type contents).2 := by
  have extended : (start.runCalls calls).Extends
      ((start.runCalls earlier).runCall (.createTreeNode tree type contents)) := by
    rw [split, runCalls_append]
    exact runCalls_extends _ later
  exact extended.treeNodes tree _ treeNode?_createTreeNode

/-- From the empty graph or from any valid one, calls in any order and with any arguments keep the
graph valid, number its nodes without gaps, and alter nothing that is there.  The edges are those of
the start and those that could be put. -/
theorem runCalls_lawful {start : FeatureGraph}
    (accepted : start = .empty ∨ start.defect? = none) (calls : List Call) :
    start.Lawful calls where
  valid := by
    have intact : start.Intact := by
      rcases accepted with rfl | valid
      · exact empty_intact
      · exact defect?_eq_none_iff.mp valid
    exact defect?_eq_none_iff.mpr (runCalls_intact intact calls)
  created earlier type contents later split := by
    intro before
    have extended : (start.runCalls calls).Extends (before.createNode type contents).1 := by
      rw [split, runCalls_append]
      exact runCalls_extends _ later
    refine ⟨rfl, extended.nodes _ _ ?_⟩
    rw [node?_createNode]
    exact if_pos rfl
  dense := allocations_eq_range' start calls
  kept earlier later split := kept_of_split split
  registered earlier tree type contents later split :=
    ⟨registered_of_split split, fun _ registered => createTreeNode_of_registered registered⟩
  registeredAgain earlier tree type contents between type' contents' later split := by
    intro first second
    exact createTreeNode_of_registered (registered_of_split rfl)
  linked edge := hasEdge_runCalls start calls edge
  put earlier edge later split := by
    intro before after answer
    refine ⟨putEdge_grows, ?_, putEdge_of_refused⟩
    rw [← Bool.not_eq_true, putEdge_answers, not_and_or, Bool.not_eq_true, Bool.not_eq_false]

/-- From the empty graph: an edge is put before its ends exist, then twice more, and an element is
registered twice. -/
theorem sketch_lawful :
    let edge : Edge := ⟨⟨0⟩, ⟨1⟩, .associatedToken⟩
    let early : List Call := [.putEdge edge, .createTreeNode ⟨7⟩ .astElement "METHOD"]
    let late : List Call := [.createTreeNode ⟨7⟩ .fakeAst "f", .putEdge edge, .putEdge edge]
    let calls := early ++ .createNode .identifierToken "f" :: late
    let final := empty.runCalls calls
    (empty = .empty ∨ empty.defect? = none) ∧ empty.Lawful calls ∧ final.defect? = none ∧
      final.node? ⟨1⟩ = some ⟨⟨1⟩, .identifierToken, "f"⟩ ∧ final.treeNode? ⟨7⟩ = some ⟨0⟩ ∧
      empty.allocations calls = [⟨0⟩, ⟨1⟩] ∧ final.hasEdge edge = true ∧ final.edgeCount = 1 := by
  intro edge early late calls final
  have accepted : empty = .empty ∨ empty.defect? = none := Or.inl rfl
  have lawful : empty.Lawful calls := runCalls_lawful accepted calls
  have created := (lawful.created early _ _ late rfl).2
  have registered := (lawful.registered [.putEdge edge] ⟨7⟩ .astElement "METHOD" _ rfl).1
  have put : final.hasEdge edge = true :=
    (lawful.linked edge).mpr (Or.inr ⟨calls.take 4, [.putEdge edge], rfl, by decide⟩)
  exact ⟨accepted, lawful, lawful.valid, created, registered, by decide, put, by decide⟩

end FeatureGraph

end FlowLink
