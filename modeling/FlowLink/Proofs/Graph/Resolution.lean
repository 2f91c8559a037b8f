import FlowLink.Proofs.Graph.Calls

namespace FlowLink

/-! # Resolution while a graph grows

The tokens of a node are looked up over skeleton edges.  Calls that put other edges only add neither
such an edge nor the end that one lacks: in a valid graph no edge leads to a node that is still to
be created.  So whatever such calls create, every node stands for the same tokens as before, while
its successors over edges of any kind become more.
-/

theorem NodeType.isToken_iff {type : NodeType} :
    type.isToken = true ↔ type = .token ∨ type = .identifierToken := by
  cases type <;> decide

theorem EdgeKind.isSkeleton_eq_false_iff {kind : EdgeKind} :
    kind.isSkeleton = false ↔ kind = .lastWrite ∨ kind = .lastUse ∨ kind = .returnsTo := by
  cases kind <;> decide

theorem EdgeKind.exists_isSkeleton_iff {test : EdgeKind → Prop} :
    (∃ kind : EdgeKind, kind.isSkeleton = true ∧ test kind) ↔
      test .astChild ∨ test .associatedToken ∨ test .nextToken := by
  constructor
  · rintro ⟨kind, skeleton, passes⟩
    cases kind with
    | astChild => exact .inl passes
    | associatedToken => exact .inr (.inl passes)
    | nextToken => exact .inr (.inr passes)
    | lastWrite | lastUse | returnsTo => contradiction
  · rintro (passes | passes | passes)
    · exact ⟨_, rfl, passes⟩
    · exact ⟨_, rfl, passes⟩
    · exact ⟨_, rfl, passes⟩

namespace FeatureGraph

variable {start before after : FeatureGraph} {node token : NodeId} {filter : NodeFilter}
  {calls : List Call}

/-- A graph that has grown by no skeleton edge resolves every node as before. -/
theorem Extends.tokens (grown : after.Extends before) (intact : before.Intact)
    (semantic : ∀ edge, edge.kind.isSkeleton = true → after.hasEdge edge = true →
      before.hasEdge edge = true) (node : NodeId) :
    after.tokens node = before.tokens node := by
  apply Std.ExtTreeSet.ext_mem
  intro token
  rw [mem_tokens_iff, mem_tokens_iff]
  constructor
  · rintro ⟨⟨kind, skeleton, linked⟩, found, isNode, isToken⟩
    have old := semantic ⟨node, token, kind⟩ skeleton linked
    -- The target was there before, so its record is the one that it has now.
    obtain ⟨_, bound⟩ := Bool.and_eq_true_iff.mp (intact.tied _ old)
    obtain ⟨known, wasNode⟩ : ∃ known, before.node? token = some known :=
      ⟨_, Array.getElem?_eq_getElem (hasNode_iff.mp bound)⟩
    cases isNode.symm.trans (grown.nodes token known wasNode)
    exact ⟨⟨kind, skeleton, old⟩, _, wasNode, isToken⟩
  · rintro ⟨⟨kind, skeleton, linked⟩, found, wasNode, isToken⟩
    exact ⟨⟨kind, skeleton, grown.edges _ linked⟩, found, grown.nodes token found wasNode, isToken⟩

theorem Extends.successors (grown : after.Extends before)
    (member : token ∈ before.successors node filter) : token ∈ after.successors node filter := by
  obtain ⟨⟨found, isNode, accepted⟩, kind, linked⟩ := mem_successors_iff.mp member
  exact mem_successors_iff.mpr
    ⟨⟨found, grown.nodes token found isNode, accepted⟩, kind, grown.edges _ linked⟩

theorem mem_successors_of_mem_tokens (member : token ∈ after.tokens node) :
    token ∈ after.successors node .anyToken := by
  obtain ⟨⟨kind, _, linked⟩, found, isNode, isToken⟩ := mem_tokens_iff.mp member
  exact mem_successors_iff.mpr ⟨⟨found, isNode, isToken⟩, kind, linked⟩

/-- Calls put no other skeleton edges than those that they name. -/
theorem hasEdge_of_semantic
    (semantic : ∀ edge, Call.putEdge edge ∈ calls → edge.kind.isSkeleton = false)
    (edge : Edge) (skeleton : edge.kind.isSkeleton = true)
    (present : (start.runCalls calls).hasEdge edge = true) : start.hasEdge edge = true := by
  rcases (hasEdge_runCalls start calls edge).mp present with old | ⟨earlier, later, rfl, _⟩
  · exact old
  · rw [semantic edge (by simp)] at skeleton
    contradiction

theorem tokens_runCalls (intact : start.Intact)
    (semantic : ∀ edge, Call.putEdge edge ∈ calls → edge.kind.isSkeleton = false)
    (node : NodeId) : (start.runCalls calls).tokens node = start.tokens node :=
  (runCalls_extends start calls).tokens intact (hasEdge_of_semantic semantic) node

/-- In a valid graph, a node stands for the tokens that skeleton edges lead to from it.  Calls that
put edges of the other kinds only never change this, whichever nodes they create and for whichever
node it is asked.  Its token successors over edges of any kind never become fewer, and the tokens
that it stands for are always among them. -/
theorem tokens_stable (valid : start.defect? = none)
    (semantic : ∀ edge, Call.putEdge edge ∈ calls →
      edge.kind = .lastWrite ∨ edge.kind = .lastUse ∨ edge.kind = .returnsTo) (node : NodeId) :
    (∀ token, token ∈ start.tokens node ↔
      (∃ found, start.node? token = some found ∧
          (found.type = .token ∨ found.type = .identifierToken)) ∧
        (start.hasEdge ⟨node, token, .astChild⟩ = true ∨
          start.hasEdge ⟨node, token, .associatedToken⟩ = true ∨
          start.hasEdge ⟨node, token, .nextToken⟩ = true)) ∧
      (start.runCalls calls).tokens node = start.tokens node ∧
      ∀ earlier later, calls = earlier ++ later →
        let between := start.runCalls earlier
        between.tokens node = start.tokens node ∧
          (∀ token ∈ between.tokens node, token ∈ between.successors node .anyToken) ∧
          ∀ token ∈ between.successors node .anyToken,
            token ∈ (start.runCalls calls).successors node .anyToken := by
  have intact := defect?_eq_none_iff.mp valid
  have apart : ∀ edge, Call.putEdge edge ∈ calls → edge.kind.isSkeleton = false := fun edge put =>
    EdgeKind.isSkeleton_eq_false_iff.mpr (semantic edge put)
  refine ⟨?_, tokens_runCalls intact apart node, ?_⟩
  · intro token
    rw [mem_tokens_iff, EdgeKind.exists_isSkeleton_iff, and_comm]
    simp only [NodeType.isToken_iff]
  · intro earlier later split between
    refine ⟨?_, fun _ => mem_successors_of_mem_tokens, fun _ => (kept_of_split split).successors⟩
    apply tokens_runCalls intact
    intro edge put
    exact apart edge (split ▸ List.mem_append_left later put)

/-- A method that is joined to its name by an edge of the skeleton and by another one. -/
def signature : FeatureGraph :=
  putEdges
    { empty with nodes := #[⟨⟨0⟩, .astElement, "METHOD"⟩, ⟨⟨1⟩, .identifierToken, "f"⟩] }
    [⟨⟨0⟩, ⟨1⟩, .associatedToken⟩, ⟨⟨0⟩, ⟨1⟩, .lastUse⟩]

/-- A token is created between two attempts to join the method to it, the second of which makes it a
successor.  The name is joined once more. -/
theorem signature_tokens_stable :
    let calls : List Call := [.putEdge ⟨⟨0⟩, ⟨2⟩, .lastWrite⟩, .createNode .token "x",
      .putEdge ⟨⟨0⟩, ⟨2⟩, .lastWrite⟩, .putEdge ⟨⟨0⟩, ⟨1⟩, .returnsTo⟩]
    let final := signature.runCalls calls
    signature.defect? = none ∧
      (∀ edge, Call.putEdge edge ∈ calls →
        edge.kind = .lastWrite ∨ edge.kind = .lastUse ∨ edge.kind = .returnsTo) ∧
      ⟨1⟩ ∈ signature.tokens ⟨0⟩ ∧ final.tokens ⟨0⟩ = signature.tokens ⟨0⟩ ∧
      ⟨1⟩ ∈ final.successors ⟨0⟩ .anyToken ∧
      (final.successors ⟨0⟩ .anyToken).toList = [⟨1⟩, ⟨2⟩] := by
  intro calls final
  have valid : signature.defect? = none := by decide
  have semantic : ∀ edge, Call.putEdge edge ∈ calls →
      edge.kind = .lastWrite ∨ edge.kind = .lastUse ∨ edge.kind = .returnsTo := by
    intro edge put
    simp only [calls, List.mem_cons, Call.putEdge.injEq, reduceCtorEq, List.not_mem_nil,
      or_false, false_or] at put
    rcases put with rfl | rfl | rfl
    · exact .inl rfl
    · exact .inl rfl
    · exact .inr (.inr rfl)
  obtain ⟨exact, same, always⟩ := tokens_stable valid semantic ⟨0⟩
  have named : ⟨1⟩ ∈ signature.tokens ⟨0⟩ :=
    (exact ⟨1⟩).mpr ⟨⟨_, rfl, .inr rfl⟩, .inr (.inl (by decide))⟩
  obtain ⟨_, within, _⟩ := always calls [] (List.append_nil calls).symm
  exact ⟨valid, semantic, named, same, within ⟨1⟩ (same ▸ named), by decide⟩

end FeatureGraph

end FlowLink
