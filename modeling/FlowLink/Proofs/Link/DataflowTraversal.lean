import FlowLink.Proofs.Link.DataflowCounters
import FlowLink.Proofs.Link.Scopes

namespace FlowLink

/-! # The order of the dataflow pass

The traversal of the pass processes its elements in preorder.  Which elements it finds, in which
order and in which scope, is said by the recursion of `SyntaxTree.Discovers`.
-/

theorem Scope.enter_eq (scope : Scope) (id : TreeId) (shape : Shape) :
    scope.enter id shape =
      if shape.isClass then scope.enterClass id
      else if shape.isMethod then scope.enterMethod id
      else scope := by
  cases shape <;> rfl

/-- The pass is a traversal that links the sites as it comes to them.  It processes the elements in
preorder, as the recursion discovers them, each once; the root in the empty scope and every other
one in the scope of its discovery parent, entered. -/
theorem linkDataflow_traverses (tree : SyntaxTree) (analysis : Analysis) (config : LinkConfig)
    (graph : FeatureGraph) {root : TreeId} (rooted : tree.root = some root) :
    let run := tree.traverse (Progress.process config analysis) root {} (.start graph, #[])
    linkDataflow tree analysis config graph =
        run.1.report (.dataflowFinished run.1.stats.edgesAdded run.1.stats.sitesVisited) ∧
      run.2.toList.map Prod.fst = tree.preorder root ∧ (tree.preorder root).Nodup ∧
      (∀ discovered, tree.Discovers [] none [root] discovered ↔ discovered = tree.parents root) ∧
      (tree.parents root).map Prod.fst = tree.preorder root ∧
      (∀ scope, (root, scope) ∈ run.2 → scope = {}) ∧
      (∀ id scope, (id, scope) ∈ run.2 → id ≠ root →
        ∃ above shape outer, (id, some above) ∈ tree.parents root ∧
          tree.shape? above = some shape ∧ (above, outer) ∈ run.2 ∧
          scope = if shape.isClass then outer.enterClass above
            else if shape.isMethod then outer.enterMethod above
            else outer) ∧
      (linkDataflow tree analysis config graph).stats.sitesVisited =
        (tree.preorder root).countP fun id => (tree.shape? id).any Shape.isSite := by
  intro run
  obtain ⟨linked, listed⟩ := linkDataflow_run rooted
  have processed : ∀ visit, visit ∈ run.2 ↔ visit ∈ tree.scopes root := by
    intro visit
    rw [listed, List.mem_toArray]
  refine ⟨linked, ?_, SyntaxTree.walk_nodup, fun _ => SyntaxTree.discovers_iff,
    SyntaxTree.parents_map_fst, ?_, ?_, ?_⟩
  · rw [listed]
    exact SyntaxTree.scopes_map_fst
  · intro scope here
    exact SyntaxTree.scope_of_start ((processed _).mp here)
  · intro id scope here apart
    obtain ⟨above, shape, outer, isParent, found, _, source, entered⟩ :=
      SyntaxTree.scope_of_parent ((processed _).mp here) apart
    exact ⟨above, shape, outer, isParent, found, (processed _).mpr source,
      entered.trans (outer.enter_eq above shape)⟩
  · rw [(linkDataflow_counts rooted).sitesVisited, List.countP_eq_length_filter,
      ← SyntaxTree.sites_map_fst, List.length_map]

/-- A unit whose methods share a body, which leads back to their class and out of the arena. -/
def tangle : SyntaxTree where
  elements := #[⟨⟨0⟩, .compilationUnit [⟨1⟩]⟩, ⟨⟨1⟩, .classDecl "C" [⟨2⟩, ⟨3⟩]⟩,
    ⟨⟨2⟩, .methodDecl "f" [] (some ⟨4⟩)⟩, ⟨⟨3⟩, .methodDecl "g" [] (some ⟨4⟩)⟩,
    ⟨⟨4⟩, .other "loop" [⟨5⟩, ⟨1⟩, ⟨9⟩, ⟨5⟩]⟩, ⟨⟨5⟩, .identifier "x"⟩]
  root := some ⟨0⟩

/-- The shared body belongs to the method that comes first. -/
theorem tangle_traverses :
    let run := tangle.traverse (Progress.process {} .empty) ⟨0⟩ {}
      (.start (.skeleton tangle), #[])
    tangle.root = some ⟨0⟩ ∧ run.2.toList.map Prod.fst = [⟨0⟩, ⟨1⟩, ⟨2⟩, ⟨4⟩, ⟨5⟩, ⟨3⟩] ∧
      (∀ scope, (⟨4⟩, scope) ∈ run.2 →
        ∃ outer, (⟨2⟩, outer) ∈ run.2 ∧ scope = outer.enterMethod ⟨2⟩) ∧
      (linkDataflow tangle .empty {} (.skeleton tangle)).stats.sitesVisited = 1 := by
  intro run
  have rooted : tangle.root = some ⟨0⟩ := rfl
  have preorder : tangle.preorder ⟨0⟩ = [⟨0⟩, ⟨1⟩, ⟨2⟩, ⟨4⟩, ⟨5⟩, ⟨3⟩] := by cbv
  have parents : tangle.parents ⟨0⟩ = [(⟨0⟩, none), (⟨1⟩, some ⟨0⟩), (⟨2⟩, some ⟨1⟩),
      (⟨4⟩, some ⟨2⟩), (⟨5⟩, some ⟨4⟩), (⟨3⟩, some ⟨1⟩)] := by cbv
  obtain ⟨_, order, _, _, _, _, inherits, counted⟩ :=
    linkDataflow_traverses tangle .empty {} (.skeleton tangle) rooted
  refine ⟨rooted, order.trans preorder, ?_, counted.trans (by rw [preorder]; decide)⟩
  intro scope here
  obtain ⟨above, shape, outer, isParent, found, source, entered⟩ :=
    inherits ⟨4⟩ scope here (by decide)
  obtain rfl : above = ⟨2⟩ := by
    rw [parents] at isParent
    simpa using isParent
  cases found
  exact ⟨outer, source, entered⟩

end FlowLink
