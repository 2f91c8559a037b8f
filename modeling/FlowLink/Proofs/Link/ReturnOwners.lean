import FlowLink.Proofs.Bundle.Validation
import FlowLink.Proofs.Link.Composition
import FlowLink.Proofs.Link.LastReturns

namespace FlowLink

/-! # Methods that return for one another

When all returns of a method count, the search for them stops at classes and lambdas.  It does not
stop at methods, and what a return statement returns is taken with everything in it.  An identifier
is thus returned by two methods just if one of them encloses the other: if it stands in an
expression that the other one returns, or in its body with no class or lambda in between.
-/

namespace SyntaxTree

/-- The test of a search for all returns of a body. -/
abbrev withinBody (body id : TreeId) (shape : Shape) : Bool :=
  !shape.isReturn && (!shape.keepsReturns || id = body)

/-- What the inner method returns, the outer one returns as well. -/
inductive Encloses (tree : SyntaxTree) (outer inner : TreeId) : Prop
  | inExpression {root body expression : TreeId} (rooted : tree.root = some root)
      (declared : (outer, body) ∈ tree.methodBodies root)
      (selected : tree.Selects body expression .all) (leads : tree.Leads expression inner)
  | inBody {root body inside : TreeId} {shape : Shape} (rooted : tree.root = some root)
      (declared : (outer, body) ∈ tree.methodBodies root)
      (searched : tree.Reaches (withinBody body) body inner)
      (hasBody : (inner, inside) ∈ tree.methodBodies root)
      (found : tree.shape? inside = some shape) (entered : shape.keepsReturns = false)

/-- A search of the method's body meets the statement, which returns the identifier in this
expression. -/
structure ReturnsAt (tree : SyntaxTree) (root method body statement expression identifier : TreeId) :
    Prop where
  declared : (method, body) ∈ tree.methodBodies root
  met : tree.Reaches (withinBody body) body statement
  found : tree.shape? statement = some (.returnStatement (some expression))
  contained : tree.Leads expression identifier

variable {tree : SyntaxTree} {root outer inner method body inside statement other expression operand
  identifier : TreeId}

theorem Returns.exists_returnsAt (rooted : tree.root = some root)
    (returned : tree.Returns .all method identifier) :
    ∃ body statement expression,
      tree.ReturnsAt root method body statement expression identifier := by
  obtain ⟨rooted', leads, declared, hasBody, selected, contained, _, _⟩ := returned
  cases rooted.symm.trans rooted'
  obtain ⟨statement, met, found⟩ := selected
  exact ⟨_, statement, _, mem_methodBodies_iff.mpr ⟨leads, _, declared, hasBody⟩, met,
    returned?_eq_some_iff.mp found, contained⟩

namespace ReturnsAt

theorem from_root (returns : tree.ReturnsAt root method body statement expression identifier) :
    tree.Leads root method ∧ tree.Leads root body ∧ tree.Leads root statement := by
  obtain ⟨_, inArena⟩ := returns.met.source_in_arena
  exact ⟨(mem_methodBodies_iff.mp returns.declared).1,
    leads_of_methodBodies returns.declared (.here inArena),
    leads_of_methodBodies returns.declared returns.met.leads⟩

theorem to_identifier (returns : tree.ReturnsAt root method body statement expression identifier) :
    tree.Leads statement identifier :=
  .through returns.found rfl (List.mem_singleton_self expression) returns.contained

theorem from_method (returns : tree.ReturnsAt root method body statement expression identifier) :
    tree.Leads method identifier := by
  obtain ⟨_, _, isMethod, isBody⟩ := methodBodies_isChild returns.declared
  exact .through isMethod rfl isBody (returns.met.leads.trans returns.to_identifier)

theorem expression_isOperand :
    expression ∈ (Shape.returnStatement (some expression)).children :=
  List.mem_singleton_self expression

/-- The expression of a return is not the body of a method. -/
theorem expression_ne_body (unshared : tree.Unshared everywhere root)
    (isOuter : tree.ReturnsAt root outer body statement expression identifier)
    (isInner : tree.ReturnsAt root inner inside other operand identifier) : expression ≠ inside := by
  rintro rfl
  obtain ⟨_, inArena⟩ := isInner.met.source_in_arena
  obtain ⟨_, _, isMethod, isBody⟩ := methodBodies_isChild isInner.declared
  obtain rfl := unshared.parent_unique isOuter.from_root.2.2 isInner.from_root.1 isOuter.found
    isMethod expression_isOperand isBody inArena
  cases isOuter.found.symm.trans isMethod

/-- A return within the expression of another one belongs to a method in that expression. -/
theorem encloses_of_within (rooted : tree.root = some root) (unshared : tree.Unshared everywhere root)
    (isOuter : tree.ReturnsAt root outer body statement expression identifier)
    (isInner : tree.ReturnsAt root inner inside other operand identifier)
    (onward : tree.Leads statement other) (apart : other ≠ statement) :
    tree.Encloses outer inner := by
  obtain ⟨_, _, toStatement⟩ := isOuter.from_root
  obtain ⟨toInner, toInside, _⟩ := isInner.from_root
  obtain ⟨_, _, isMethod, isBody⟩ := methodBodies_isChild isInner.declared
  obtain ⟨_, inArena⟩ := isOuter.contained.source_in_arena
  have toExpression : tree.Leads root expression :=
    toStatement.trans (.through isOuter.found rfl expression_isOperand (.here inArena))
  have within : tree.Leads expression other := by
    obtain ⟨_, child, isChild, within⟩ := onward.down apart isOuter.found
    cases List.mem_singleton.mp isChild
    exact within
  have distinct := expression_ne_body unshared isOuter isInner
  rcases unshared.comparable toExpression toInside within isInner.met.leads with below | above
  · exact .inExpression rooted isOuter.declared
      ⟨statement, isOuter.met, returned?_eq_some_iff.mpr isOuter.found⟩
      (unshared.leads_parent toExpression toInner isMethod isBody below distinct.symm)
  · -- Otherwise the search of the inner body would enter the outer return.
    have through := unshared.leads_parent toInside toStatement isOuter.found expression_isOperand
      above distinct
    obtain ⟨_, entered⟩ := (unshared.below toInside).passes isInner.met through onward
    obtain ⟨accepted, _⟩ := entered.down apart isOuter.found
    simp [withinBody, Shape.isReturn] at accepted

/-- A method whose body stands in that of another one, and returns the same statement. -/
theorem encloses_of_body (rooted : tree.root = some root) (unshared : tree.Unshared everywhere root)
    (isOuter : tree.ReturnsAt root outer body statement expression identifier)
    (isInner : tree.ReturnsAt root inner inside statement operand identifier)
    (onward : tree.Leads body inside) (apart : outer ≠ inner) : tree.Encloses outer inner := by
  obtain ⟨toOuter, toBody, _⟩ := isOuter.from_root
  obtain ⟨toInner, toInside, _⟩ := isInner.from_root
  obtain ⟨_, _, isOuterMethod, isOuterBody⟩ := methodBodies_isChild isOuter.declared
  obtain ⟨_, _, isMethod, isBody⟩ := methodBodies_isChild isInner.declared
  obtain ⟨shape, isInside⟩ := isInner.met.source_in_arena
  have distinct : inside ≠ body := by
    rintro rfl
    exact apart (unshared.parent_unique toOuter toInner isOuterMethod isMethod isOuterBody isBody
      isInside)
  have unsharedBody := unshared.below toBody
  have toMethod := unshared.leads_parent toBody toInner isMethod isBody onward distinct
  obtain ⟨searched, _⟩ := unsharedBody.passes isOuter.met toMethod
    (.through isMethod rfl isBody isInner.met.leads)
  obtain ⟨_, entered⟩ := unsharedBody.passes isOuter.met onward isInner.met.leads
  refine .inBody rooted isOuter.declared searched isInner.declared isInside ?_
  by_cases same : statement = inside
  · subst same
    cases isInside.symm.trans isInner.found
    rfl
  · obtain ⟨accepted, _⟩ := entered.down same isInside
    simp only [withinBody, distinct, decide_false, Bool.or_false, Bool.and_eq_true,
      Bool.not_eq_true'] at accepted
    exact accepted.2

end ReturnsAt

/-- Of two methods that return the same identifier, one encloses the other. -/
theorem encloses_of_returns (rooted : tree.root = some root)
    (unshared : tree.Unshared everywhere root) (first : tree.Returns .all outer identifier)
    (second : tree.Returns .all inner identifier) (apart : outer ≠ inner) :
    tree.Encloses outer inner ∨ tree.Encloses inner outer := by
  obtain ⟨body, statement, expression, isFirst⟩ := first.exists_returnsAt rooted
  obtain ⟨inside, other, operand, isSecond⟩ := second.exists_returnsAt rooted
  obtain ⟨_, toBody, toStatement⟩ := isFirst.from_root
  obtain ⟨_, toInside, toOther⟩ := isSecond.from_root
  by_cases same : statement = other
  · subst same
    rcases unshared.comparable toBody toInside isFirst.met.leads isSecond.met.leads with
      onward | onward
    · exact .inl (isFirst.encloses_of_body rooted unshared isSecond onward apart)
    · exact .inr (isSecond.encloses_of_body rooted unshared isFirst onward (Ne.symm apart))
  · rcases unshared.comparable toStatement toOther isFirst.to_identifier isSecond.to_identifier with
      onward | onward
    · exact .inl (isFirst.encloses_of_within rooted unshared isSecond onward (Ne.symm same))
    · exact .inr (isSecond.encloses_of_within rooted unshared isFirst onward same)

theorem Returns.of_selects {shape : Shape} (rooted : tree.root = some root)
    (declared : (method, body) ∈ tree.methodBodies root)
    (selected : tree.Selects body expression .all) (contained : tree.Leads expression identifier)
    (found : tree.shape? identifier = some shape) (isIdentifier : shape.isIdentifier = true) :
    tree.Returns .all method identifier := by
  obtain ⟨leads, _, isMethod, hasBody⟩ := mem_methodBodies_iff.mp declared
  exact .intro rooted leads isMethod hasBody selected contained found isIdentifier

/-- Where a search of a body that keeps no returns goes on, a search around it does so, too. -/
theorem withinBody_of_entered {shape : Shape} (isInside : tree.shape? inside = some shape)
    (entered : shape.keepsReturns = false) :
    ∀ id shape, tree.shape? id = some shape → withinBody inside id shape = true →
      withinBody body id shape = true := by
  intro id shape' found accepted
  by_cases same : id = inside
  · subst same
    cases isInside.symm.trans found
    simp_all [withinBody]
  · simp_all [withinBody]

namespace Encloses

theorem returns (encloses : tree.Encloses outer inner)
    (returned : tree.Returns .all inner identifier) : tree.Returns .all outer identifier := by
  have isInner := returned
  obtain ⟨_, _, _, _, _, _, found, isIdentifier⟩ := returned
  cases encloses with
  | inExpression rooted declared selected leads =>
      obtain ⟨_, _, _, isInner⟩ := isInner.exists_returnsAt rooted
      exact .of_selects rooted declared selected (leads.trans isInner.from_method) found
        isIdentifier
  | @inBody _ around inside _ rooted declared searched hasBody isInside entered =>
      obtain ⟨_, statement, _, isInner⟩ := isInner.exists_returnsAt rooted
      obtain ⟨_, _, isMethod, isBody⟩ := methodBodies_isChild hasBody
      obtain ⟨_, _, isMethod', _⟩ := methodBodies_isChild isInner.declared
      cases isMethod.symm.trans isMethod'
      have onward : tree.Reaches (withinBody around) inside statement :=
        isInner.met.widen (withinBody_of_entered isInside entered)
      exact .of_selects rooted declared
        ⟨statement, searched.trans (.through isMethod rfl isBody onward),
          returned?_eq_some_iff.mpr isInner.found⟩ isInner.contained found isIdentifier

theorem leads (encloses : tree.Encloses outer inner) :
    ∃ root body, tree.root = some root ∧ (outer, body) ∈ tree.methodBodies root ∧
      tree.Leads body inner := by
  cases encloses with
  | @inExpression root body expression rooted declared selected leads =>
      obtain ⟨statement, met, found⟩ := selected
      exact ⟨root, body, rooted, declared, met.leads.trans
        (.through (returned?_eq_some_iff.mp found) rfl ReturnsAt.expression_isOperand leads)⟩
  | @inBody root body _ _ rooted declared searched _ _ _ =>
      exact ⟨root, body, rooted, declared, searched.leads⟩

theorem ne (encloses : tree.Encloses outer inner) (rooted : tree.root = some root)
    (unshared : tree.Unshared everywhere root) : outer ≠ inner := by
  rintro rfl
  obtain ⟨_, body, rooted', declared, back⟩ := encloses.leads
  cases rooted.symm.trans rooted'
  obtain ⟨_, _, isMethod, isBody⟩ := methodBodies_isChild declared
  exact (unshared.below (mem_methodBodies_iff.mp declared).1).acyclic isMethod rfl isBody back

end Encloses

end SyntaxTree

section

open FeatureGraph SyntaxTree

variable {tree : SyntaxTree} {analysis : Analysis} {config : LinkConfig} {graph : FeatureGraph}
  {root : TreeId} {edge : Edge} {token target : NodeId} {warnings : List Event}

/-- Of the passes only the return pass has to do with these edges. -/
theorem linkUnit_hasEdge_returnsTo (rooted : tree.root = some root)
    (recorded : edge.kind = .returnsTo) :
    (linkUnit tree analysis config graph).graph.hasEdge edge = true ↔
      graph.hasEdge edge = true ∨ config.runs .returnsTo = true ∧
        edge ∈ requested (returnActions tree config.returnMode root graph) ∧
        graph.hasEnds edge = true := by
  have apart : edge ∉ requested (dataflowActions tree analysis root graph) := by
    intro asked
    have adds := dataflowActions_kinds edge asked
    rw [recorded] at adds
    contradiction
  rw [linkUnit_hasEdge_iff rooted]
  tauto

theorem exists_tokenNode? {id : TreeId} {shape : Shape} (found : tree.shape? id = some shape)
    (isIdentifier : shape.isIdentifier = true) : ∃ token, tree.tokenNode? id = some token := by
  cases shape with
  | identifier name =>
      rw [tokenNode?, found]
      exact ⟨_, rfl⟩
  | _ => contradiction

/-- Over a plain skeleton the edges join the tokens of returned identifiers to the methods. -/
theorem hasEdge_returnsTo_skeleton (sound : tree.Sound) (rooted : tree.root = some root) :
    (linkUnit tree analysis config (skeleton tree)).graph.hasEdge ⟨token, target, .returnsTo⟩ = true ↔
      config.runs .returnsTo = true ∧
        ∃ method identifier, tree.Returns config.returnMode method identifier ∧
          target = ⟨method.index⟩ ∧ tree.tokenNode? identifier = some token := by
  have absent : (skeleton tree).hasEdge ⟨token, target, .returnsTo⟩ ≠ true := by
    intro present
    cases (hasEdge_skeleton sound).mp present
  rw [linkUnit_hasEdge_returnsTo rooted rfl, or_iff_right absent, mem_returnActions rooted]
  apply and_congr_right
  intro _
  constructor
  · intro flow
    obtain ⟨⟨_, method, identifier, node, returned, isTarget, isNode, isSource⟩, _⟩ := flow
    obtain ⟨_, isTarget⟩ := (treeNode?_skeleton_eq_some_iff sound).mp isTarget
    obtain ⟨_, rfl⟩ := (treeNode?_skeleton_eq_some_iff sound).mp isNode
    exact ⟨method, identifier, returned, isTarget, (mem_tokens_skeleton sound).mp isSource⟩
  · intro flow
    obtain ⟨method, identifier, returned, rfl, represented⟩ := flow
    obtain ⟨_, _, isMethod, _, _, _, isIdentifier, _⟩ := id returned
    have inside := lt_size_iff.mpr ⟨_, isMethod⟩
    have isSource := (mem_tokens_skeleton sound).mpr represented
    refine ⟨⟨rfl, method, identifier, ⟨identifier.index⟩, returned,
      (treeNode?_skeleton_eq_some_iff sound).mpr ⟨inside, rfl⟩,
      (treeNode?_skeleton_eq_some_iff sound).mpr ⟨lt_size_iff.mpr ⟨_, isIdentifier⟩, rfl⟩,
      isSource⟩, ?_⟩
    rw [hasEnds, Bool.and_eq_true]
    exact ⟨hasNode_of_mem_tokens isSource, (skeleton_joins sound).hasNode inside⟩

/-- With all returns, each token of a unit over its plain skeleton is linked to one method at most,
unless some method returns an identifier and is enclosed by another one. -/
theorem returnsTo_unique_iff
    (valid : Bundle.validate ⟨tree, skeleton tree, analysis⟩ = .ok warnings)
    (rooted : tree.root = some root) (unshared : tree.Unshared everywhere root)
    (wanted : config.returnMode = .all) :
    (∀ token left right,
        (linkUnit tree analysis config (skeleton tree)).graph.hasEdge
          ⟨token, left, .returnsTo⟩ = true →
        (linkUnit tree analysis config (skeleton tree)).graph.hasEdge
          ⟨token, right, .returnsTo⟩ = true → left = right) ↔
      (config.runs .returnsTo = true → ∀ outer inner identifier, tree.Encloses outer inner →
        ¬ tree.Returns .all inner identifier) := by
  obtain ⟨flawless, _⟩ := Bundle.validate_eq_ok_iff.mp valid
  have sound := defect?_eq_none_iff.mp (Bundle.defect?_eq_none_iff.mp flawless).1
  simp only [hasEdge_returnsTo_skeleton sound rooted, wanted]
  constructor
  · intro unique runs outer inner identifier encloses returned
    obtain ⟨_, _, _, _, _, _, isIdentifier, named⟩ := id returned
    obtain ⟨token, represented⟩ := exists_tokenNode? isIdentifier named
    have same := unique token _ _ ⟨runs, outer, identifier, encloses.returns returned, rfl,
      represented⟩ ⟨runs, inner, identifier, returned, rfl, represented⟩
    exact encloses.ne rooted unshared (congrArg TreeId.mk (NodeId.mk.inj same))
  · intro apart token left right toLeft toRight
    obtain ⟨runs, outer, identifier, returned, rfl, represented⟩ := toLeft
    obtain ⟨_, inner, other, returned', rfl, represented'⟩ := toRight
    obtain rfl := tokenNode?_injective represented represented'
    by_contra different
    have distinct : outer ≠ inner := by
      rintro rfl
      exact different rfl
    rcases encloses_of_returns rooted unshared returned returned' distinct with around | within
    · exact apart runs _ _ _ around returned'
    · exact apart runs _ _ _ within returned

/-- A method that returns an instance of a class of its own, which has a method that returns a
variable. -/
def anonymousClass : SyntaxTree where
  elements := #[⟨⟨0⟩, .identifier "q"⟩, ⟨⟨1⟩, .returnStatement (some ⟨0⟩)⟩, ⟨⟨2⟩, .block [⟨1⟩]⟩,
    ⟨⟨3⟩, .methodDecl "k" [] (some ⟨2⟩)⟩, ⟨⟨4⟩, .classDecl "L" [⟨3⟩]⟩,
    ⟨⟨5⟩, .other "NEW_CLASS" [⟨4⟩]⟩, ⟨⟨6⟩, .returnStatement (some ⟨5⟩)⟩, ⟨⟨7⟩, .block [⟨6⟩]⟩,
    ⟨⟨8⟩, .methodDecl "f" [] (some ⟨7⟩)⟩, ⟨⟨9⟩, .classDecl "A" [⟨8⟩]⟩,
    ⟨⟨10⟩, .compilationUnit [⟨9⟩]⟩]
  root := some ⟨10⟩

theorem anonymousClass_unshared : anonymousClass.Unshared everywhere ⟨10⟩ :=
  unshared_of_nodup (by decide) (by decide) _

theorem anonymousClass_valid :
    Bundle.validate ⟨anonymousClass, skeleton anonymousClass, .empty⟩ = .ok [] := by
  decide +kernel

theorem anonymousClass_methodBodies :
    anonymousClass.methodBodies ⟨10⟩ = [(⟨8⟩, ⟨7⟩), (⟨3⟩, ⟨2⟩)] := by cbv

/-- The method of the inner class is in an expression that the outer method returns. -/
theorem anonymousClass_encloses : anonymousClass.Encloses ⟨8⟩ ⟨3⟩ := by
  have declared : (⟨8⟩, ⟨7⟩) ∈ anonymousClass.methodBodies ⟨10⟩ := by
    rw [anonymousClass_methodBodies]
    exact List.mem_cons_self
  have selected : anonymousClass.Selects ⟨7⟩ ⟨5⟩ .all :=
    ⟨⟨6⟩, reaches_iff_route.mpr ⟨[0], [⟨7⟩], .down rfl rfl rfl (.here rfl)⟩, rfl⟩
  exact .inExpression rfl declared selected (reaches_iff_route.mpr
    ⟨[0, 0], [⟨5⟩, ⟨4⟩], .down rfl rfl rfl (.down rfl rfl rfl (.here rfl))⟩)

theorem anonymousClass_returns : anonymousClass.Returns .all ⟨3⟩ ⟨0⟩ := by
  have declared : (⟨3⟩, ⟨2⟩) ∈ anonymousClass.methodBodies ⟨10⟩ := by
    rw [anonymousClass_methodBodies]
    exact List.mem_cons_of_mem _ (List.mem_singleton_self _)
  have selected : anonymousClass.Selects ⟨2⟩ ⟨0⟩ .all :=
    ⟨⟨1⟩, reaches_iff_route.mpr ⟨[0], [⟨2⟩], .down rfl rfl rfl (.here rfl)⟩, rfl⟩
  exact .of_selects rfl declared selected (.here rfl) rfl rfl

/-- Some token is linked to two methods, unless the return pass is left out. -/
theorem anonymousClass_returnsTo :
    (¬ ∀ token left right,
        (linkUnit anonymousClass .empty {} (skeleton anonymousClass)).graph.hasEdge
          ⟨token, left, .returnsTo⟩ = true →
        (linkUnit anonymousClass .empty {} (skeleton anonymousClass)).graph.hasEdge
          ⟨token, right, .returnsTo⟩ = true → left = right) ∧
      ∀ token left right,
        (linkUnit anonymousClass .empty { passes := [.dataflow] }
          (skeleton anonymousClass)).graph.hasEdge ⟨token, left, .returnsTo⟩ = true →
        (linkUnit anonymousClass .empty { passes := [.dataflow] }
          (skeleton anonymousClass)).graph.hasEdge ⟨token, right, .returnsTo⟩ = true →
          left = right := by
  constructor
  · intro unique
    have apart := (returnsTo_unique_iff anonymousClass_valid rfl anonymousClass_unshared rfl).mp
      unique
    exact apart rfl _ _ _ anonymousClass_encloses anonymousClass_returns
  · apply (returnsTo_unique_iff anonymousClass_valid rfl anonymousClass_unshared rfl).mpr
    intro runs
    contradiction

/-- The token of the returned variable is linked to both methods. -/
theorem anonymousClass_returned_twice :
    Bundle.validate ⟨anonymousClass, skeleton anonymousClass, .empty⟩ = .ok [] ∧
      anonymousClass.root = some ⟨10⟩ ∧ anonymousClass.Unshared everywhere ⟨10⟩ ∧
      LinkConfig.returnMode {} = .all ∧ anonymousClass.shape? ⟨0⟩ = some (.identifier "q") ∧
      (skeleton anonymousClass).tokenOf? ⟨0⟩ = some ⟨11⟩ ∧
      (linkUnit anonymousClass .empty {} (skeleton anonymousClass)).graph.hasEdge
        ⟨⟨11⟩, ⟨3⟩, .returnsTo⟩ = true ∧
      (linkUnit anonymousClass .empty {} (skeleton anonymousClass)).graph.hasEdge
        ⟨⟨11⟩, ⟨8⟩, .returnsTo⟩ = true := by
  refine ⟨anonymousClass_valid, rfl, anonymousClass_unshared, rfl, rfl, ?token, ?own, ?other⟩
  all_goals cbv

end

end FlowLink
