import FlowLink.Bundle.Basic
import FlowLink.Proofs.Graph.Skeleton
import FlowLink.Proofs.Link.Passes
import FlowLink.Proofs.Link.Scopes
import FlowLink.Proofs.Tree.Subtrees
import Mathlib.Data.List.Permutation

namespace FlowLink

/-! # The last return of a body

A search for the last return of a body enters classes and lambdas, but it enters no return.  A
return in the expression of another one, as in the body of a lambda that is passed on there, is
thus never met.  What the search takes for the last return is the outermost return around the one
that comes last in the pre-order of the body.
-/

namespace SyntaxTree

/-- The test of a search for the last return. -/
abbrev outsideReturns (_ : TreeId) (shape : Shape) : Bool := !shape.isReturn

def returnsValue (tree : SyntaxTree) (id : TreeId) : Bool := (tree.returned? id).isSome

/-- A return that a search of the body meets, and that leads to the element. -/
structure Outermost (tree : SyntaxTree) (body outer id : TreeId) : Prop where
  met : tree.Reaches outsideReturns body outer
  isReturn : (tree.shape? outer).any Shape.isReturn = true
  leads : tree.Leads outer id

/-- The identifiers that are linked to a method with this body. -/
def returnedIdentifiers (tree : SyntaxTree) (mode : ReturnMode) (body : TreeId) : List TreeId :=
  (mode.select ((tree.returns mode body).filterMap id)).flatMap tree.identifiers

variable {tree : SyntaxTree} {mode : ReturnMode}
  {body outer other last id expression identifier : TreeId} {after : List TreeId}

theorem returned?_eq_none_iff : tree.returned? id = none ↔ tree.returnsValue id = false := by
  rw [returnsValue, Option.isSome_eq_false_iff, Option.isNone_iff_eq_none]

theorem Outermost.unique (unshared : tree.Unshared everywhere body)
    (outermost : tree.Outermost body outer id) (again : tree.Outermost body other id) :
    outer = other := by
  -- A search that meets both would have to enter the outer one on the way to the other.
  have stops : ∀ {first second}, tree.Outermost body first id → tree.Outermost body second id →
      tree.Leads first second → first = second := by
    intro first second isFirst isSecond onward
    by_contra apart
    obtain ⟨_, entered⟩ := unshared.passes isSecond.met isFirst.met.leads onward
    obtain ⟨shape, found, isReturn⟩ := (Option.any_eq_true _ _).mp isFirst.isReturn
    obtain ⟨refused, _⟩ := entered.down (Ne.symm apart) found
    rw [outsideReturns, isReturn] at refused
    contradiction
  rcases unshared.comparable outermost.met.leads again.met.leads outermost.leads again.leads with
    onward | onward
  · exact stops outermost again onward
  · exact (stops again outermost onward).symm

theorem LastOn.between {test : TreeId → Bool} {path below before later : List TreeId}
    (isLast : LastOn test path last below) (none : ∀ id ∈ later, test id = false) :
    LastOn test (before ++ path ++ later) last (below ++ later) := by
  obtain ⟨earlier, rfl, passes, noneBelow⟩ := isLast
  refine ⟨before ++ earlier, by simp, passes, ?_⟩
  intro id member
  rcases List.mem_append.mp member with member | member
  · exact noneBelow id member
  · exact none id member

/-- What the search leaves unentered at an element without a returned expression returns none
either. -/
theorem returnsValue_of_mem_unfolded (valueless : tree.returnsValue id = false)
    (member : other ∈ tree.unfolded outsideReturns id) :
    tree.returnsValue other = false := by
  unfold unfolded at member
  split at member
  · rw [List.mem_singleton.mp member]
    exact valueless
  next refused =>
    have leads := mem_preorder_iff.mp member
    obtain ⟨shape, found⟩ := leads.source_in_arena
    by_cases apart : other = id
    · rw [apart]
      exact valueless
    · -- An element that is not entered is a return, and this one has no expression below it.
      obtain ⟨_, child, isChild, _⟩ := leads.down apart found
      rw [returnsValue, returned?, found] at valueless
      rw [found] at refused
      cases shape with
      | returnStatement expression =>
          cases expression with
          | none => contradiction
          | some expression => contradiction
      | _ => contradiction

/-- The last return with an expression is found within the last one that the search meets. -/
theorem lastOn_preorder (unshared : tree.Unshared everywhere body)
    (isLast : LastOn tree.returnsValue (tree.walk outsideReturns body) outer after) :
    ∃ last below, LastOn tree.returnsValue (tree.preorder body) last below ∧
      tree.Outermost body outer last := by
  obtain ⟨member, passes⟩ := isLast.passes
  have met := mem_walk_iff.mp member
  obtain ⟨expression, returned⟩ := Option.isSome_iff_exists.mp passes
  have found := returned?_eq_some_iff.mp returned
  have unentered : tree.unfolded outsideReturns outer = tree.preorder outer :=
    unfolded_of_refused found rfl
  have whole : tree.preorder body =
      (tree.walk outsideReturns body).flatMap (tree.unfolded outsideReturns) :=
    unshared.preorder_eq_unfolded
  have within : ∃ id ∈ tree.preorder outer, tree.returnsValue id = true :=
    ⟨outer, mem_preorder_iff.mpr (.here found), passes⟩
  obtain ⟨last, below, inner⟩ := exists_lastOn within
  obtain ⟨before, split, _, none⟩ := isLast
  refine ⟨last, below ++ after.flatMap (tree.unfolded outsideReturns), ?_,
    met, ?_, mem_preorder_iff.mp inner.passes.1⟩
  · rw [whole, split, List.flatMap_append, List.flatMap_cons, unentered, ← List.append_assoc]
    apply inner.between
    intro id later
    obtain ⟨entry, listed, unfolds⟩ := List.mem_flatMap.mp later
    exact returnsValue_of_mem_unfolded (none entry listed) unfolds
  · rw [found]
    rfl

/-- If an element of a body returns a value, the search of the body meets one that does. -/
theorem exists_met (unshared : tree.Unshared everywhere body)
    (member : id ∈ tree.preorder body) (passes : tree.returnsValue id = true) :
    ∃ met ∈ tree.walk outsideReturns body, tree.returnsValue met = true := by
  have whole : tree.preorder body =
      (tree.walk outsideReturns body).flatMap (tree.unfolded outsideReturns) :=
    unshared.preorder_eq_unfolded
  rw [whole] at member
  obtain ⟨met, walked, unfolds⟩ := List.mem_flatMap.mp member
  refine ⟨met, walked, ?_⟩
  by_contra valueless
  rw [returnsValue_of_mem_unfolded (Bool.of_not_eq_true valueless) unfolds] at passes
  contradiction

theorem returnedIdentifiers_of_selects (selected : tree.Selects body expression .last) :
    tree.returnedIdentifiers .last body = tree.identifiers expression := by
  have listed := Option.mem_toList.mp (mem_select_iff.mpr selected)
  rw [returnedIdentifiers, ReturnMode.select, listed, Option.toList_some, List.flatMap_cons,
    List.flatMap_nil, List.append_nil]

theorem returnedIdentifiers_of_valueless
    (valueless : ∀ id ∈ tree.preorder body, tree.returnsValue id = false) :
    tree.returnedIdentifiers mode body = [] := by
  have none : (tree.returns mode body).filterMap id = [] := by
    rw [returns_filterMap, List.filterMap_eq_nil_iff]
    intro id walked
    apply returned?_eq_none_iff.mpr
    exact valueless id (mem_preorder_iff.mpr (mem_walk_iff.mp walked).leads)
  rw [returnedIdentifiers, none]
  cases mode <;> rfl

/-- The identifiers of the last return are those under the outermost return around it. -/
theorem returnedIdentifiers_last (unshared : tree.Unshared everywhere body)
    (isLast : LastOn tree.returnsValue (tree.preorder body) last after) :
    ∃ outer expression, tree.Outermost body outer last ∧
      tree.returned? outer = some expression ∧
      tree.returnedIdentifiers .last body = tree.identifiers expression := by
  obtain ⟨met, later, lastMet⟩ :=
    exists_lastOn (exists_met unshared isLast.passes.1 isLast.passes.2)
  obtain ⟨found, below, isFound, outermost⟩ := lastOn_preorder unshared lastMet
  obtain ⟨rfl, _⟩ := lastOn_unique isFound isLast
  obtain ⟨before, split, passes, none⟩ := lastMet
  obtain ⟨expression, returned⟩ := Option.isSome_iff_exists.mp passes
  refine ⟨met, expression, outermost, returned, returnedIdentifiers_of_selects ?_⟩
  rw [walk_eq_recursiveWalk] at split
  exact ⟨before, met, later, split, returned,
    fun id member => returned?_eq_none_iff.mpr (none id member)⟩

theorem leads_of_methodBodies {root method : TreeId}
    (declared : (method, body) ∈ tree.methodBodies root) (leads : tree.Leads body id) :
    tree.Leads root id := by
  obtain ⟨_, _, found, isChild⟩ := methodBodies_isChild declared
  exact (mem_methodBodies_iff.mp declared).1.trans (.through found rfl isChild leads)

theorem Unshared.of_methodBodies {root method : TreeId} (unshared : tree.Unshared everywhere root)
    (declared : (method, body) ∈ tree.methodBodies root) : tree.Unshared everywhere body := by
  obtain ⟨_, _, found, isChild⟩ := methodBodies_isChild declared
  exact ((unshared.below (mem_methodBodies_iff.mp declared).1).branches found rfl).unshared body
    isChild

theorem mem_identifiers_of_outermost {own : TreeId} (outermost : tree.Outermost body outer last)
    (isOuter : tree.returned? outer = some expression) (isLast : tree.returned? last = some own)
    (member : identifier ∈ tree.identifiers own) : identifier ∈ tree.identifiers expression := by
  obtain ⟨leads, isIdentifier⟩ := mem_identifiers_iff.mp member
  have foundLast := returned?_eq_some_iff.mp isLast
  by_cases same : last = outer
  · subst same
    cases isOuter.symm.trans isLast
    exact member
  · obtain ⟨_, child, isChild, onward⟩ :=
      outermost.leads.down same (returned?_eq_some_iff.mp isOuter)
    cases List.mem_singleton.mp isChild
    have below : tree.Leads last identifier :=
      .through foundLast rfl (List.mem_singleton_self own) leads
    exact mem_identifiers_iff.mpr ⟨onward.trans below, isIdentifier⟩

theorem mem_of_mem_select {expressions : List TreeId}
    (selected : expression ∈ mode.select expressions) : expression ∈ expressions := by
  cases mode with
  | all => exact selected
  | last => exact List.mem_of_getLast? (Option.mem_toList.mp selected)

theorem leads_of_mem_returnedIdentifiers (member : identifier ∈ tree.returnedIdentifiers mode body) :
    tree.Leads body identifier ∧
      ∃ shape, tree.shape? identifier = some shape ∧ shape.isIdentifier = true := by
  obtain ⟨expression, selected, contained⟩ := List.mem_flatMap.mp member
  obtain ⟨leads, isIdentifier⟩ := mem_identifiers_iff.mp contained
  have listed := mem_of_mem_select selected
  rw [returns_filterMap] at listed
  obtain ⟨statement, walked, returned⟩ := List.mem_filterMap.mp listed
  have below : tree.Leads statement identifier :=
    .through (returned?_eq_some_iff.mp returned) rfl (List.mem_singleton_self expression) leads
  exact ⟨(mem_walk_iff.mp walked).leads.trans below, isIdentifier⟩

end SyntaxTree

/-! ## Requests -/

/-- The nodes that an action asks to link, and how. -/
def Action.request? : Action → Option Edge
  | .link request _ _ => some request
  | _ => none

/-- The request to link an identifier to the node of a method. -/
def FeatureGraph.returnRequest? (graph : FeatureGraph) (methodNode : NodeId)
    (identifier : TreeId) : Option Edge :=
  (graph.treeNode? identifier).map fun node => ⟨node, methodNode, .returnsTo⟩

section

open SyntaxTree

variable {tree : SyntaxTree} {mode : ReturnMode} {config : LinkConfig} {graph : FeatureGraph}
  {root method body identifier : TreeId} {methodNode : NodeId}

theorem identifierActions_requests :
    (identifierActions graph methodNode identifier).filterMap Action.request? =
      (graph.returnRequest? methodNode identifier).toList := by
  unfold identifierActions FeatureGraph.returnRequest?
  cases graph.treeNode? identifier <;> rfl

theorem methodActions_requests (registered : graph.treeNode? method = some methodNode) :
    (methodActions tree mode graph (method, body)).filterMap Action.request? =
      (tree.returnedIdentifiers mode body).filterMap (graph.returnRequest? methodNode) := by
  have returned : ∀ identifiers,
      (returnedActions graph method identifiers).filterMap Action.request? =
        identifiers.filterMap (graph.returnRequest? methodNode) := by
    intro identifiers
    cases identifiers with
    | nil => rfl
    | cons first rest =>
        rw [returnedActions, List.isEmpty_cons, if_neg Bool.false_ne_true, registered]
        simp only [List.filterMap_cons, Action.request?, List.filterMap_flatMap,
          identifierActions_requests]
        rw [← List.filterMap_eq_flatMap_toList, List.filterMap_cons]
  exact returned _

/-- When the last return is wanted and no element is shared, the pass asks to link to a method the
identifiers under the outermost return around the last return with an expression in its body.  These
are the identifiers of the last one itself just if there are no others under the outermost. -/
theorem last_return_requested {body : TreeId} (rooted : tree.root = some root)
    (unshared : tree.Unshared everywhere root) (declared : (method, body) ∈ tree.methodBodies root)
    (registered : graph.treeNode? method = some methodNode)
    (identified : ∀ id shape, tree.Leads root id → tree.shape? id = some shape →
      shape.isIdentifier = true → (graph.treeNode? id).isSome = true)
    (wanted : config.returnMode = .last) :
    Pass.returnsTo.Performs config graph (linkReturns tree config)
        ((tree.methodBodies root).flatMap (methodActions tree .last graph)) ∧
      ((methodActions tree .last graph (method, body)).filterMap Action.request?).map some =
        (tree.returnedIdentifiers .last body).map (graph.returnRequest? methodNode) ∧
      ((∀ id ∈ tree.preorder body, tree.returnsValue id = false) →
        tree.returnedIdentifiers .last body = []) ∧
      ∀ last after own, LastOn tree.returnsValue (tree.preorder body) last after →
        tree.returned? last = some own →
        ∃ outer expression, (∀ other, tree.Outermost body other last ↔ other = outer) ∧
          tree.returned? outer = some expression ∧
          tree.returnedIdentifiers .last body = tree.identifiers expression ∧
          ((∀ id, id ∈ tree.returnedIdentifiers .last body ↔ id ∈ tree.identifiers own) ↔
            ∀ id ∈ tree.identifiers expression, tree.Leads own id) := by
  have unsharedBody := unshared.of_methodBodies declared
  have performs : Pass.returnsTo.Performs config graph (linkReturns tree config)
      (returnActions tree config.returnMode root graph) := linkReturns_performs_of_root rooted
  rw [wanted] at performs
  refine ⟨performs, ?_, returnedIdentifiers_of_valueless, ?_⟩
  · rw [methodActions_requests registered, List.map_filterMap, ← List.filterMap_eq_map]
    apply List.filterMap_congr
    intro identifier member
    obtain ⟨leads, shape, found, isIdentifier⟩ := leads_of_mem_returnedIdentifiers member
    obtain ⟨node, isNode⟩ := Option.isSome_iff_exists.mp
      (identified identifier shape (leads_of_methodBodies declared leads) found isIdentifier)
    simp only [FeatureGraph.returnRequest?, isNode, Option.map_some, Function.comp_apply]
  · intro last after own isLast returnsOwn
    obtain ⟨outer, expression, outermost, isOuter, requested⟩ :=
      returnedIdentifiers_last unsharedBody isLast
    refine ⟨outer, expression, ?_, isOuter, requested, ?_⟩
    · intro other
      constructor
      · intro again
        exact again.unique unsharedBody outermost
      · rintro rfl
        exact outermost
    · rw [requested]
      constructor
      · intro same id member
        exact (mem_identifiers_iff.mp ((same id).mp member)).1
      · intro inside id
        constructor
        · intro member
          exact mem_identifiers_iff.mpr
            ⟨inside id member, (mem_identifiers_iff.mp member).2⟩
        · exact mem_identifiers_of_outermost outermost isOuter returnsOwn

/-- A method that returns a call, with a variable and a lambda as arguments.  The lambda returns
another variable. -/
def nestedReturn : SyntaxTree where
  elements := #[⟨⟨0⟩, .identifier "x"⟩, ⟨⟨1⟩, .identifier "z"⟩, ⟨⟨2⟩, .returnStatement (some ⟨1⟩)⟩,
    ⟨⟨3⟩, .block [⟨2⟩]⟩, ⟨⟨4⟩, .lambda [] ⟨3⟩⟩, ⟨⟨5⟩, .methodCall none "run" [⟨0⟩, ⟨4⟩]⟩,
    ⟨⟨6⟩, .returnStatement (some ⟨5⟩)⟩, ⟨⟨7⟩, .block [⟨6⟩]⟩, ⟨⟨8⟩, .methodDecl "f" [] (some ⟨7⟩)⟩,
    ⟨⟨9⟩, .classDecl "A" [⟨8⟩]⟩, ⟨⟨10⟩, .compilationUnit [⟨9⟩]⟩]
  root := some ⟨10⟩

theorem nestedReturn_sound : nestedReturn.Sound := defect?_eq_none_iff.mp (by decide)

theorem nestedReturn_registered {id : TreeId} {shape : Shape}
    (found : nestedReturn.shape? id = some shape) :
    (FeatureGraph.skeleton nestedReturn).treeNode? id = some ⟨id.index⟩ := by
  rw [FeatureGraph.treeNode?_skeleton nestedReturn_sound, if_pos (lt_size_iff.mpr ⟨_, found⟩)]

theorem nestedReturn_unshared : nestedReturn.Unshared everywhere ⟨10⟩ :=
  unshared_of_nodup (by decide) (by decide) _

theorem nestedReturn_declared : (⟨8⟩, ⟨7⟩) ∈ nestedReturn.methodBodies ⟨10⟩ := by
  have declarations : nestedReturn.methodBodies ⟨10⟩ = [(⟨8⟩, ⟨7⟩)] := by cbv
  rw [declarations]
  exact List.mem_singleton_self _

theorem nestedReturn_last :
    LastOn nestedReturn.returnsValue (nestedReturn.preorder ⟨7⟩) ⟨2⟩ [⟨1⟩] :=
  ⟨[⟨7⟩, ⟨6⟩, ⟨5⟩, ⟨0⟩, ⟨4⟩, ⟨3⟩], by cbv, by decide, by decide⟩

theorem nestedReturn_outermost : nestedReturn.Outermost ⟨7⟩ ⟨6⟩ ⟨2⟩ where
  met := reaches_iff_route.mpr ⟨[0], [⟨7⟩], .down rfl rfl rfl (.here rfl)⟩
  isReturn := rfl
  leads := reaches_iff_route.mpr ⟨[0, 1, 0, 0], [⟨6⟩, ⟨5⟩, ⟨4⟩, ⟨3⟩],
    .down rfl rfl rfl (.down rfl rfl rfl (.down rfl rfl rfl (.down rfl rfl rfl (.here rfl))))⟩

theorem nestedReturn_returned : nestedReturn.returnedIdentifiers .last ⟨7⟩ = [⟨0⟩, ⟨1⟩] := by
  have returns : nestedReturn.returns .last ⟨7⟩ = [some ⟨5⟩] := by cbv
  have identifiers : nestedReturn.identifiers ⟨5⟩ = [⟨0⟩, ⟨1⟩] := by cbv
  rw [returnedIdentifiers, returns]
  change nestedReturn.identifiers ⟨5⟩ ++ [] = _
  rw [identifiers, List.append_nil]

/-- The last return is that of the lambda, and the outermost return around it is that of the
method. -/
theorem nestedReturn_requested :
    nestedReturn.Outermost ⟨7⟩ ⟨6⟩ ⟨2⟩ ∧
      nestedReturn.returnedIdentifiers .last ⟨7⟩ = nestedReturn.identifiers ⟨5⟩ ∧
      ((methodActions nestedReturn .last (FeatureGraph.skeleton nestedReturn)
          (⟨8⟩, ⟨7⟩)).filterMap Action.request?).map some =
        [some ⟨⟨0⟩, ⟨8⟩, .returnsTo⟩, some ⟨⟨1⟩, ⟨8⟩, .returnsTo⟩] := by
  have requests : (nestedReturn.returnedIdentifiers .last ⟨7⟩).map
      ((FeatureGraph.skeleton nestedReturn).returnRequest? ⟨8⟩) =
        [some ⟨⟨0⟩, ⟨8⟩, .returnsTo⟩, some ⟨⟨1⟩, ⟨8⟩, .returnsTo⟩] := by
    rw [nestedReturn_returned, List.map_cons, List.map_cons, FeatureGraph.returnRequest?,
      FeatureGraph.returnRequest?, nestedReturn_registered rfl, nestedReturn_registered rfl]
    rfl
  have wanted : LinkConfig.returnMode { returnMode := .last } = .last := rfl
  obtain ⟨_, asked, _, lasts⟩ := last_return_requested rfl nestedReturn_unshared
    nestedReturn_declared (nestedReturn_registered rfl)
    (fun _ _ _ found _ => Option.isSome_of_eq_some (nestedReturn_registered found)) wanted
  obtain ⟨outer, expression, outermost, isOuter, requested, _⟩ :=
    lasts ⟨2⟩ [⟨1⟩] ⟨1⟩ nestedReturn_last rfl
  obtain rfl := (outermost ⟨6⟩).mp nestedReturn_outermost
  cases isOuter
  exact ⟨nestedReturn_outermost, requested, asked.trans requests⟩

/-- What the pass links are not the identifiers of the last return. -/
theorem nestedReturn_not_last :
    (Bundle.mk nestedReturn (.skeleton nestedReturn) .empty).validate = .ok [] ∧
      nestedReturn.root = some ⟨10⟩ ∧ nestedReturn.Unshared everywhere ⟨10⟩ ∧
      (⟨8⟩, ⟨7⟩) ∈ nestedReturn.methodBodies ⟨10⟩ ∧
      (FeatureGraph.skeleton nestedReturn).treeNode? ⟨8⟩ = some ⟨8⟩ ∧
      (∀ id shape, nestedReturn.shape? id = some shape → shape.isIdentifier = true →
        ((FeatureGraph.skeleton nestedReturn).treeNode? id).isSome = true) ∧
      LastOn nestedReturn.returnsValue (nestedReturn.preorder ⟨7⟩) ⟨2⟩ [⟨1⟩] ∧
      nestedReturn.returned? ⟨2⟩ = some ⟨1⟩ ∧ nestedReturn.identifiers ⟨1⟩ = [⟨1⟩] ∧
      nestedReturn.returnedIdentifiers .last ⟨7⟩ = [⟨0⟩, ⟨1⟩] ∧
      (FeatureGraph.skeleton nestedReturn).tokenOf? ⟨0⟩ = some ⟨11⟩ ∧
      (linkReturns nestedReturn { returnMode := .last } (.skeleton nestedReturn)).graph.hasEdge
        ⟨⟨11⟩, ⟨8⟩, .returnsTo⟩ = true := by
  refine ⟨?valid, rfl, nestedReturn_unshared, nestedReturn_declared, nestedReturn_registered rfl,
    fun _ _ found _ => Option.isSome_of_eq_some (nestedReturn_registered found), nestedReturn_last,
    rfl, ?own, nestedReturn_returned, ?token, ?edge⟩
  case valid => decide +kernel
  all_goals cbv

end

end FlowLink
