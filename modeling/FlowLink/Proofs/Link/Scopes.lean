import FlowLink.Proofs.Link.DataflowEdges
import FlowLink.Proofs.Tree.Routes

namespace FlowLink

/-! # Scopes along a route

The scope of a site comes from the classes and methods above it: the last class, and the last method
below that class.  Where there is one route only to a site, nothing else has a part in its scope.
-/

namespace Shape

def isClass : Shape → Bool
  | classDecl .. => true
  | _ => false

def isMethod : Shape → Bool
  | methodDecl .. => true
  | _ => false

theorem apart_of_isSite {shape : Shape} (isSite : shape.isSite = true) :
    shape.isClass = false ∧ shape.isMethod = false := by
  cases shape <;> first | exact ⟨rfl, rfl⟩ | contradiction

end Shape

/-! ## The pass as one traversal

The pass links a row of sites, which a traversal collects beforehand.  Linking each site as the
traversal takes it from its stack comes to the same, since what a traversal finds does not depend on
what is done with it.
-/

section

variable {tree : SyntaxTree} {config : LinkConfig} {analysis : Analysis} {start : TreeId}

namespace Progress

/-- Links an element if it is a site, and records that it was processed in this scope. -/
def process (config : LinkConfig) (analysis : Analysis) (id : TreeId) (shape : Shape)
    (scope : Scope) (state : Progress × Array (TreeId × Scope)) :
    Option Scope × Progress × Array (TreeId × Scope) :=
  (some (scope.enter id shape),
    if shape.isSite then state.1.linkSite config analysis (id, scope) else state.1,
    state.2.push (id, scope))

/-- What processing an element does to the progress and to the record. -/
def takeUp (tree : SyntaxTree) (config : LinkConfig) (analysis : Analysis)
    (state : Progress × Array (TreeId × Scope)) (visit : TreeId × Scope) :
    Progress × Array (TreeId × Scope) :=
  (if (tree.shape? visit.1).any Shape.isSite then state.1.linkSite config analysis visit
    else state.1, state.2.push visit)

theorem foldl_takeUp (visits : List (TreeId × Scope)) (state : Progress × Array (TreeId × Scope)) :
    visits.foldl (takeUp tree config analysis) state =
      ((visits.filter fun visit => (tree.shape? visit.1).any Shape.isSite).foldl
          (linkSite config analysis) state.1,
        state.2 ++ visits.toArray) := by
  induction visits generalizing state with
  | nil => simp
  | cons visit rest ih =>
      rw [List.foldl_cons, ih, List.filter_cons]
      cases isSite : (tree.shape? visit.1).any Shape.isSite <;> simp [takeUp, isSite]

theorem traverse_process (progress : Progress) :
    tree.traverse (process config analysis) start {} (progress, #[]) =
      ((tree.sites start).foldl (linkSite config analysis) progress,
        (tree.scopes start).toArray) := by
  rw [SyntaxTree.traverse_eq_foldl (fun id shape (scope : Scope) => some (scope.enter id shape))
      (takeUp tree config analysis),
    ← SyntaxTree.scopes_eq_depthFirst, foldl_takeUp, Array.empty_append]
  · rfl
  · intro id shape scope state found
    rw [process, takeUp, found]
    rfl

end Progress

/-- The pass links its sites in one traversal, which processes every element in its scope. -/
theorem linkDataflow_run {graph : FeatureGraph} {root : TreeId} (rooted : tree.root = some root) :
    let run := tree.traverse (Progress.process config analysis) root {} (.start graph, #[])
    linkDataflow tree analysis config graph =
        run.1.report (.dataflowFinished run.1.stats.edgesAdded run.1.stats.sitesVisited) ∧
      run.2 = (tree.scopes root).toArray := by
  intro run
  have ran : run = ((tree.sites root).foldl (Progress.linkSite config analysis) (.start graph),
      (tree.scopes root).toArray) := Progress.traverse_process (.start graph)
  rw [ran, linkDataflow, rooted]
  exact ⟨rfl, rfl⟩

end

namespace SyntaxTree

/-- The dataflow pass comes upon the element as a site in this scope. -/
inductive Treats (tree : SyntaxTree) (site : TreeId) (scope : Scope) : Prop
  | intro {root : TreeId} (rooted : tree.root = some root)
      (visited : (site, scope) ∈ tree.sites root)

def isClass (tree : SyntaxTree) (id : TreeId) : Bool := (tree.shape? id).any Shape.isClass

def isMethod (tree : SyntaxTree) (id : TreeId) : Bool := (tree.shape? id).any Shape.isMethod

/-- The last element of a path that passes the test, and the path below it. -/
def LastOn (test : TreeId → Bool) (path : List TreeId) (id : TreeId) (below : List TreeId) :
    Prop :=
  ∃ before, path = before ++ id :: below ∧ test id = true ∧ ∀ later ∈ below, test later = false

/-! ## Last elements -/

section

variable {test : TreeId → Bool} {path below : List TreeId} {id last other : TreeId}

theorem not_lastOn_nil : ¬ LastOn test [] last below := by
  intro found
  obtain ⟨before, split, _⟩ := found
  simp at split

theorem lastOn_concat_of_passes (passes : test id = true) :
    LastOn test (path ++ [id]) last below ↔ last = id ∧ below = [] := by
  constructor
  · intro found
    obtain ⟨before, split, _, none⟩ := found
    cases below using List.reverseRecOn with
    | nil => exact ⟨((List.append_inj' split rfl).2 |> List.cons.inj).1.symm, rfl⟩
    | append_singleton shorter bottom =>
        rw [← List.cons_append, ← List.append_assoc] at split
        obtain ⟨_, same⟩ := List.append_inj' split rfl
        cases same
        rw [none id (by simp)] at passes
        contradiction
  · intro isLast
    obtain ⟨rfl, rfl⟩ := isLast
    exact ⟨path, rfl, passes, by simp⟩

theorem lastOn_concat_of_fails (fails : test id = false) :
    LastOn test (path ++ [id]) last below ↔
      ∃ shorter, below = shorter ++ [id] ∧ LastOn test path last shorter := by
  constructor
  · intro found
    obtain ⟨before, split, passes, none⟩ := found
    cases below using List.reverseRecOn with
    | nil =>
        obtain ⟨_, same⟩ := List.append_inj' split rfl
        cases same
        rw [fails] at passes
        contradiction
    | append_singleton shorter bottom =>
        rw [← List.cons_append, ← List.append_assoc] at split
        obtain ⟨rfl, same⟩ := List.append_inj' split rfl
        cases same
        exact ⟨shorter, rfl, before, rfl, passes,
          fun later member => none later (List.mem_append_left _ member)⟩
  · intro found
    obtain ⟨shorter, rfl, before, rfl, passes, none⟩ := found
    refine ⟨before, by simp, passes, ?_⟩
    intro later member
    rcases List.mem_append.mp member with member | member
    · exact none later member
    · rw [List.mem_singleton.mp member]
      exact fails

theorem lastOn_unique {beyond : List TreeId} (found : LastOn test path last below)
    (again : LastOn test path other beyond) : last = other ∧ below = beyond := by
  induction path using List.reverseRecOn generalizing below beyond with
  | nil => exact absurd found not_lastOn_nil
  | append_singleton path id ih =>
      cases passes : test id with
      | true =>
          obtain ⟨rfl, rfl⟩ := (lastOn_concat_of_passes passes).mp found
          obtain ⟨rfl, rfl⟩ := (lastOn_concat_of_passes passes).mp again
          exact ⟨rfl, rfl⟩
      | false =>
          obtain ⟨_, rfl, earlier⟩ := (lastOn_concat_of_fails passes).mp found
          obtain ⟨_, rfl, earlier'⟩ := (lastOn_concat_of_fails passes).mp again
          obtain ⟨rfl, rfl⟩ := ih earlier earlier'
          exact ⟨rfl, rfl⟩

theorem exists_lastOn (present : ∃ id ∈ path, test id = true) :
    ∃ last below, LastOn test path last below := by
  induction path using List.reverseRecOn with
  | nil => simp at present
  | append_singleton path id ih =>
      cases passes : test id with
      | true => exact ⟨id, [], (lastOn_concat_of_passes passes).mpr ⟨rfl, rfl⟩⟩
      | false =>
          obtain ⟨other, member, holds⟩ := present
          have earlier : other ∈ path := by
            rcases List.mem_append.mp member with member | member
            · exact member
            · rw [List.mem_singleton.mp member, passes] at holds
              contradiction
          obtain ⟨last, below, found⟩ := ih ⟨other, earlier, holds⟩
          exact ⟨last, below ++ [id], (lastOn_concat_of_fails passes).mpr ⟨below, rfl, found⟩⟩

theorem LastOn.passes (found : LastOn test path last below) : last ∈ path ∧ test last = true := by
  obtain ⟨before, rfl, passes, _⟩ := found
  exact ⟨by simp, passes⟩

end

/-! ## The scope below a path -/

variable {tree : SyntaxTree} {path : List TreeId} {id classId method : TreeId}

theorem scopeBelow_concat :
    tree.scopeBelow (path ++ [id]) =
      if tree.isClass id then ⟨some id, none⟩
      else if tree.isMethod id then { tree.scopeBelow path with method := some id }
      else tree.scopeBelow path := by
  have entered : tree.scopeBelow (path ++ [id]) =
      ((tree.shape? id).map ((tree.scopeBelow path).enter id)).getD (tree.scopeBelow path) :=
    List.foldl_append
  rw [entered]
  unfold isClass isMethod
  cases tree.shape? id with
  | none => rfl
  | some shape => cases shape <;> rfl

theorem classId_scopeBelow :
    (tree.scopeBelow path).classId = some classId ↔
      ∃ members, LastOn tree.isClass path classId members := by
  induction path using List.reverseRecOn with
  | nil => simp [scopeBelow, not_lastOn_nil]
  | append_singleton path id ih =>
      rw [scopeBelow_concat]
      cases entersClass : tree.isClass id with
      | true =>
          simp only [if_true, Option.some.injEq, lastOn_concat_of_passes entersClass,
            exists_and_left, exists_eq, and_true]
          exact eq_comm
      | false =>
          have above : (∃ members, LastOn tree.isClass (path ++ [id]) classId members) ↔
              ∃ members, LastOn tree.isClass path classId members := by
            simp only [lastOn_concat_of_fails entersClass]
            constructor
            · intro found
              obtain ⟨_, shorter, _, found⟩ := found
              exact ⟨shorter, found⟩
            · intro found
              obtain ⟨members, found⟩ := found
              exact ⟨_, members, rfl, found⟩
          rw [above, ← ih]
          cases tree.isMethod id <;> rfl

theorem enclosing_eq_some_iff {scope : Scope} :
    scope.enclosing = some (classId, method) ↔
      scope.classId = some classId ∧ scope.method = some method := by
  obtain ⟨outer, inner⟩ := scope
  cases outer <;> cases inner <;> simp [Scope.enclosing]

/-- The scope below a path is the last class on it with the last method below this class. -/
theorem enclosing_scopeBelow :
    (tree.scopeBelow path).enclosing = some (classId, method) ↔
      ∃ members, LastOn tree.isClass path classId members ∧
        ∃ inside, LastOn tree.isMethod members method inside := by
  induction path using List.reverseRecOn generalizing method with
  | nil => simp [scopeBelow, Scope.enclosing, not_lastOn_nil]
  | append_singleton path id ih =>
      rw [scopeBelow_concat]
      cases entersClass : tree.isClass id with
      | true =>
          -- Below a class that was just entered there is no method yet.
          simp [enclosing_eq_some_iff, lastOn_concat_of_passes entersClass, not_lastOn_nil]
      | false =>
          simp only [Bool.false_eq_true, if_false, lastOn_concat_of_fails entersClass]
          cases entersMethod : tree.isMethod id with
          | true =>
              rw [if_pos rfl, enclosing_eq_some_iff, classId_scopeBelow]
              constructor
              · intro place
                obtain ⟨⟨members, isLast⟩, isHere⟩ := place
                exact ⟨_, ⟨members, rfl, isLast⟩, [],
                  (lastOn_concat_of_passes entersMethod).mpr ⟨(Option.some.inj isHere).symm, rfl⟩⟩
              · intro place
                obtain ⟨_, ⟨members, rfl, isLast⟩, inside, found⟩ := place
                obtain ⟨rfl, _⟩ := (lastOn_concat_of_passes entersMethod).mp found
                exact ⟨⟨members, isLast⟩, rfl⟩
          | false =>
              rw [if_neg Bool.false_ne_true, ih]
              constructor
              · intro place
                obtain ⟨members, isLast, inside, found⟩ := place
                exact ⟨_, ⟨members, rfl, isLast⟩, inside ++ [id],
                  (lastOn_concat_of_fails entersMethod).mpr ⟨inside, rfl, found⟩⟩
              · intro place
                obtain ⟨_, ⟨members, rfl, isLast⟩, _, found⟩ := place
                obtain ⟨inside, rfl, earlier⟩ := (lastOn_concat_of_fails entersMethod).mp found
                exact ⟨members, isLast, inside, earlier⟩

theorem enclosing_scopeBelow_eq_none_iff :
    (tree.scopeBelow path).enclosing = none ↔
      (∀ id ∈ path, tree.isClass id = false) ∨
        ∃ classId members, LastOn tree.isClass path classId members ∧
          ∀ id ∈ members, tree.isMethod id = false := by
  constructor
  · intro outside
    by_cases inClass : ∃ id ∈ path, tree.isClass id = true
    · obtain ⟨classId, members, isLast⟩ := exists_lastOn inClass
      refine Or.inr ⟨classId, members, isLast, ?_⟩
      by_contra within
      push Not at within
      obtain ⟨id, member, isMethod⟩ := within
      obtain ⟨method, inside, found⟩ :=
        exists_lastOn ⟨id, member, Bool.of_not_eq_false isMethod⟩
      have enclosed := enclosing_scopeBelow.mpr ⟨members, isLast, inside, found⟩
      rw [outside] at enclosed
      contradiction
    · push Not at inClass
      exact Or.inl fun id member => Bool.of_not_eq_true (inClass id member)
  · intro either
    cases enclosed : (tree.scopeBelow path).enclosing with
    | none => rfl
    | some place =>
        obtain ⟨classId, method⟩ := place
        obtain ⟨members, isLast, inside, found⟩ := enclosing_scopeBelow.mp enclosed
        rcases either with classless | ⟨otherClass, otherMembers, again, methodless⟩
        · have passes := isLast.passes
          rw [classless classId passes.1] at passes
          exact absurd passes.2 Bool.false_ne_true
        · obtain ⟨rfl, rfl⟩ := lastOn_unique isLast again
          have passes := found.passes
          rw [methodless method passes.1] at passes
          exact absurd passes.2 Bool.false_ne_true

/-- The scope below a path depends on which of its elements are classes and methods only. -/
theorem scopeBelow_congr {other : SyntaxTree}
    (alike : ∀ id ∈ path, other.isClass id = tree.isClass id ∧
      other.isMethod id = tree.isMethod id) :
    other.scopeBelow path = tree.scopeBelow path := by
  induction path using List.reverseRecOn with
  | nil => rfl
  | append_singleton path id ih =>
      obtain ⟨classes, methods⟩ := alike id (by simp)
      rw [scopeBelow_concat, scopeBelow_concat, classes, methods,
        ih fun id member => alike id (List.mem_append_left _ member)]

/-! ## Scopes of sites -/

section

variable {root site : TreeId} {positions : List Nat} {above : List TreeId} {scope : Scope}

theorem treats_iff_mem_scopes (rooted : tree.root = some root)
    (isSite : (tree.shape? site).any Shape.isSite = true) :
    tree.Treats site scope ↔ (site, scope) ∈ tree.scopes root := by
  constructor
  · intro treated
    obtain ⟨rooted', visited⟩ := treated
    cases rooted.symm.trans rooted'
    exact (List.mem_filter.mp visited).1
  · intro processed
    exact .intro rooted (List.mem_filter.mpr ⟨processed, isSite⟩)

theorem treats_iff_of_route (rooted : tree.root = some root)
    (unshared : tree.Unshared (fun _ _ => true) root)
    (route : tree.Route (fun _ _ => true) root positions above site)
    (isSite : (tree.shape? site).any Shape.isSite = true) :
    tree.Treats site scope ↔ scope = tree.scopeBelow above := by
  rw [treats_iff_mem_scopes rooted isSite, scopes_eq_map_discoveries, List.mem_map]
  constructor
  · intro listed
    obtain ⟨⟨_, beyond⟩, discovered, same⟩ := listed
    cases same
    rw [(mem_discoveries_iff_of_unshared unshared route).mp discovered]
  · rintro rfl
    exact ⟨_, (mem_discoveries_iff_of_unshared unshared route).mpr rfl, rfl⟩

theorem scopeBelow_site (isSite : (tree.shape? site).any Shape.isSite = true) :
    tree.scopeBelow (above ++ [site]) = tree.scopeBelow above := by
  obtain ⟨shape, found, isSite⟩ := (Option.any_eq_true _ _).mp isSite
  obtain ⟨classless, methodless⟩ := Shape.apart_of_isSite isSite
  simp [scopeBelow_concat, isClass, isMethod, found, classless, methodless]

/-- Where no element is reached on two routes, the dataflow pass treats each site in one scope,
which comes from the route to it: its traversal, which links each site as it comes to it, comes to
this one in no other scope.  The scope encloses the site in the last class on the route and the last
method below this class; it does not enclose the site if there is no such class or no such method.
In any other tree with this route to the site, whatever else it holds, the site is treated in the
same scope, as long as the same elements of the route are classes and methods. -/
theorem scope_of_route (rooted : tree.root = some root)
    (unshared : tree.Unshared (fun _ _ => true) root)
    (route : tree.Route (fun _ _ => true) root positions above site)
    (isSite : (tree.shape? site).any Shape.isSite = true) :
    ∃ scope : Scope, (∀ treated, tree.Treats site treated ↔ treated = scope) ∧
      (∀ analysis config graph,
        let run := tree.traverse (Progress.process config analysis) root {} (.start graph, #[])
        linkDataflow tree analysis config graph =
            run.1.report (.dataflowFinished run.1.stats.edgesAdded run.1.stats.sitesVisited) ∧
          ∀ treated, (site, treated) ∈ run.2 ↔ treated = scope) ∧
      (∀ classId method, scope.enclosing = some (classId, method) ↔
        ∃ members, LastOn tree.isClass (above ++ [site]) classId members ∧
          ∃ inside, LastOn tree.isMethod members method inside) ∧
      (scope.enclosing = none ↔
        (∀ id ∈ above ++ [site], tree.isClass id = false) ∨
          ∃ classId members, LastOn tree.isClass (above ++ [site]) classId members ∧
            ∀ id ∈ members, tree.isMethod id = false) ∧
      ∀ other : SyntaxTree, other.root = some root → other.Unshared (fun _ _ => true) root →
        (∃ others, other.Route (fun _ _ => true) root others above site) →
        (other.shape? site).any Shape.isSite = true →
        (∀ id ∈ above, other.isClass id = tree.isClass id ∧ other.isMethod id = tree.isMethod id) →
        ∀ treated, other.Treats site treated ↔ treated = scope := by
  refine ⟨tree.scopeBelow (above ++ [site]), ?_, ?_, fun _ _ => enclosing_scopeBelow,
    enclosing_scopeBelow_eq_none_iff, ?_⟩
  · intro treated
    rw [scopeBelow_site isSite]
    exact treats_iff_of_route rooted unshared route isSite
  · intro analysis config graph
    obtain ⟨linked, listed⟩ := linkDataflow_run rooted
    refine ⟨linked, fun treated => ?_⟩
    rw [listed, List.mem_toArray, scopeBelow_site isSite, ← treats_iff_mem_scopes rooted isSite]
    exact treats_iff_of_route rooted unshared route isSite
  · intro other rooted' unshared' routed isSite' alike treated
    obtain ⟨others, route'⟩ := routed
    rw [scopeBelow_site isSite, ← scopeBelow_congr alike]
    exact treats_iff_of_route rooted' unshared' route' isSite'

/-- A method whose body refers to a variable after a class of its own, which has a field. -/
def localClass : SyntaxTree where
  elements := #[⟨⟨0⟩, .compilationUnit [⟨1⟩]⟩, ⟨⟨1⟩, .classDecl "Outer" [⟨2⟩]⟩,
    ⟨⟨2⟩, .methodDecl "run" [] (some ⟨3⟩)⟩, ⟨⟨3⟩, .block [⟨4⟩, ⟨6⟩]⟩,
    ⟨⟨4⟩, .classDecl "Local" [⟨5⟩]⟩, ⟨⟨5⟩, .variableDecl "field" none⟩, ⟨⟨6⟩, .identifier "x"⟩]
  root := some ⟨0⟩

/-- The field stands in no method and the variable in the outer one, also if the class before it is
replaced by a block. -/
theorem localClass_scope_of_route :
    let whole : TreeId → Shape → Bool := fun _ _ => true
    let outer : List TreeId := [⟨0⟩, ⟨1⟩, ⟨2⟩, ⟨3⟩]
    let plain : SyntaxTree :=
      { localClass with elements := localClass.elements.set 4 ⟨⟨4⟩, .block [⟨5⟩]⟩ }
    let run := localClass.traverse (Progress.process {} .empty) ⟨0⟩ {} (.start .empty, #[])
    localClass.defect? = none ∧ localClass.root = some ⟨0⟩ ∧ localClass.Unshared whole ⟨0⟩ ∧
      (localClass.Route whole ⟨0⟩ [0, 0, 0, 0, 0] (outer ++ [⟨4⟩]) ⟨5⟩ ∧
        ∃ scope : Scope, localClass.Treats ⟨5⟩ scope ∧ scope.enclosing = none) ∧
      (localClass.Route whole ⟨0⟩ [0, 0, 0, 1] outer ⟨6⟩ ∧
        ∃ scope : Scope, localClass.Treats ⟨6⟩ scope ∧ scope.enclosing = some (⟨1⟩, ⟨2⟩) ∧
          (⟨6⟩, scope) ∈ run.2 ∧ plain.Treats ⟨6⟩ scope) := by
  intro whole outer plain run
  have unshared : localClass.Unshared whole ⟨0⟩ :=
    unshared_of_nodup (by decide) (by decide) whole
  have field : localClass.Route whole ⟨0⟩ [0, 0, 0, 0, 0] (outer ++ [⟨4⟩]) ⟨5⟩ :=
    .down rfl rfl rfl (.down rfl rfl rfl (.down rfl rfl rfl (.down rfl rfl rfl
      (.down rfl rfl rfl (.here rfl)))))
  have use : localClass.Route whole ⟨0⟩ [0, 0, 0, 1] outer ⟨6⟩ :=
    .down rfl rfl rfl (.down rfl rfl rfl (.down rfl rfl rfl (.down rfl rfl rfl (.here rfl))))
  have plainUse : plain.Route whole ⟨0⟩ [0, 0, 0, 1] outer ⟨6⟩ :=
    .down rfl rfl rfl (.down rfl rfl rfl (.down rfl rfl rfl (.down rfl rfl rfl (.here rfl))))
  have plainUnshared : plain.Unshared whole ⟨0⟩ := unshared_of_nodup (by decide) (by decide) whole
  obtain ⟨inside, treated, _, _, outside, _⟩ := scope_of_route rfl unshared field rfl
  obtain ⟨scope, treatedUse, ran, encloses, _, undisturbed⟩ := scope_of_route rfl unshared use rfl
  refine ⟨by decide, rfl, unshared, ⟨field, inside, (treated inside).mpr rfl, ?_⟩,
    ⟨use, scope, (treatedUse scope).mpr rfl, ?_, ?_, ?_⟩⟩
  · exact outside.mpr (Or.inr ⟨⟨4⟩, [⟨5⟩], ⟨outer, rfl, rfl, by decide⟩, by decide⟩)
  · exact (encloses ⟨1⟩ ⟨2⟩).mpr ⟨[⟨2⟩, ⟨3⟩, ⟨6⟩], ⟨[⟨0⟩], rfl, rfl, by decide⟩,
      [⟨3⟩, ⟨6⟩], ⟨[], rfl, rfl, by decide⟩⟩
  · exact ((ran .empty {} .empty).2 scope).mpr rfl
  · exact (undisturbed plain rfl plainUnshared ⟨_, plainUse⟩ rfl (by decide) scope).mpr rfl

end

end SyntaxTree

end FlowLink
