import FlowLink.Proofs.Facts
import FlowLink.Proofs.Link.Growth
import FlowLink.Proofs.Link.Scopes
import Mathlib.Data.List.Basic

namespace FlowLink

open Std

/-! # Consulted facts

The dataflow pass looks up facts for the method around a site, and of them those about this site.
Two analyses that agree wherever it looks are the same to it, whatever else they record.
-/

/-- The dataflow pass comes upon the element as a site in this method of the class. -/
inductive SyntaxTree.Processes (tree : SyntaxTree) (site classId method : TreeId) : Prop
  | intro {scope : Scope} (treated : tree.Treats site scope)
      (enclosed : scope.enclosing = some (classId, method))

/-- Both analyses record the method or neither does, and both record the same about the site. -/
def Analysis.AgreeAt (left right : Analysis) (site classId method : TreeId) : Prop :=
  ∀ kind, (left.get? classId method).map (fun outputs => outputs.candidates? kind site) =
    (right.get? classId method).map fun outputs => outputs.candidates? kind site

namespace Progress

variable {config : LinkConfig} {progress : Progress}

theorem linkFact_congr {outputs others : MethodFacts} {site : TreeId} {kind : FactKind}
    (same : outputs.candidates? kind site = others.candidates? kind site) :
    linkFact config outputs site progress kind = linkFact config others site progress kind := by
  unfold linkFact
  rw [same]

theorem linkSite_congr {left right : Analysis} {site : TreeId} {scope : Scope}
    (agree : ∀ classId method, scope.enclosing = some (classId, method) →
      left.AgreeAt right site classId method) :
    linkSite config left progress (site, scope) = linkSite config right progress (site, scope) := by
  unfold linkSite
  simp only
  cases enclosed : scope.enclosing with
  | none => rfl
  | some place =>
      obtain ⟨classId, method⟩ := place
      have looked := agree classId method enclosed
      have written := looked .lastWrite
      simp only
      cases fromLeft : left.get? classId method with
      | none =>
          cases fromRight : right.get? classId method with
          | none => rfl
          | some others => simp [fromLeft, fromRight] at written
      | some outputs =>
          cases fromRight : right.get? classId method with
          | none => simp [fromLeft, fromRight] at written
          | some others =>
              have same : ∀ kind, outputs.candidates? kind site = others.candidates? kind site := by
                intro kind
                simpa [fromLeft, fromRight] using looked kind
              exact List.foldl_ext _ _ _ fun _ kind _ => linkFact_congr (same kind)

end Progress

section

variable {tree : SyntaxTree} {config : LinkConfig} {graph : FeatureGraph}

theorem linkDataflow_congr {left right : Analysis}
    (agree : ∀ site classId method, tree.Processes site classId method →
      left.AgreeAt right site classId method) :
    linkDataflow tree left config graph = linkDataflow tree right config graph := by
  unfold linkDataflow
  cases rooted : tree.root with
  | none => rfl
  | some root =>
      have linked : (tree.sites root).foldl (Progress.linkSite config left) (.start graph) =
          (tree.sites root).foldl (Progress.linkSite config right) (.start graph) := by
        apply List.foldl_ext
        intro progress visit visited
        obtain ⟨site, scope⟩ := visit
        apply Progress.linkSite_congr
        intro classId method enclosed
        exact agree site classId method (.intro (.intro rooted visited) enclosed)
      simp only [linked]

/-- Altering what is recorded of one element can only be noticed at that element. -/
theorem insert_agreeAt {analysis : Analysis} {outputs altered : MethodFacts}
    {point site classId method otherClass otherMethod : TreeId}
    (elsewhere : ∀ kind other, other ≠ point →
      altered.candidates? kind other = outputs.candidates? kind other)
    (apart : site = point → ¬ (classId = otherClass ∧ method = otherMethod)) :
    (analysis.insert classId method altered).AgreeAt (analysis.insert classId method outputs) site
      otherClass otherMethod := by
  intro kind
  rw [Analysis.get?_insert, Analysis.get?_insert]
  by_cases same : classId = otherClass ∧ method = otherMethod
  · have other : site ≠ point := fun isPoint => apart isPoint same
    rw [if_pos same, if_pos same, Option.map_some, Option.map_some, elsewhere kind site other]
  · rw [if_neg same, if_neg same]

end

/-- The dataflow pass leaves the same graph, counters and events for two analyses that agree on the
method around each site and on what it records about the site.  So a fact about an element has no
effect where the pass does not come upon this element as a site in the method of the fact. -/
theorem facts_consulted_at_sites (tree : SyntaxTree) (config : LinkConfig) (graph : FeatureGraph) :
    (∀ left right : Analysis,
      (∀ site classId method, tree.Processes site classId method →
        left.AgreeAt right site classId method) →
      linkDataflow tree left config graph = linkDataflow tree right config graph) ∧
    ∀ (analysis : Analysis) (classId method point : TreeId) (outputs altered : MethodFacts),
      ¬ tree.Processes point classId method →
      (∀ kind other, other ≠ point →
        altered.candidates? kind other = outputs.candidates? kind other) →
      linkDataflow tree (analysis.insert classId method altered) config graph =
        linkDataflow tree (analysis.insert classId method outputs) config graph := by
  constructor
  · intro left right agree
    exact linkDataflow_congr agree
  · intro analysis classId method point outputs altered unprocessed elsewhere
    apply linkDataflow_congr
    intro site otherClass otherMethod processed
    apply insert_agreeAt elsewhere
    rintro rfl ⟨rfl, rfl⟩
    exact unprocessed processed

/-- The only site of the unit stands in its only method. -/
theorem processes_echo {site classId method : TreeId}
    (processed : Bundle.echo.tree.Processes site classId method) :
    site = ⟨4⟩ ∧ classId = ⟨1⟩ ∧ method = ⟨2⟩ := by
  obtain ⟨⟨rooted, visited⟩, enclosed⟩ := processed
  cases rooted
  have sites : Bundle.echo.tree.sites ⟨0⟩ = [(⟨4⟩, ⟨some ⟨1⟩, some ⟨2⟩⟩)] := by cbv
  rw [sites, List.mem_singleton] at visited
  cases visited
  cases enclosed
  exact ⟨rfl, rfl, rfl⟩

/-- The pass links the site of the unit, and does so alike if the facts are recorded for another
method as well, or if the method has one about its return statement. -/
theorem echo_facts_consulted :
    let outputs : MethodFacts := ⟨(∅ : FactMap).insert ⟨4⟩ ((∅ : CandidateSet).insert ⟨4⟩), ∅⟩
    let altered : MethodFacts := ⟨outputs.lastWrites.insert ⟨3⟩ ((∅ : CandidateSet).insert ⟨4⟩), ∅⟩
    let stray := Bundle.echo.analysis.insert ⟨1⟩ ⟨3⟩ outputs
    let run := fun analysis => linkDataflow Bundle.echo.tree analysis {} Bundle.echo.graph
    ((∀ site classId method, Bundle.echo.tree.Processes site classId method →
        Bundle.echo.analysis.AgreeAt stray site classId method) ∧
      run Bundle.echo.analysis = run stray) ∧
    (¬ Bundle.echo.tree.Processes ⟨3⟩ ⟨1⟩ ⟨2⟩ ∧
      (∀ kind other, other ≠ ⟨3⟩ →
        altered.candidates? kind other = outputs.candidates? kind other) ∧
      run (Analysis.empty.insert ⟨1⟩ ⟨2⟩ altered) = run (Analysis.empty.insert ⟨1⟩ ⟨2⟩ outputs)) ∧
    (run Bundle.echo.analysis).graph.hasEdge ⟨⟨7⟩, ⟨7⟩, .lastWrite⟩ = true := by
  intro outputs altered stray run
  have agree : ∀ site classId method, Bundle.echo.tree.Processes site classId method →
      Bundle.echo.analysis.AgreeAt stray site classId method := by
    intro site classId method processed kind
    obtain ⟨rfl, rfl, rfl⟩ := processes_echo processed
    rw [Analysis.get?_insert]
    rfl
  have unprocessed : ¬ Bundle.echo.tree.Processes ⟨3⟩ ⟨1⟩ ⟨2⟩ := by
    intro processed
    obtain ⟨site, _, _⟩ := processes_echo processed
    exact absurd site (by decide)
  have elsewhere : ∀ kind other, other ≠ ⟨3⟩ →
      altered.candidates? kind other = outputs.candidates? kind other := by
    intro kind other apart
    cases kind with
    | lastWrite =>
        change (outputs.lastWrites.insert ⟨3⟩ _)[other]? = outputs.lastWrites[other]?
        rw [ExtTreeMap.getElem?_insert, if_neg]
        rw [Std.compare_eq_iff_eq]
        exact Ne.symm apart
    | lastUse => rfl
  obtain ⟨alike, unnoticed⟩ := facts_consulted_at_sites Bundle.echo.tree {} Bundle.echo.graph
  exact ⟨⟨agree, alike _ _ agree⟩,
    ⟨unprocessed, elsewhere, unnoticed _ _ _ _ _ _ unprocessed elsewhere⟩, by cbv⟩

end FlowLink
