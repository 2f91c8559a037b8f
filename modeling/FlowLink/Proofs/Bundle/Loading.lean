import FlowLink.Proofs.Bundle.Storage
import FlowLink.Proofs.Codec.Bounds
import FlowLink.Proofs.Link.Growth

namespace FlowLink

open Std Dialect

/-! # Loaded bundles are linked and saved

A bundle that was loaded is valid, and its ids are numbers of 64 bits, since no document has any
others.  Linking keeps both: it only puts edges, and those that find their place lie between nodes.
So the linked bundle can be saved and loaded in turn.
-/

/-! ## Ids of linked graphs -/

namespace FeatureGraph

variable {graph : FeatureGraph} {id : NodeId}

/-- The ids of an intact graph are those stored with its nodes. -/
theorem Intact.fits_of_hasNode (intact : graph.Intact) (fits : graph.IdsFit)
    (present : graph.hasNode id = true) : id.Fits := by
  have inside : id.index < graph.nodes.size := of_decide_eq_true present
  have stored : graph.nodes[id.index]? = some graph.nodes[id.index] :=
    Array.getElem?_eq_getElem inside
  have placed : graph.nodes[id.index].id.index = id.index := intact.placed _ _ stored
  have small : graph.nodes[id.index].id.Fits := fits.nodes _ (by simp)
  rwa [NodeId.Fits, placed] at small

theorem idsFit_putEdges (intact : graph.Intact) (fits : graph.IdsFit) (edges : List Edge) :
    (graph.putEdges edges).IdsFit := by
  have ends : ∀ edge, graph.hasEnds edge = true → edge.source.Fits ∧ edge.target.Fits := by
    intro edge tied
    rw [hasEnds, Bool.and_eq_true] at tied
    exact ⟨intact.fits_of_hasNode fits tied.1, intact.fits_of_hasNode fits tied.2⟩
  refine ⟨?_, ?_, ?_, ?_, ?_⟩
  · simpa using fits.nodes
  · simpa using fits.elements
  · simpa using fits.elementNodes
  · intro entry listed
    obtain ⟨source, links⟩ := entry
    have member : source ∈ (graph.putEdges edges).adjacency := by
      rw [ExtTreeMap.mem_toList_iff_getElem?_eq_some] at listed
      rw [ExtTreeMap.mem_iff_isSome_getElem?, listed, Option.isSome_some]
    rcases (mem_adjacency_putEdges edges).mp member with old | ⟨edge, _, rfl, tied⟩
    · have listedBefore : (source, graph.adjacency[source]) ∈ graph.adjacency.toList := by
        rw [ExtTreeMap.mem_toList_iff_getElem?_eq_some, ExtTreeMap.getElem?_eq_some_getElem old]
      exact fits.sources (source, graph.adjacency[source]) listedBefore
    · exact (ends edge tied).1
  · intro entry listed link linked
    have present : (graph.putEdges edges).hasEdge ⟨entry.1, link.target, link.kind⟩ = true := by
      rw [hasEdge_iff_mem_links, links_of_listed listed]
      exact ExtTreeSet.mem_toList.mp linked
    have tied : graph.hasEnds ⟨entry.1, link.target, link.kind⟩ = true := by
      rcases (hasEdge_putEdges edges).mp present with old | ⟨_, tied⟩
      · exact intact.tied _ old
      · exact tied
    exact (ends _ tied).2

end FeatureGraph

section

variable {tree : SyntaxTree} {analysis : Analysis} {config : LinkConfig} {graph : FeatureGraph}
  {pass : Pass} {run : FeatureGraph → Progress} {before : Progress}

theorem Progress.runPass_putsEdges
    (puts : ∀ graph, ∃ edges, (run graph).graph = graph.putEdges edges)
    (earlier : ∃ edges, before.graph = graph.putEdges edges) :
    ∃ edges, (before.runPass config pass run).graph = graph.putEdges edges := by
  obtain ⟨first, done⟩ := earlier
  obtain ⟨second, added⟩ := puts before.graph
  unfold runPass
  split
  · refine ⟨first ++ second, ?_⟩
    rw [FeatureGraph.putEdges_append, ← done, ← added]
  · exact ⟨first, done⟩

theorem linkUnit_putsEdges :
    ∃ edges, (linkUnit tree analysis config graph).graph = graph.putEdges edges := by
  apply Progress.runPass_putsEdges ?_ (Progress.runPass_putsEdges ?_ ⟨[], rfl⟩)
  · intro graph
    obtain ⟨_, performs⟩ := linkReturns_performs tree config graph
    exact ⟨_, performs.graph_eq (.refl graph)⟩
  · intro graph
    obtain ⟨_, performs⟩ := linkDataflow_performs tree analysis config graph
    exact ⟨_, performs.graph_eq (.refl graph)⟩

end

/-! ## Loaded bundles -/

namespace Bundle

variable {dialect : Dialect} {bundle : Bundle} {path : Path} {text : String} {reading : Reading}
  {warnings : List Event} {config : LinkConfig} {orders : Orders}
  {readYaml : String → Option Datum}

theorem decode?_gives (bounded : dialect.Bounded) : Gives (decode? dialect) IdsFit := by
  intro value bundle decoded
  simp only [decode?, bind, pure, Option.bind_eq_some_iff] at decoded
  obtain ⟨parts, _, decoded⟩ := decoded
  split at decoded
  next tree graph analysis =>
    simp only [Option.bind_eq_some_iff, Option.some.injEq] at decoded
    obtain ⟨tree, readTree, graph, readGraph, analysis, readAnalysis, rfl⟩ := decoded
    have empty : Analysis.empty.IdsFit := by decide
    exact
      { tree := required_gives (SyntaxTree.decode?_gives bounded) readTree
        graph := required_gives (FeatureGraph.decode?_gives bounded) readGraph
        analysis := defaulted_gives (Analysis.decode?_gives bounded) empty readAnalysis }
  next => contradiction

/-- Whatever the reader of YAML is, ids are decoded from what it gives. -/
theorem idsFit_of_ofText? (spelled : ofText? path text readYaml = some bundle) :
    bundle.IdsFit := by
  unfold ofText? at spelled
  split at spelled
  · obtain ⟨value, _, decoded⟩ := Option.bind_eq_some_iff.mp spelled
    exact decode?_gives yaml_bounded value bundle decoded
  · obtain ⟨value, _, decoded⟩ := Option.bind_eq_some_iff.mp spelled
    exact decode?_gives json_bounded value bundle decoded

theorem ofText?_toJson (json : isYaml path = false) (fits : bundle.IdsFit) :
    ofText? path (bundle.toJson orders) readYaml = some bundle := by
  rw [ofText?, json, if_neg Bool.false_ne_true, ofJson?_toJson fits]

theorem load_eq_ok_iff :
    load path reading readYaml = .ok (bundle, warnings) ↔
      ∃ text, reading = .ok text ∧ ofText? path text readYaml = some bundle ∧
        bundle.validate = .ok warnings := by
  cases reading with
  | error fault => simp [load]
  | ok text =>
      cases spelled : ofText? path text readYaml with
      | none => simp [load, spelled]
      | some found =>
          simp only [load, spelled, Except.ok.injEq, exists_eq_left', Option.some.injEq]
          constructor
          · intro loaded
            cases valid : found.validate with
            | error defect => simp [valid] at loaded
            | ok warned =>
                simp only [valid, Except.ok.injEq, Prod.mk.injEq] at loaded
                obtain ⟨rfl, rfl⟩ := loaded
                exact ⟨rfl, valid⟩
          · intro holds
            obtain ⟨rfl, valid⟩ := holds
            rw [valid]

theorem load_toJson (json : isYaml path = false) (fits : bundle.IdsFit)
    (valid : bundle.validate = .ok warnings) :
    load path (.ok (bundle.toJson orders)) readYaml = .ok (bundle, warnings) :=
  load_eq_ok_iff.mpr ⟨_, rfl, ofText?_toJson json fits, valid⟩

theorem link_idsFit (fits : bundle.IdsFit) (valid : bundle.validate = .ok warnings) :
    (bundle.link config).1.IdsFit := by
  obtain ⟨flawless, _⟩ := validate_eq_ok_iff.mp valid
  obtain ⟨_, intact, _⟩ := defect?_eq_none_iff.mp flawless
  obtain ⟨edges, linked⟩ : ∃ edges, (bundle.link config).1.graph = bundle.graph.putEdges edges :=
    linkUnit_putsEdges
  have graph : (bundle.link config).1.graph.IdsFit := by
    rw [linked]
    exact FeatureGraph.idsFit_putEdges intact fits.graph edges
  exact ⟨fits.tree, graph, fits.analysis⟩

theorem link_validate (valid : bundle.validate = .ok warnings) :
    (bundle.link config).1.validate = .ok warnings :=
  validate_of_enriches (linkUnit_enriches bundle.tree bundle.analysis config bundle.graph) valid

/-- What linking makes of a loaded bundle is loaded again from where it is saved. -/
theorem load_linked {unit output : Path} {files after : Files}
    {readYamlAgain : String → Option Datum}
    (loaded : load unit (files.read unit) readYaml = .ok (bundle, warnings))
    (json : isYaml output = false)
    (written : files.write? output ((bundle.link config).1.toJson orders) = some after) :
    load output (after.read output) readYamlAgain = .ok ((bundle.link config).1, warnings) := by
  obtain ⟨text, _, spelled, valid⟩ := load_eq_ok_iff.mp loaded
  have fits : (bundle.link config).1.IdsFit := link_idsFit (idsFit_of_ofText? spelled) valid
  rw [Files.read_of_write? written]
  exact load_toJson json fits (link_validate valid)

end Bundle

end FlowLink
