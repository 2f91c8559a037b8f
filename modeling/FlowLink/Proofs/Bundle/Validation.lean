import FlowLink.Bundle.Basic
import FlowLink.Proofs.Graph.Validation

namespace FlowLink.Bundle

/-! # Valid bundles -/

variable {bundle : Bundle} {tree : SyntaxTree} {analysis : Analysis} {before after : FeatureGraph}
  {warnings : List Event}

theorem defect?_eq_none_iff :
    bundle.defect? = none ↔
      bundle.tree.defect? = none ∧ bundle.graph.Intact ∧ bundle.tree.root.isSome = true := by
  have rooted : (if bundle.tree.root.isNone then some Defect.rootless else none) = none ↔
      bundle.tree.root.isSome = true := by
    cases bundle.tree.root <;> simp
  rw [defect?, Option.or_eq_none_iff, Option.or_eq_none_iff, Option.map_eq_none_iff,
    Option.map_eq_none_iff, FeatureGraph.defect?_eq_none_iff, rooted, and_assoc]

theorem validate_eq_ok_iff :
    bundle.validate = .ok warnings ↔ bundle.defect? = none ∧ bundle.warnings = warnings := by
  unfold validate
  cases bundle.defect? with
  | some defect => simp
  | none => simp

/-- Adding edges as linking does keeps a bundle valid, with the same warnings. -/
theorem validate_of_enriches (enriches : after.Enriches before)
    (valid : validate ⟨tree, before, analysis⟩ = .ok warnings) :
    validate ⟨tree, after, analysis⟩ = .ok warnings := by
  obtain ⟨flawless, warned⟩ := validate_eq_ok_iff.mp valid
  obtain ⟨sound, intact, rooted⟩ := defect?_eq_none_iff.mp flawless
  exact validate_eq_ok_iff.mpr
    ⟨defect?_eq_none_iff.mpr ⟨sound, enriches.intact intact, rooted⟩, warned⟩

end FlowLink.Bundle
