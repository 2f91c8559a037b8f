import FlowLink.Codec.Tree
import FlowLink.Facts

/-! # Analyses as documents -/

namespace FlowLink

open Std Dialect

namespace FactMap

def encodeCandidates (candidates : CandidateSet) : Datum := TreeId.encodeList candidates.toList

def encode (facts : FactMap) (order : FieldOrder := .ascending) : Datum :=
  order.table TreeId.index (fun _ => encodeCandidates) facts.toList

def decode? (dialect : Dialect) (value : Datum) : Option FactMap :=
  dialect.mapOf TreeId.mk (dialect.setOf (TreeId.decode? dialect)) value

end FactMap

namespace MethodFacts

def encode (outputs : MethodFacts) (orders : FactKind → FieldOrder := fun _ => .ascending) :
    Datum :=
  .record [("last_writes", FactMap.encode outputs.lastWrites (orders .lastWrite)),
    ("last_uses", FactMap.encode outputs.lastUses (orders .lastUse))]

def decode? (dialect : Dialect) (value : Datum) : Option MethodFacts := do
  match ← dialect.fields ["last_writes", "last_uses"] value with
  | [lastWrites, lastUses] =>
    return ⟨← defaulted ∅ (FactMap.decode? dialect) lastWrites,
      ← defaulted ∅ (FactMap.decode? dialect) lastUses⟩
  | _ => none

end MethodFacts

namespace Analysis

/-- The orders of the maps in an analysis. -/
structure Orders where
  classes : FieldOrder := .ascending
  methods : TreeId → FieldOrder := fun _ => .ascending
  facts : TreeId → TreeId → FactKind → FieldOrder := fun _ _ _ => .ascending

def encodeMethods (orders : Orders) (classId : TreeId)
    (methods : ExtTreeMap TreeId MethodFacts) : Datum :=
  (orders.methods classId).table TreeId.index
    (fun method outputs => outputs.encode (orders.facts classId method)) methods.toList

def encode (analysis : Analysis) (orders : Orders := {}) : Datum :=
  orders.classes.table TreeId.index (encodeMethods orders) analysis.classes.toList

def decode? (dialect : Dialect) (value : Datum) : Option Analysis :=
  (dialect.mapOf TreeId.mk (dialect.mapOf TreeId.mk (MethodFacts.decode? dialect)) value).map
    Analysis.mk

end Analysis

end FlowLink
