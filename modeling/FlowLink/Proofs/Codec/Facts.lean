import FlowLink.Codec.Facts
import FlowLink.Proofs.Codec.Tree

namespace FlowLink

open Std Dialect Json

/-! # Analyses are decoded from whatever presents them -/

variable {dialect : Dialect} {levels : Nat} {value : Datum}

namespace FactMap

structure IdsFit (facts : FactMap) : Prop where
  points : ∀ entry ∈ facts.toList, entry.1.Fits
  candidates : ∀ entry ∈ facts.toList, TreeId.AllFit entry.2.toList

instance (facts : FactMap) : Decidable facts.IdsFit :=
  decidable_of_iff ((∀ entry ∈ facts.toList, entry.1.Fits) ∧
      ∀ entry ∈ facts.toList, TreeId.AllFit entry.2.toList)
    ⟨fun fits => ⟨fits.1, fits.2⟩, fun fits => ⟨fits.points, fits.candidates⟩⟩

variable {facts : FactMap}

/-- What a map of facts may be presented as. -/
def Presents (facts : FactMap) : Datum → Prop :=
  TableOf TreeId.index (fun _ candidates value => value = encodeCandidates candidates) facts.toList

theorem encode_faithful {order : FieldOrder} (fits : facts.IdsFit) :
    Faithful (levels + 2) (encode facts order) :=
  faithful_entries fits.points fun entry member =>
    TreeId.encodeList_faithful (fits.candidates entry member)

theorem presents_encode (facts : FactMap) (order : FieldOrder) :
    Presents facts (encode facts order) :=
  tableOf_encoded _ order facts.toList

theorem decode?_presented (standard : dialect.Standard) (fits : facts.IdsFit)
    (presents : Presents facts value) : decode? dialect value = some facts :=
  mapOf_presented presents (fun _ => rfl) fits.points fun entry member =>
    decode_of_eq (setOf_encode fun candidate named =>
      TreeId.decode?_encode standard (fits.candidates entry member candidate named))

end FactMap

namespace MethodFacts

structure IdsFit (outputs : MethodFacts) : Prop where
  lastWrites : FactMap.IdsFit outputs.lastWrites
  lastUses : FactMap.IdsFit outputs.lastUses

instance (outputs : MethodFacts) : Decidable outputs.IdsFit :=
  decidable_of_iff (FactMap.IdsFit outputs.lastWrites ∧ FactMap.IdsFit outputs.lastUses)
    ⟨fun fits => ⟨fits.1, fits.2⟩, fun fits => ⟨fits.lastWrites, fits.lastUses⟩⟩

def parts (outputs : MethodFacts) : List Part :=
  [⟨"last_writes", FactMap.Presents outputs.lastWrites, outputs.lastWrites = ∅⟩,
    ⟨"last_uses", FactMap.Presents outputs.lastUses, outputs.lastUses = ∅⟩]

def Presents (outputs : MethodFacts) : Datum → Prop := RecordOf outputs.parts fun _ => True

variable {outputs : MethodFacts}

theorem encode_faithful {orders : FactKind → FieldOrder} (fits : outputs.IdsFit) :
    Faithful (levels + 3) (outputs.encode orders) := by
  apply faithful_record ["last_writes", "last_uses"] rfl (by decide)
  simp [FactMap.encode_faithful fits.lastWrites, FactMap.encode_faithful fits.lastUses]

theorem presents_encode (outputs : MethodFacts) (orders : FactKind → FieldOrder) :
    outputs.Presents (outputs.encode orders) :=
  recordOf_record (.cons ⟨rfl, FactMap.presents_encode _ _⟩
    (.cons ⟨rfl, FactMap.presents_encode _ _⟩ .nil))

theorem decode?_presented (standard : dialect.Standard) (fits : outputs.IdsFit)
    (presents : outputs.Presents value) : decode? dialect value = some outputs := by
  obtain ⟨values, fields, all⟩ := presents.all_fields_take dialect (by simp [parts])
  obtain ⟨lastWrites?, lastUses?, rfl, lastWrites, lastUses⟩ := takes_two all
  have fields : dialect.fields ["last_writes", "last_uses"] value =
      some [lastWrites?, lastUses?] := fields
  have lastWrites := defaulted_of_takes lastWrites (fun absent => absent) fun _ =>
    FactMap.decode?_presented standard fits.lastWrites
  have lastUses := defaulted_of_takes lastUses (fun absent => absent) fun _ =>
    FactMap.decode?_presented standard fits.lastUses
  simp [decode?, fields, lastWrites, lastUses]

end MethodFacts

namespace Analysis

structure IdsFit (analysis : Analysis) : Prop where
  classes : ∀ entry ∈ analysis.classes.toList, entry.1.Fits
  methods : ∀ entry ∈ analysis.classes.toList, ∀ method ∈ entry.2.toList, method.1.Fits
  facts : ∀ entry ∈ analysis.classes.toList, ∀ method ∈ entry.2.toList, method.2.IdsFit

instance (analysis : Analysis) : Decidable analysis.IdsFit :=
  decidable_of_iff ((∀ entry ∈ analysis.classes.toList, entry.1.Fits) ∧
      (∀ entry ∈ analysis.classes.toList, ∀ method ∈ entry.2.toList, method.1.Fits) ∧
      ∀ entry ∈ analysis.classes.toList, ∀ method ∈ entry.2.toList, method.2.IdsFit)
    ⟨fun fits => ⟨fits.1, fits.2.1, fits.2.2⟩,
      fun fits => ⟨fits.classes, fits.methods, fits.facts⟩⟩

/-- What an analysis may be presented as: tables of classes and methods, in which the facts of
every method are a record. -/
def Presents (analysis : Analysis) : Datum → Prop :=
  TableOf TreeId.index
    (fun _ methods => TableOf TreeId.index (fun _ => MethodFacts.Presents)
      (ExtTreeMap.toList methods))
    analysis.classes.toList

variable {analysis : Analysis}

theorem encode_faithful {orders : Orders} (fits : analysis.IdsFit) :
    Faithful (levels + 5) (analysis.encode orders) :=
  faithful_entries fits.classes fun entry member =>
    faithful_entries (fits.methods entry member) fun method declared =>
      MethodFacts.encode_faithful (fits.facts entry member method declared)

theorem presents_encode (analysis : Analysis) (orders : Orders) :
    analysis.Presents (analysis.encode orders) := by
  apply tableOf_table
  intro classId methods
  apply tableOf_table
  intro method outputs
  exact outputs.presents_encode _

theorem decode?_presented (standard : dialect.Standard) (fits : analysis.IdsFit)
    (presents : analysis.Presents value) : decode? dialect value = some analysis := by
  have classes : dialect.mapOf TreeId.mk (dialect.mapOf TreeId.mk (MethodFacts.decode? dialect))
      value = some analysis.classes :=
    mapOf_presented presents (fun _ => rfl) fits.classes fun entry member _ table =>
      mapOf_presented table (fun _ => rfl) (fits.methods entry member) fun method declared _ =>
        MethodFacts.decode?_presented standard (fits.facts entry member method declared)
  rw [decode?, classes]
  rfl

theorem decode?_encode (standard : dialect.Standard) (fits : analysis.IdsFit) (orders : Orders) :
    decode? dialect (analysis.encode orders) = some analysis :=
  decode?_presented standard fits (analysis.presents_encode orders)

end Analysis

end FlowLink
