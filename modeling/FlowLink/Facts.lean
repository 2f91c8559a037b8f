import Std.Data.ExtTreeMap
import FlowLink.Tree.Basic

/-! # Dataflow facts

An analysis names, for a method of a class, the elements from which data may have reached a
program point.  Methods it says nothing about are not analysed, which differs from a method
analysed without facts.
-/

namespace FlowLink

open Std

/-- The elements that a fact points back to.  An empty set means that the analysis established
nothing, several members that it could not tell them apart. -/
abbrev CandidateSet := ExtTreeSet TreeId

abbrev FactMap := ExtTreeMap TreeId CandidateSet

inductive FactKind where
  | lastWrite
  | lastUse
deriving DecidableEq

def FactKind.all : List FactKind := [lastWrite, lastUse]

structure MethodFacts where
  lastWrites : FactMap
  lastUses : FactMap

namespace MethodFacts

def empty : MethodFacts := ⟨∅, ∅⟩

def facts (outputs : MethodFacts) : FactKind → FactMap
  | .lastWrite => outputs.lastWrites
  | .lastUse => outputs.lastUses

def candidates? (outputs : MethodFacts) (kind : FactKind) (point : TreeId) : Option CandidateSet :=
  (outputs.facts kind)[point]?

end MethodFacts

/-- The facts of a compilation unit by class and method. -/
structure Analysis where
  classes : ExtTreeMap TreeId (ExtTreeMap TreeId MethodFacts)

namespace Analysis

def empty : Analysis := ⟨∅⟩

/-- The methods of a class that are analysed. -/
def methods (analysis : Analysis) (classId : TreeId) : ExtTreeMap TreeId MethodFacts :=
  analysis.classes[classId]?.getD ∅

def get? (analysis : Analysis) (classId method : TreeId) : Option MethodFacts :=
  (analysis.methods classId)[method]?

/-- Records the facts of a method in place of any earlier ones. -/
def insert (analysis : Analysis) (classId method : TreeId) (outputs : MethodFacts) : Analysis :=
  ⟨analysis.classes.insert classId ((analysis.methods classId).insert method outputs)⟩

def size (analysis : Analysis) : Nat :=
  analysis.classes.foldl (fun count _ methods => count + methods.size) 0

def isEmpty (analysis : Analysis) : Bool := analysis.size = 0

end Analysis

/-- The ids that a fact map mentions: its program points and their candidates. -/
def FactMap.mentioned (facts : FactMap) : List TreeId :=
  facts.toList.flatMap fun (point, candidates) => point :: candidates.toList

/-- The ids that an analysis mentions as class, method, program point or candidate. -/
def Analysis.mentioned (analysis : Analysis) : ExtTreeSet TreeId :=
  .ofList (analysis.classes.toList.flatMap fun (classId, methods) =>
    classId :: methods.toList.flatMap fun (method, outputs) =>
      method :: FactKind.all.flatMap fun kind => FactMap.mentioned (outputs.facts kind))

end FlowLink
