import FlowLink.Tree.Basic

/-! # Scopes -/

namespace FlowLink

structure Scope where
  classId : Option TreeId := none
  method : Option TreeId := none
deriving DecidableEq, Inhabited

namespace Scope

/-- Entering a class leaves the method around it: members of a nested class and the initial values
of its fields are not part of the outer method's body. -/
def enterClass (_scope : Scope) (classId : TreeId) : Scope := ⟨some classId, none⟩

def enterMethod (scope : Scope) (method : TreeId) : Scope := { scope with method := some method }

def enclosing (scope : Scope) : Option (TreeId × TreeId) :=
  match scope.classId, scope.method with
  | some classId, some method => some (classId, method)
  | _, _ => none

/-- The scope of the parts of an element that stands in `scope`. -/
def enter (scope : Scope) (id : TreeId) : Shape → Scope
  | .classDecl .. => scope.enterClass id
  | .methodDecl .. => scope.enterMethod id
  | _ => scope

end Scope

end FlowLink
