import FlowLink.Document.Decoding
import FlowLink.Tree.Basic

/-! # Trees as documents

An element is one table with its id, its kind, and the fields of that kind, in any order.  Because
the fields depend on the kind, they are taken up first and interpreted afterwards, by the rules of
`Dialect.neutral`.
-/

namespace FlowLink

open Dialect

namespace TreeId

def encode (id : TreeId) : Datum := .natural id.index

def encodeOption (id : Option TreeId) : Datum := .orNull (id.map encode)

def encodeList (ids : List TreeId) : Datum := .list (ids.map encode)

def decode? (dialect : Dialect) (value : Datum) : Option TreeId :=
  (dialect.index value).map TreeId.mk

end TreeId

namespace Shape

def kind : Shape → String
  | compilationUnit _ => "CompilationUnit"
  | classDecl .. => "Class"
  | methodDecl .. => "Method"
  | variableDecl .. => "Variable"
  | block _ => "Block"
  | expressionStatement _ => "ExpressionStatement"
  | returnStatement _ => "Return"
  | conditional .. => "If"
  | whileLoop .. => "While"
  | assignment .. => "Assignment"
  | binary .. => "Binary"
  | unary .. => "Unary"
  | methodCall .. => "MethodCall"
  | fieldAccess .. => "FieldAccess"
  | lambda .. => "Lambda"
  | identifier _ => "Identifier"
  | literal _ => "Literal"
  | other .. => "Other"

/-- The fields of an element beside its id and its kind. -/
def fields : Shape → List (String × Datum)
  | compilationUnit types => [("types", TreeId.encodeList types)]
  | classDecl name members => [("name", .text name), ("members", TreeId.encodeList members)]
  | methodDecl name params body =>
    [("name", .text name), ("params", TreeId.encodeList params),
      ("body", TreeId.encodeOption body)]
  | variableDecl name initial =>
    [("name", .text name), ("initializer", TreeId.encodeOption initial)]
  | block statements => [("statements", TreeId.encodeList statements)]
  | expressionStatement expression => [("expression", expression.encode)]
  | returnStatement expression => [("expression", TreeId.encodeOption expression)]
  | conditional condition thenBranch elseBranch =>
    [("condition", condition.encode), ("then_branch", thenBranch.encode),
      ("else_branch", TreeId.encodeOption elseBranch)]
  | whileLoop condition body => [("condition", condition.encode), ("body", body.encode)]
  | assignment target value => [("target", target.encode), ("value", value.encode)]
  | binary operator left right =>
    [("operator", .text operator), ("left", left.encode), ("right", right.encode)]
  | unary operator operand => [("operator", .text operator), ("operand", operand.encode)]
  | methodCall receiver name arguments =>
    [("receiver", TreeId.encodeOption receiver), ("name", .text name),
      ("arguments", TreeId.encodeList arguments)]
  | fieldAccess target name => [("target", target.encode), ("name", .text name)]
  | lambda params body => [("params", TreeId.encodeList params), ("body", body.encode)]
  | identifier name => [("name", .text name)]
  | literal value => [("value", .text value)]
  | other label children => [("label", .text label), ("children", TreeId.encodeList children)]

end Shape

/-- The fields of a kind of element, and how to build an element from their values. -/
structure ShapeForm where
  kind : String
  fields : List String
  build : List (Option Datum) → Option Shape

namespace ShapeForm

def name (value : Option Datum) : Option String := required neutral.text value

def part (value : Option Datum) : Option TreeId := required (TreeId.decode? neutral) value

def part? (value : Option Datum) : Option (Option TreeId) :=
  defaulted none (nullable (TreeId.decode? neutral)) value

def parts (value : Option Datum) : Option (List TreeId) :=
  defaulted [] (neutral.listOf (TreeId.decode? neutral)) value

/-- All kinds of elements, in the order of their numbers. -/
def all : List ShapeForm :=
  [⟨"CompilationUnit", ["types"], fun
      | [types] => return .compilationUnit (← parts types)
      | _ => none⟩,
    ⟨"Class", ["name", "members"], fun
      | [label, members] => return .classDecl (← name label) (← parts members)
      | _ => none⟩,
    ⟨"Method", ["name", "params", "body"], fun
      | [label, params, body] =>
        return .methodDecl (← name label) (← parts params) (← part? body)
      | _ => none⟩,
    ⟨"Variable", ["name", "initializer"], fun
      | [label, initial] => return .variableDecl (← name label) (← part? initial)
      | _ => none⟩,
    ⟨"Block", ["statements"], fun
      | [statements] => return .block (← parts statements)
      | _ => none⟩,
    ⟨"ExpressionStatement", ["expression"], fun
      | [expression] => return .expressionStatement (← part expression)
      | _ => none⟩,
    ⟨"Return", ["expression"], fun
      | [expression] => return .returnStatement (← part? expression)
      | _ => none⟩,
    ⟨"If", ["condition", "then_branch", "else_branch"], fun
      | [condition, thenBranch, elseBranch] =>
        return .conditional (← part condition) (← part thenBranch) (← part? elseBranch)
      | _ => none⟩,
    ⟨"While", ["condition", "body"], fun
      | [condition, body] => return .whileLoop (← part condition) (← part body)
      | _ => none⟩,
    ⟨"Assignment", ["target", "value"], fun
      | [target, value] => return .assignment (← part target) (← part value)
      | _ => none⟩,
    ⟨"Binary", ["operator", "left", "right"], fun
      | [operator, left, right] =>
        return .binary (← name operator) (← part left) (← part right)
      | _ => none⟩,
    ⟨"Unary", ["operator", "operand"], fun
      | [operator, operand] => return .unary (← name operator) (← part operand)
      | _ => none⟩,
    ⟨"MethodCall", ["receiver", "name", "arguments"], fun
      | [receiver, label, arguments] =>
        return .methodCall (← part? receiver) (← name label) (← parts arguments)
      | _ => none⟩,
    ⟨"FieldAccess", ["target", "name"], fun
      | [target, label] => return .fieldAccess (← part target) (← name label)
      | _ => none⟩,
    ⟨"Lambda", ["params", "body"], fun
      | [params, body] => return .lambda (← parts params) (← part body)
      | _ => none⟩,
    ⟨"Identifier", ["name"], fun
      | [label] => return .identifier (← name label)
      | _ => none⟩,
    ⟨"Literal", ["value"], fun
      | [value] => return .literal (← name value)
      | _ => none⟩,
    ⟨"Other", ["label", "children"], fun
      | [label, children] => return .other (← name label) (← parts children)
      | _ => none⟩]

def named? (kind : String) : Option ShapeForm := all.find? fun form => form.kind = kind

/-- The kind that an element names, by its name or its number. -/
def ofTag? : Datum → Option ShapeForm
  | .scalar ⟨text, .text⟩ => named? text
  | .scalar ⟨_, .natural number⟩ => all[number]?
  | _ => none

def read? (form : ShapeForm) (fields : Datum) : Option Shape :=
  (neutral.fields form.fields fields).bind form.build

end ShapeForm

namespace Shape

def encode (shape : Shape) : Datum := .record (("kind", .text shape.kind) :: shape.fields)

/-- The kind of an element without an id, and where its fields are: a table holds them all, a list
has the kind first and then the fields in order. -/
def tagAndFields? : Datum → Option (Datum × Datum)
  | .list (tag :: fields) => some (tag, .list fields)
  | .table fields =>
    match fieldOf fields "kind" with
    | some (some tag) => some (tag, .table fields)
    | _ => none
  | _ => none

def decode? (value : Datum) : Option Shape := do
  let (tag, fields) ← tagAndFields? value
  let form ← ShapeForm.named? (← json.text tag)
  form.read? fields

end Shape

namespace Element

def encode (element : Element) : Datum :=
  .record (("id", element.id.encode) :: ("kind", .text element.shape.kind) :: element.shape.fields)

/-- All fields but the id can be taken up before their types are known. -/
def isTakable (fields : List (Scalar × Datum)) : Bool :=
  fields.all fun (name, value) => name.text = "id" || value.allScalars Dialect.isTakable

def decode? (dialect : Dialect) (value : Datum) : Option Element :=
  match value with
  | .table fields => do
    match ← dialect.fields ["id", "kind"] value with
    | [id, some tag] =>
      guard (isTakable fields)
      let form ← ShapeForm.ofTag? tag
      return ⟨← required (TreeId.decode? dialect) id, ← form.read? value⟩
    | _ => none
  | _ => none

end Element

namespace SyntaxTree

def encode (tree : SyntaxTree) : Datum :=
  .record [("nodes", .list (tree.elements.toList.map Element.encode)),
    ("root", TreeId.encodeOption tree.root)]

def decode? (dialect : Dialect) (value : Datum) : Option SyntaxTree := do
  match ← dialect.fields ["nodes", "root"] value with
  | [nodes, root] =>
    let elements ← required (dialect.listOf (Element.decode? dialect)) nodes
    let root ← defaulted none (nullable (TreeId.decode? dialect)) root
    return ⟨elements.toArray, root⟩
  | _ => none

end SyntaxTree

end FlowLink
