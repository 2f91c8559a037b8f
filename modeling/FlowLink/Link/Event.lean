import FlowLink.Document.Decimal
import FlowLink.Graph.Basic
import FlowLink.Link.Config

/-! # Events

What happens while units are checked and linked, as data.  `Event.notice` gives an event its level,
its message and its fields; nothing else depends on how an event reads.
-/

namespace FlowLink

/-- How much a notice matters, most severe first. -/
inductive Level where
  | error
  | warn
  | info
  | debug
  | trace
deriving DecidableEq, Inhabited

namespace Level

def members : List Level := [error, warn, info, debug, trace]

def name : Level → String
  | error => "ERROR"
  | warn => "WARN"
  | info => "INFO"
  | debug => "DEBUG"
  | trace => "TRACE"

def rank : Level → Nat
  | error => 0
  | warn => 1
  | info => 2
  | debug => 3
  | trace => 4

/-- A notice of this level is shown where everything down to `threshold` is. -/
def shownAt (level threshold : Level) : Bool := level.rank ≤ threshold.rank

end Level

inductive FieldValue where
  | count (value : Nat)
  | text (value : String)
deriving DecidableEq

def FieldValue.render : FieldValue → String
  | count value => toString value
  | text value => value

structure Notice where
  level : Level
  message : String
  fields : List (String × FieldValue)
deriving DecidableEq

namespace Notice

/-- A character of a message as a line shows it: those that may steer a terminal by their code. -/
def spell (char : Char) : List Char :=
  let code := [hexDigit (char.toNat / 16), hexDigit (char.toNat % 16)]
  if char ∈ ['\x07', '\x08', '\x0c', '\x1b', '\x7f'] then ['\\', 'x'] ++ code
  else if 0x80 ≤ char.toNat && char.toNat ≤ 0x9f then ['\\', 'u', '\x7b'] ++ code ++ ['\x7d']
  else [char]

def line (notice : Notice) : String :=
  " ".intercalate
    (notice.level.name :: String.ofList (notice.message.toList.flatMap spell) ::
      notice.fields.map fun (name, value) => name ++ "=" ++ value.render)

end Notice

inductive Event where
  /-- The analysis mentions this many ids outside the tree. -/
  | unknownElements (count : Nat)
  | unitWithoutRoot (pass : Pass)
  | methodNotAnalysed (classId method : TreeId)
  | siteWithoutNode (site : TreeId)
  | candidateWithoutNode (candidate : TreeId)
  | methodWithoutNode (method : TreeId)
  | identifierWithoutNode (identifier : TreeId)
  /-- A request to link two nodes did not resolve to one token on each side. -/
  | ambiguousTokens (warn : Bool) (request : Edge) (sourceTokens destTokens : Nat)
  | dataflowFinished (added sites : Nat)
  | returnsFinished (added methods : Nat)
deriving DecidableEq

namespace Event

def notice : Event → Notice
  | unknownElements count =>
    ⟨.warn, "analysis results reference elements outside the tree", [("unknown", .count count)]⟩
  | unitWithoutRoot .dataflow =>
    ⟨.debug, "compilation unit has no root; skipping dataflow linking", []⟩
  | unitWithoutRoot .returnsTo =>
    ⟨.debug, "compilation unit has no root; skipping return-flow linking", []⟩
  | methodNotAnalysed classId method =>
    ⟨.trace, "method was not analysed",
      [("class", .text classId.render), ("method", .text method.render)]⟩
  | siteWithoutNode site =>
    ⟨.trace, "site has no feature node", [("site", .text site.render)]⟩
  | candidateWithoutNode candidate =>
    ⟨.trace, "candidate has no feature node", [("candidate", .text candidate.render)]⟩
  | methodWithoutNode method =>
    ⟨.trace, "method has no feature node", [("method", .text method.render)]⟩
  | identifierWithoutNode identifier =>
    ⟨.trace, "identifier has no feature node", [("ident", .text identifier.render)]⟩
  | ambiguousTokens warn request sourceTokens destTokens =>
    ⟨if warn then .warn else .debug, "ambiguous token resolution",
      [("kind", .text request.kind.name), ("source", .text request.source.render),
        ("dest", .text request.target.render), ("source_tokens", .count sourceTokens),
        ("dest_tokens", .count destTokens)]⟩
  | dataflowFinished added sites =>
    ⟨.debug, "dataflow linking finished", [("added", .count added), ("sites", .count sites)]⟩
  | returnsFinished added methods =>
    ⟨.debug, "return-flow linking finished", [("added", .count added), ("methods", .count methods)]⟩

end Event

end FlowLink
