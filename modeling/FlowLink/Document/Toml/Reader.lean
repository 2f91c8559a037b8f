import FlowLink.Document.Toml.Table
import FlowLink.Document.Toml.Token

/-! # Reading TOML

`Toml.read?` takes one token at a time.  Between statements it stands in the table of the latest
header; inside a value it keeps the arrays and inline tables around it on a stack of its own.
-/

namespace FlowLink.Toml

inductive KeyPart where
  | dot
  | name (name : String)
deriving DecidableEq

def isKeyChar (char : Char) : Bool := char.isAlphanum || char = '_' || char = '-'

def wordParts? (written : List Char) : Option (List KeyPart) :=
  let pieces := (written.splitOnP (· = '.')).map String.ofList
  if pieces.all fun piece => piece.toList.all isKeyChar then
    some ((pieces.map fun piece => if piece = "" then [] else [KeyPart.name piece])
      |>.intersperse [.dot] |>.flatten)
  else
    none

def keyParts? : Token → Option (List KeyPart)
  | .word written => wordParts? written
  | .quoted text false => some [.name text]
  | _ => none

/-- Keys have fewer names than this, and values fewer arrays and inline tables inside each other. -/
def depthLimit : Nat := 80

/-- The names of a key, which alternate with dots. -/
def keyNames? (parts : List KeyPart) : Option (List String) :=
  let rec go : List KeyPart → Option (List String)
    | [.name name] => some [name]
    | .name name :: .dot :: rest => (go rest).map (name :: ·)
    | _ => none
  (go parts).filter fun names => names.length < depthLimit

inductive Frame where
  | array (reversed : List Datum)
  /-- The fields so far, and the key of the value that is due. -/
  | inline (fields : Fields) (key : List String)

/-- Where the reader stands. -/
inductive Place where
  | statement
  /-- In a header, after these parts of its key. -/
  | header (doubled : Bool) (parts : List KeyPart)
  /-- Behind the first of the two brackets that close a header. -/
  | headerEnd (parts : List KeyPart)
  | key (parts : List KeyPart)
  | value (key : List String) (frames : List Frame)
  | item (key : List String) (frames : List Frame)
  | itemEnd (key : List String) (frames : List Frame)
  /-- In an inline table, after these parts of a key.  The table may end only before its first
  key. -/
  | field (key : List String) (fields : Fields) (frames : List Frame) (parts : List KeyPart)
    (mayClose : Bool)
  | fieldEnd (key : List String) (fields : Fields) (frames : List Frame)
  | lineEnd

structure Reader where
  fields : Fields := []
  header : List String := []
  place : Place := .statement

namespace Reader

def deliver (reader : Reader) (key : List String) (value : Datum) : List Frame → Option Reader
  | [] => (Fields.insertUnder reader.fields value key reader.header).map fun fields =>
      { reader with fields, place := .lineEnd }
  | .array reversed :: outer =>
    some { reader with place := .itemEnd key (.array (value :: reversed) :: outer) }
  | .inline fields name :: outer =>
    (Fields.insert fields value name).map fun fields =>
      { reader with place := .fieldEnd key fields outer }

def beginValue (reader : Reader) (key : List String) (frames : List Frame) :
    Token → Option Reader
  | .quoted text _ => reader.deliver key (.text text) frames
  | .word written => (wordValue? written).bind fun value => reader.deliver key value frames
  | .openBracket _ =>
    if frames.length + 1 < depthLimit then
      some { reader with place := .item key (.array [] :: frames) }
    else none
  | .openBrace =>
    if frames.length + 1 < depthLimit then
      some { reader with place := .field key [] frames [] true }
    else none
  | _ => none

def stepItemEnd (reader : Reader) (key : List String) (frames : List Frame) :
    Token → Option Reader
  | .newline => some { reader with place := .itemEnd key frames }
  | .comma => some { reader with place := .item key frames }
  | .closeBracket _ =>
    match frames with
    | .array reversed :: outer => reader.deliver key (.list reversed.reverse) outer
    | _ => none
  | _ => none

/-- Takes a token in an inline table, in or before a key. -/
def stepField (reader : Reader) (key : List String) (fields : Fields) (frames : List Frame)
    (parts : List KeyPart) (mayClose : Bool) : Token → Option Reader
  | .closeBrace =>
    if mayClose then reader.deliver key (.table (fieldsDatum fields)) frames else none
  | .equals => (keyNames? parts).map fun name =>
    { reader with place := .value key (.inline fields name :: frames) }
  | token => (keyParts? token).map fun more =>
    { reader with place := .field key fields frames (parts ++ more) false }

def stepFieldEnd (reader : Reader) (key : List String) (fields : Fields) (frames : List Frame) :
    Token → Option Reader
  | .comma => some { reader with place := .field key fields frames [] false }
  | .closeBrace => reader.deliver key (.table (fieldsDatum fields)) frames
  | _ => none

/-- Opens what a complete header asks for. -/
def openHeader (reader : Reader) (doubled : Bool) (parts : List KeyPart) : Option Reader := do
  let header ← keyNames? parts
  let fields ←
    if doubled then Fields.openElement reader.fields header
    else Fields.openTable reader.fields header
  return ⟨fields, header, .lineEnd⟩

def step (reader : Reader) (token : Token) : Option Reader :=
  match reader.place with
  | .statement =>
    match token with
    | .newline => some reader
    | .openBracket false => some { reader with place := .header false [] }
    | _ => (keyParts? token).map fun parts => { reader with place := .key parts }
  | .header false [] =>
    match token with
    | .openBracket true => some { reader with place := .header true [] }
    | _ => (keyParts? token).map fun parts => { reader with place := .header false parts }
  | .header true parts =>
    match token with
    | .closeBracket _ => some { reader with place := .headerEnd parts }
    | _ => (keyParts? token).map fun more => { reader with place := .header true (parts ++ more) }
  | .headerEnd parts =>
    match token with
    | .closeBracket true => reader.openHeader true parts
    | _ => none
  | .header false parts =>
    match token with
    | .closeBracket _ => reader.openHeader false parts
    | _ => (keyParts? token).map fun more => { reader with place := .header false (parts ++ more) }
  | .key parts =>
    match token with
    | .equals => (keyNames? parts).map fun key => { reader with place := .value key [] }
    | _ => (keyParts? token).map fun more => { reader with place := .key (parts ++ more) }
  | .value key frames => reader.beginValue key frames token
  | .item key frames =>
    match token with
    | .newline => some reader
    | .closeBracket _ => reader.stepItemEnd key frames token
    | _ => reader.beginValue key frames token
  | .field key fields frames parts mayClose =>
    reader.stepField key fields frames parts mayClose token
  | .itemEnd key frames => reader.stepItemEnd key frames token
  | .fieldEnd key fields frames => reader.stepFieldEnd key fields frames token
  | .lineEnd =>
    match token with
    | .newline => some { reader with place := .statement }
    | _ => none

def finish (reader : Reader) : Option Datum :=
  match reader.place with
  | .statement | .lineEnd => some (.table (fieldsDatum reader.fields))
  | _ => none

end Reader

/-- A text without the mark of its byte order. -/
def withoutMark : List Char → List Char
  | '\ufeff' :: rest => rest
  | text => text

def read? (text : String) : Option Datum := do
  let reader ← (← tokens? (withoutMark text.toList)).foldlM Reader.step {}
  reader.finish

end FlowLink.Toml
