import FlowLink.Document.Json.Number

/-! # JSON tokens

`Json.tokens?` splits a text into tokens.  It takes one character at a time, so that scanning a
concatenation is scanning one part after the other.
-/

namespace FlowLink.Json

/-- How the text of a string was written. -/
inductive Spelling where
  /-- Every character stands for itself. -/
  | verbatim
  | escaped
  /-- Half a surrogate pair is escaped without the other half. -/
  | broken
deriving DecidableEq

inductive Token where
  | openList
  | closeList
  | openTable
  | closeTable
  | comma
  | colon
  | quoted (text : String) (spelling : Spelling)
  | word (value : Scalar)
deriving DecidableEq

def isBlank (char : Char) : Bool :=
  char = ' ' || char = '\n' || char = '\r' || char = '\t'

def punctuation? : Char → Option Token
  | '[' => some .openList
  | ']' => some .closeList
  | '\x7b' => some .openTable
  | '\x7d' => some .closeTable
  | ',' => some .comma
  | ':' => some .colon
  | _ => none

def word? (written : List Char) : Option Scalar :=
  match String.ofList written with
  | "null" => some ⟨"null", .null⟩
  | "true" => some ⟨"true", .truth true⟩
  | "false" => some ⟨"false", .truth false⟩
  | text => (decimal? written).map fun number => ⟨text, numberMeaning number⟩

def escape? : Char → Option Char
  | '"' => some '"'
  | '\\' => some '\\'
  | '/' => some '/'
  | 'b' => some '\x08'
  | 'f' => some '\x0c'
  | 'n' => some '\n'
  | 'r' => some '\r'
  | 't' => some '\t'
  | _ => none

structure OpenString where
  reversed : List Char := []
  spelling : Spelling := .verbatim
  /-- The first half of a surrogate pair whose second half is due. -/
  high : Option Nat := none
deriving DecidableEq

namespace OpenString

/-- Gives up on a surrogate pair that is not completed. -/
def settle (text : OpenString) : OpenString :=
  if text.high.isSome then { text with spelling := .broken, high := none } else text

def push (text : OpenString) (char : Char) : OpenString :=
  let settled := text.settle
  { settled with reversed := char :: settled.reversed }

def noteEscape (text : OpenString) : OpenString :=
  if text.spelling = .verbatim then { text with spelling := .escaped } else text

/-- Takes an escaped code unit, which may be half of a surrogate pair. -/
def pushUnit (text : OpenString) (unit : Nat) : OpenString :=
  if 0xD800 ≤ unit && unit < 0xDC00 then
    { text.settle with high := some unit }
  else if 0xDC00 ≤ unit && unit < 0xE000 then
    match text.high with
    | some high =>
      let code := 0x10000 + (high - 0xD800) * 0x400 + (unit - 0xDC00)
      { text with reversed := Char.ofNat code :: text.reversed, high := none }
    | none => { text with spelling := .broken }
  else
    text.push (Char.ofNat unit)

def token (text : OpenString) : Token :=
  let settled := text.settle
  .quoted (String.ofList settled.reversed.reverse) settled.spelling

end OpenString

inductive Lexeme where
  | none
  | word (reversed : List Char)
  | string (text : OpenString)
  | escape (text : OpenString)
  /-- This many digits of an escaped code unit have been read. -/
  | codeUnit (text : OpenString) (digits value : Nat)
deriving DecidableEq

structure Scanner where
  reversed : List Token := []
  lexeme : Lexeme := .none
deriving DecidableEq

namespace Scanner

/-- Starts from a character that no lexeme has taken. -/
def begin (done : List Token) (char : Char) : Scanner :=
  if isBlank char then ⟨done, .none⟩
  else if char = '"' then ⟨done, .string {}⟩
  else match punctuation? char with
    | some token => ⟨token :: done, .none⟩
    | none => ⟨done, .word [char]⟩

def endsWord (char : Char) : Bool :=
  isBlank char || char = '"' || (punctuation? char).isSome

def step (scanner : Scanner) (char : Char) : Option Scanner :=
  match scanner.lexeme with
  | .none => some (begin scanner.reversed char)
  | .word reversed =>
    if endsWord char then
      (word? reversed.reverse).map fun value => begin (.word value :: scanner.reversed) char
    else
      some { scanner with lexeme := .word (char :: reversed) }
  | .string text =>
    if char = '"' then some ⟨text.token :: scanner.reversed, .none⟩
    else if char = '\\' then some { scanner with lexeme := .escape text }
    else if char.toNat < 0x20 then none
    else some { scanner with lexeme := .string (text.push char) }
  | .escape text =>
    if char = 'u' then some { scanner with lexeme := .codeUnit text.noteEscape 0 0 }
    else (escape? char).map fun meant =>
      { scanner with lexeme := .string (text.noteEscape.push meant) }
  | .codeUnit text digits value =>
    (digit? 16 char).map fun digit =>
      let value := 16 * value + digit
      if digits = 3 then { scanner with lexeme := .string (text.pushUnit value) }
      else { scanner with lexeme := .codeUnit text (digits + 1) value }

def finish (scanner : Scanner) : Option (List Token) :=
  match scanner.lexeme with
  | .none => some scanner.reversed.reverse
  | .word reversed =>
    (word? reversed.reverse).map fun value => (.word value :: scanner.reversed).reverse
  | _ => none

end Scanner

/-- The tokens of a text, or none if it has a malformed one. -/
def tokens? (text : List Char) : Option (List Token) :=
  (text.foldlM Scanner.step {}).bind Scanner.finish

end FlowLink.Json
