import FlowLink.Document.Datum
import FlowLink.Document.Decimal

/-! # Writing JSON -/

namespace FlowLink.Json

/-- The written form of a character of a string.  Quotes, backslashes and control characters are
escaped, all others stand for themselves. -/
def escape (char : Char) : List Char :=
  match char with
  | '"' => ['\\', '"']
  | '\\' => ['\\', '\\']
  | '\x08' => ['\\', 'b']
  | '\x0c' => ['\\', 'f']
  | '\n' => ['\\', 'n']
  | '\r' => ['\\', 'r']
  | '\t' => ['\\', 't']
  | _ =>
    if char.toNat < 0x20 then
      ['\\', 'u', '0', '0', hexDigit (char.toNat / 16), hexDigit (char.toNat % 16)]
    else
      [char]

def quote (text : String) : List Char := '"' :: text.toList.flatMap escape ++ ['"']

def writeScalar (value : Scalar) : List Char :=
  match value.meaning with
  | .text | .void => quote value.text
  | _ => value.text.toList

def newline (depth : Nat) : List Char := '\n' :: List.replicate (2 * depth) ' '

mutual

/-- Lists and tables have one part a line, indented by two blanks a level; empty ones stay on the
line. -/
def write (depth : Nat) : Datum → List Char
  | .scalar value => writeScalar value
  | .list [] => ['[', ']']
  | .list (item :: items) =>
    '[' :: newline (depth + 1) ++ write (depth + 1) item ++ writeItems (depth + 1) items
      ++ newline depth ++ [']']
  | .table [] => ['\x7b', '\x7d']
  | .table ((name, value) :: fields) =>
    '\x7b' :: newline (depth + 1) ++ quote name.text ++ [':', ' '] ++ write (depth + 1) value
      ++ writeFields (depth + 1) fields ++ newline depth ++ ['\x7d']

def writeItems (depth : Nat) : List Datum → List Char
  | [] => []
  | item :: items => ',' :: newline depth ++ write depth item ++ writeItems depth items

def writeFields (depth : Nat) : List (Scalar × Datum) → List Char
  | [] => []
  | (name, value) :: fields =>
    ',' :: newline depth ++ quote name.text ++ [':', ' '] ++ write depth value
      ++ writeFields depth fields

end

/-- The text of a value over several lines, without a final line break. -/
def pretty (value : Datum) : String := String.ofList (write 0 value)

mutual

def writeCompact : Datum → List Char
  | .scalar value => writeScalar value
  | .list [] => ['[', ']']
  | .list (item :: items) => '[' :: writeCompact item ++ writeCompactItems items ++ [']']
  | .table [] => ['\x7b', '\x7d']
  | .table ((name, value) :: fields) =>
    '\x7b' :: quote name.text ++ ':' :: writeCompact value ++ writeCompactFields fields ++ ['\x7d']

def writeCompactItems : List Datum → List Char
  | [] => []
  | item :: items => ',' :: writeCompact item ++ writeCompactItems items

def writeCompactFields : List (Scalar × Datum) → List Char
  | [] => []
  | (name, value) :: fields =>
    ',' :: quote name.text ++ ':' :: writeCompact value ++ writeCompactFields fields

end

/-- The text of a value on one line, without blanks. -/
def compact (value : Datum) : String := String.ofList (writeCompact value)

end FlowLink.Json
