import FlowLink.Document.Toml.Word

/-! # TOML tokens

`Toml.tokens?` splits a text into tokens, one character at a time.  Line breaks are tokens, because
statements end with them.  A bracket knows whether it directly follows its like, because the header
of an array of tables is told from that of a table by nothing else.
-/

namespace FlowLink.Toml

inductive Token where
  | newline
  | openBracket (doubled : Bool)
  | closeBracket (doubled : Bool)
  | openBrace
  | closeBrace
  | comma
  | equals
  /-- A quoted string.  One over several lines cannot be a key. -/
  | quoted (text : String) (multiline : Bool)
  /-- A bare key, the dots between keys, or a bare value.  A date and a time with a blank between
  them are one word. -/
  | word (written : List Char)
deriving DecidableEq

def isWordChar (char : Char) : Bool :=
  char.isAlphanum || char = '_' || char = '-' || char = '+' || char = '.' || char = ':'

/-- Control characters other than the tab may stand in no text. -/
def isPlain (char : Char) : Bool :=
  char = '\t' || (0x20 ≤ char.toNat && char.toNat ≠ 0x7f)

def escape? : Char → Option Char
  | 'b' => some '\x08'
  | 't' => some '\t'
  | 'n' => some '\n'
  | 'f' => some '\x0c'
  | 'r' => some '\r'
  | '"' => some '"'
  | '\\' => some '\\'
  | _ => none

def charOfCode? (code : Nat) : Option Char :=
  if code.isValidChar then some (Char.ofNat code) else none

structure OpenString where
  /-- A double quote, or a single one, between which nothing is escaped. -/
  quote : Char
  multiline : Bool
  reversed : List Char := []
  /-- How many quotes have just been read in a text over several lines. -/
  run : Nat := 0
deriving DecidableEq

namespace OpenString

def token (text : OpenString) : Token :=
  .quoted (String.ofList text.reversed.reverse) text.multiline

/-- Takes the quotes just read as part of the text, all but the closing three. -/
def keepRun (text : OpenString) (closing : Nat) : OpenString :=
  { text with
    reversed := List.replicate (text.run - closing) text.quote ++ text.reversed
    run := 0 }

def push (text : OpenString) (char : Char) : OpenString :=
  let kept := text.keepRun 0
  { kept with reversed := char :: kept.reversed }

end OpenString

inductive Lexeme where
  | none
  /-- The last token is a bracket, directly before this place. -/
  | bracket
  | word (reversed : List Char)
  /-- Behind a date and a blank, after which a time may follow. -/
  | date (reversed : List Char)
  | comment
  /-- A carriage return, after which a line feed is due. -/
  | carriage
  /-- A carriage return inside a text over several lines. -/
  | carriageIn (text : OpenString)
  /-- This many quotes that open a string, at most two. -/
  | opening (quote : Char) (count : Nat)
  /-- The three quotes that open a text have been read, and possibly a carriage return.  A line
  break directly behind them does not count. -/
  | opened (text : OpenString) (afterReturn : Bool)
  | string (text : OpenString)
  | escape (text : OpenString)
  /-- So many more digits of an escaped code are due. -/
  | code (text : OpenString) (due value : Nat)
  /-- After a backslash at the end of a line, all blanks and breaks are passed over. -/
  | joining (text : OpenString) (broken afterReturn : Bool)
deriving DecidableEq

structure Scanner where
  reversed : List Token := []
  lexeme : Lexeme := .none

namespace Scanner

/-- The token of a bracket, which is doubled if the last token is its like directly before it. -/
def bracket (done : List Token) (adjacent : Bool) (char : Char) : Token :=
  match char, done with
  | '[', .openBracket _ :: _ => .openBracket adjacent
  | '[', _ => .openBracket false
  | _, .closeBracket _ :: _ => .closeBracket adjacent
  | _, _ => .closeBracket false

/-- Starts from a character that no lexeme has taken. -/
def begin (done : List Token) (adjacent : Bool) (char : Char) : Option Scanner :=
  match char with
  | ' ' | '\t' => some ⟨done, .none⟩
  | '\n' => some ⟨.newline :: done, .none⟩
  | '\r' => some ⟨done, .carriage⟩
  | '#' => some ⟨done, .comment⟩
  | '[' | ']' => some ⟨bracket done adjacent char :: done, .bracket⟩
  | '\x7b' => some ⟨.openBrace :: done, .none⟩
  | '\x7d' => some ⟨.closeBrace :: done, .none⟩
  | ',' => some ⟨.comma :: done, .none⟩
  | '=' => some ⟨.equals :: done, .none⟩
  | '"' | '\'' => some ⟨done, .opening char 1⟩
  | _ => if isWordChar char then some ⟨done, .word [char]⟩ else none

def stepLine (done : List Token) (text : OpenString) (char : Char) : Option Scanner :=
  if char = text.quote then some ⟨text.token :: done, .none⟩
  else if char = '\\' && text.quote = '"' then some ⟨done, .escape text⟩
  else if isPlain char then some ⟨done, .string (text.push char)⟩
  else none

/-- Takes a character of a text over several lines.  Three quotes close it, and up to two more
before them belong to the text. -/
def stepLines (done : List Token) (text : OpenString) (char : Char) : Option Scanner :=
  if char = text.quote && text.run < 5 then
    some ⟨done, .string { text with run := text.run + 1 }⟩
  else if 3 ≤ text.run then begin ((text.keepRun 3).token :: done) false char
  else if char = '\\' && text.quote = '"' then some ⟨done, .escape (text.keepRun 0)⟩
  else if char = '\r' then some ⟨done, .carriageIn (text.keepRun 0)⟩
  else if char = '\n' || isPlain char then some ⟨done, .string (text.push char)⟩
  else none

def stepString (done : List Token) (text : OpenString) (char : Char) : Option Scanner :=
  if text.multiline then stepLines done text char else stepLine done text char

def step (scanner : Scanner) (char : Char) : Option Scanner :=
  let done := scanner.reversed
  match scanner.lexeme with
  | .none => begin done false char
  | .bracket => begin done true char
  | .word reversed =>
    if isWordChar char then some ⟨done, .word (char :: reversed)⟩
    else if char = ' ' && isDate reversed.reverse then some ⟨done, .date reversed⟩
    else begin (.word reversed.reverse :: done) false char
  | .date reversed =>
    if char.isDigit then some ⟨done, .word (char :: ' ' :: reversed)⟩
    else begin (.word reversed.reverse :: done) false char
  | .comment =>
    if char = '\n' || char = '\r' then begin done false char
    else if isPlain char then some scanner
    else none
  | .carriage => if char = '\n' then some ⟨.newline :: done, .none⟩ else none
  | .carriageIn text =>
    if char = '\n' then some ⟨done, .string (text.push '\n')⟩ else none
  | .opening quote 1 =>
    if char = quote then some ⟨done, .opening quote 2⟩
    else stepLine done { quote, multiline := false } char
  | .opening quote _ =>
    if char = quote then some ⟨done, .opened { quote, multiline := true } false⟩
    else begin (OpenString.token { quote, multiline := false } :: done) false char
  | .opened text afterReturn =>
    if char = '\n' then some ⟨done, .string text⟩
    else if afterReturn then none
    else if char = '\r' then some ⟨done, .opened text true⟩
    else stepLines done text char
  | .string text => stepString done text char
  | .escape text =>
    if char = 'u' then some ⟨done, .code text 4 0⟩
    else if char = 'U' then some ⟨done, .code text 8 0⟩
    else if text.multiline && (char = ' ' || char = '\t' || char = '\n' || char = '\r') then
      some ⟨done, .joining text (char = '\n') (char = '\r')⟩
    else (escape? char).map fun meant => ⟨done, .string (text.push meant)⟩
  | .code text due value =>
    (digit? 16 char).bind fun digit =>
      if due = 1 then
        (charOfCode? (16 * value + digit)).map fun meant => ⟨done, .string (text.push meant)⟩
      else
        some ⟨done, .code text (due - 1) (16 * value + digit)⟩
  | .joining text broken afterReturn =>
    if char = '\n' then some ⟨done, .joining text true false⟩
    else if afterReturn then none
    else if char = '\r' then some ⟨done, .joining text broken true⟩
    else if char = ' ' || char = '\t' then some ⟨done, .joining text broken false⟩
    else if broken then stepLines done text char
    else none

def finish (scanner : Scanner) : Option (List Token) :=
  match scanner.lexeme with
  | .none | .bracket | .comment => some scanner.reversed.reverse
  | .word reversed | .date reversed => some (.word reversed.reverse :: scanner.reversed).reverse
  | .opening quote 2 =>
    some (OpenString.token { quote, multiline := false } :: scanner.reversed).reverse
  | .string text =>
    if text.multiline && 3 ≤ text.run then
      some ((text.keepRun 3).token :: scanner.reversed).reverse
    else none
  | _ => none

end Scanner

def tokens? (text : List Char) : Option (List Token) :=
  (text.foldlM Scanner.step {}).bind Scanner.finish

end FlowLink.Toml
