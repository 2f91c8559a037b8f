/-! # Escape sequences

What is written where no terminal shows it keeps neither the sequences that steer a terminal nor
most control characters.
-/

namespace FlowLink.Command

/-- How far an escape sequence has been read. -/
inductive EscapeSequence where
  | outside
  | opened
  /-- Behind the escape character and others that do not end the sequence. -/
  | extended
  /-- In a control sequence, which a letter or a sign ends. -/
  | control
  | device
  | parameters
  | intermediate
  /-- In an operating system command, which a bell ends. -/
  | command
  /-- In the rest of a device control string, a malformed one, or another string.  A string
  terminator ends it. -/
  | string
deriving DecidableEq

namespace EscapeSequence

/-- The encoding of a character has the byte of a string terminator. -/
def terminates (char : Char) : Bool := (String.utf8EncodeChar char).contains 0x9c

def step (sequence : EscapeSequence) (char : Char) : EscapeSequence :=
  if char = '\x1b' then opened
  else if char = '\x18' || char = '\x1a' then outside
  else match sequence with
    | outside => outside
    | opened =>
      match char with
      | '[' => control
      | ']' => command
      | 'P' => device
      | 'X' | '^' | '_' => string
      | _ =>
        if ' ' ≤ char && char ≤ '/' then extended
        else if '0' ≤ char && char ≤ '~' then outside
        else opened
    | extended => if '0' ≤ char && char ≤ '~' then outside else extended
    | control => if '@' ≤ char && char ≤ '~' then outside else control
    | device =>
      if ' ' ≤ char && char ≤ '/' then intermediate
      else if '0' ≤ char && char ≤ '?' then parameters
      else if '@' ≤ char && char ≤ '~' then string
      else device
    | parameters =>
      if ' ' ≤ char && char ≤ '/' then intermediate
      else if '<' ≤ char && char ≤ '~' then string
      else parameters
    | intermediate => if '0' ≤ char && char ≤ '~' then string else intermediate
    | command => if char = '\x07' then outside else command
    | string => if terminates char then outside else string

/-- Blanks that count even though they are control characters. -/
def isSpacing (char : Char) : Bool :=
  char = '\t' || char = '\n' || char = '\x0c' || char = '\r'

def isPlain (char : Char) : Bool := ' ' ≤ char && char ≠ '\x7f'

def keeps (sequence : EscapeSequence) (char : Char) : Bool :=
  match sequence with
  | outside => isPlain char || isSpacing char
  | opened | extended | control => isSpacing char
  | device | parameters | intermediate | command | string => false

end EscapeSequence

structure PlainText where
  sequence : EscapeSequence := .outside
  /-- The last character was kept.  Then all that can be kept is, even inside a sequence, and one
  that is not in ASCII ends the sequence. -/
  isOpen : Bool := false
  reversed : List Char := []

namespace PlainText

def step (text : PlainText) (char : Char) : PlainText :=
  if text.isOpen && EscapeSequence.outside.keeps char then
    { text with
      sequence := if char.toNat < 0x80 then text.sequence else .outside
      reversed := char :: text.reversed }
  else
    { sequence := text.sequence.step char
      isOpen := text.sequence.keeps char
      reversed := if text.sequence.keeps char then char :: text.reversed else text.reversed }

end PlainText

/-- What is left of a text where no terminal shows it. -/
def plainText (text : String) : String :=
  String.ofList (text.toList.foldl PlainText.step {}).reversed.reverse

end FlowLink.Command
