/-! # Paths

A path keeps the text it was written with, because that text is reported; it is taken apart only to
look a file up.
-/

namespace FlowLink

structure Path where
  text : String
deriving DecidableEq, Inhabited

namespace Path

def isAbsolute (path : Path) : Bool := path.text.toList.head? = some '/'

/-- The names between the slashes.  Some may be empty. -/
def names (path : Path) : List String :=
  (path.text.toList.splitOnP (· = '/')).map String.ofList

/-- The name of what the path leads to, unless it ends by going up. -/
def fileName? (path : Path) : Option String :=
  ((path.names.filter fun name => name ≠ "" && name ≠ ".").getLast?).filter (· ≠ "..")

/-- What follows the last dot of the file name.  A dot at its start begins no extension. -/
def extension? (path : Path) : Option String :=
  path.fileName?.bind fun name =>
    let reversed := name.toList.reverse
    match reversed.dropWhile (· ≠ '.') with
    | _ :: _ :: _ => some (String.ofList (reversed.takeWhile (· ≠ '.')).reverse)
    | _ => none

def join (path : Path) (rest : String) : Path :=
  if path.text = "" || path.text.toList.getLast? = some '/' then ⟨path.text ++ rest⟩
  else ⟨path.text ++ "/" ++ rest⟩

end Path

end FlowLink
