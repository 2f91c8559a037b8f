import FlowLink.Files.Path

/-! # Files

The files that a program may find, by their place relative to the working directory.  Reading and
writing go through a path, every directory of which must exist.
-/

namespace FlowLink

/-- Where a path leads: names from the working directory downwards.  Places outside of it begin
with two dots for each level up, and those in it never do. -/
abbrev Location := List String

namespace Location

/-- The location is the working directory, or one above it. -/
def isAmbient (location : Location) : Bool := location.all fun name => name = ".."

/-- The directory above, given the names of the working directory and of those around it, innermost
first.  Nothing is above the outermost one. -/
def parent (location : Location) (around : List String := []) : Location :=
  match location.getLast? with
  | none | some ".." => if location.length < around.length then location ++ [".."] else location
  | some _ => location.dropLast

/-- Where a name leads.  The name of a directory around the working directory leads back inwards. -/
def enter (location : Location) (name : String) (around : List String := []) : Location :=
  if name = "" || name = "." then location
  else if name = ".." then location.parent around
  else if location ≠ [] && location.isAmbient && around[location.length - 1]? = some name then
    location.dropLast
  else location ++ [name]

/-- The directory so many levels above the working directory. -/
def above (levels : Nat) : Location := List.replicate levels ".."

def start (path : Path) (around : List String) : Location :=
  if path.isAbsolute then above around.length else []

end Location

inductive Content where
  | text (value : String)
  /-- Bytes that spell no text. -/
  | binary
  /-- A file that may be neither read nor written. -/
  | locked
deriving DecidableEq

inductive ReadFault where
  | notFound
  | denied
  | notDirectory
  | isDirectory
  | nameTooLong
  /-- A link leads to itself in the end. -/
  | circular
  | notText
deriving DecidableEq

def ReadFault.message : ReadFault → String
  | notFound => "No such file or directory (os error 2)"
  | denied => "Permission denied (os error 13)"
  | notDirectory => "Not a directory (os error 20)"
  | isDirectory => "Is a directory (os error 21)"
  | nameTooLong => "File name too long (os error 36)"
  | circular => "Too many levels of symbolic links (os error 40)"
  | notText => "stream did not contain valid UTF-8"

abbrev Reading := Except ReadFault String

/-- Something is there, whether or not it can be read. -/
def Reading.exists : Reading → Bool
  | .error .notFound | .error .notDirectory | .error .nameTooLong | .error .circular => false
  | _ => true

/-- A directory exists where it holds a file, or is listed as a folder. -/
structure Files where
  entries : List (Location × Content)
  folders : List Location := []
  /-- The names of the working directory and of those around it, innermost first. -/
  around : List String := []
  /-- Where a place really is: elsewhere, or nowhere, if it is a link. -/
  resolve : Location → Except ReadFault Location := .ok

namespace Files

def empty : Files := { entries := [], around := ["work"] }

def find? (files : Files) (location : Location) : Option Content :=
  files.entries.lookup location

def put (files : Files) (location : Location) (content : Content) : Files :=
  { files with
    entries := (location, content) :: files.entries.filter fun entry => entry.1 ≠ location }

def isDirectory (files : Files) (location : Location) : Bool :=
  location.isAmbient || files.folders.contains location || files.entries.any fun entry =>
    location.isPrefixOf entry.1 && location.length < entry.1.length

def nameLimit : Nat := 255

def pathLimit : Nat := 4095

/-- Follows the names of a path.  All but the last must lead to directories. -/
def follow (files : Files) (location : Location) : List String → Except ReadFault Location
  | [] => .ok location
  | name :: rest =>
    if files.isDirectory location then
      if name.utf8ByteSize ≤ nameLimit then
        match files.resolve (location.enter name files.around) with
        | .ok location => follow files location rest
        | .error fault => .error fault
      else .error .nameTooLong
    else if (files.find? location).isSome then .error .notDirectory
    else .error .notFound

def locate (files : Files) (path : Path) : Except ReadFault Location :=
  if path.text = "" then .error .notFound
  else if pathLimit < path.text.utf8ByteSize then .error .nameTooLong
  else files.follow (Location.start path files.around) path.names

def read (files : Files) (path : Path) : Reading := do
  let location ← files.locate path
  if files.isDirectory location then .error .isDirectory
  else match files.find? location with
    | some (.text value) => .ok value
    | some .binary => .error .notText
    | some .locked => .error .denied
    | none => .error .notFound

/-- The files after a text is written, if it can be.  Directories are neither made nor replaced. -/
def write? (files : Files) (path : Path) (text : String) : Option Files :=
  match files.locate path with
  | .ok location =>
    if files.isDirectory location || files.find? location = some .locked then none
    else some (files.put location (.text text))
  | .error _ => none

end Files

end FlowLink
