import Mos6502.Memory.Image

/-! Files: a tree of directories that hold byte images by name. A directory is there if some file is
below it; so are the root and the home, the directory that relative paths start from. A path is text:
names separated by slashes, absolute if a slash comes first. -/
namespace Mos6502

namespace Path

def isAbsolute (path : String) : Bool := path.toList.head? == some '/'

/-- Drops the slashes and the single dots at the end of a directory, which is written backwards. The
slash of the root stays. -/
def trimReversed : List Char → List Char
  | ['/'] => ['/']
  | '/' :: rest => trimReversed rest
  | ['.', '/'] => ['/']
  | '.' :: '/' :: rest => trimReversed rest
  | rest => rest

/-- The directory of the file that a path names; empty if the path is just a name. -/
def directory (path : String) : String :=
  String.ofList (trimReversed (path.toList.reverse.dropWhile (· != '/'))).reverse

def join (directory path : String) : String :=
  if isAbsolute path ∨ directory = "" then path
  else if directory.toList.getLast? = some '/' then directory ++ path
  else directory ++ "/" ++ path

end Path

/-- The names that lead from the root to a file or a directory. -/
abbrev Place := List String

structure Files where
  home : Place
  entries : List (Place × Image) := []
  deriving Inhabited

inductive FileError
  | notFound | notDirectory | isDirectory | nameTooLong
  | zeroCharacter
  | notText
  deriving DecidableEq, Repr

def FileError.message : FileError → String
  | .notFound => "No such file or directory (os error 2)"
  | .notDirectory => "Not a directory (os error 20)"
  | .isDirectory => "Is a directory (os error 21)"
  | .nameTooLong => "File name too long (os error 36)"
  | .zeroCharacter => "file name contained an unexpected NUL byte"
  | .notText => "stream did not contain valid UTF-8"

namespace Files

def nameLimit : Nat := 255

def pathLimit : Nat := 4096

inductive Entry
  | directory
  | file (image : Image)

def isDirectory (fs : Files) (p : Place) : Bool :=
  p.isPrefixOf fs.home || fs.entries.any fun e => p.isPrefixOf e.1 && p != e.1

def entry? (fs : Files) (p : Place) : Option Entry :=
  match fs.entries.lookup p with
  | some image => some (.file image)
  | none => if fs.isDirectory p then some .directory else none

/-- Follows names from a directory that is there. -/
def walk (fs : Files) (here : Place) : List String → Except FileError Entry
  | [] => .ok .directory
  | name :: rest =>
    if name = "" ∨ name = "." then walk fs here rest
    else if name = ".." then walk fs here.dropLast rest
    else if nameLimit < name.utf8ByteSize then .error .nameTooLong
    else
      match fs.entry? (here ++ [name]) with
      | none => .error .notFound
      | some .directory => walk fs (here ++ [name]) rest
      | some (.file image) => if rest = [] then .ok (.file image) else .error .notDirectory

def start (fs : Files) (path : String) : Place := if Path.isAbsolute path then [] else fs.home

def names (path : String) : Except FileError (List String) :=
  if '\x00' ∈ path.toList then .error .zeroCharacter
  else if pathLimit ≤ path.utf8ByteSize then .error .nameTooLong
  else if path = "" then .error .notFound
  else .ok (path.splitOn "/")

def find (fs : Files) (path : String) : Except FileError Entry := do
  let ns ← names path
  walk fs (fs.start path) ns

def read (fs : Files) (path : String) : Except FileError Image := do
  match ← fs.find path with
  | .directory => throw .isDirectory
  | .file image => return image

def readText (fs : Files) (path : String) : Except FileError String := do
  let image ← fs.read path
  match String.fromUTF8? ⟨image⟩ with
  | some s => return s
  | none => throw .notText

/-- How long a directory is. -/
def directorySize : Nat := 4096

def size (fs : Files) (path : String) : Except FileError Nat := do
  match ← fs.find path with
  | .directory => return directorySize
  | .file image => return image.size

/-- Where names lead, if all but the last lead through directories. -/
def locate (fs : Files) (here : Place) : List String → Place
  | [] => here
  | name :: rest =>
    if name = "" ∨ name = "." then locate fs here rest
    else if name = ".." then locate fs here.dropLast rest
    else locate fs (here ++ [name]) rest

def put (fs : Files) (p : Place) (image : Image) : Files :=
  { fs with entries := (p, image) :: fs.entries.filter fun e => e.1 != p }

/-- Makes a directory. It holds a file without a name, which no path leads to. -/
def putDirectory (fs : Files) (p : Place) : Files := fs.put (p ++ [""]) #[]

/-- Makes a file, or replaces what is in it. The directory has to be there. -/
def write (fs : Files) (path : String) (image : Image) : Except FileError Files := do
  let all ← names path
  let closed := (all.reverse.dropWhile (· == "")).reverse
  let parents := closed.dropLast
  let last := closed.getLast?.getD "."
  match ← fs.walk (fs.start path) parents with
  | .file _ => throw .notDirectory
  | .directory =>
    if last = "." ∨ last = ".." ∨ closed.length < all.length then throw .isDirectory
    else if nameLimit < last.utf8ByteSize then throw .nameTooLong
    else
      let p := fs.locate (fs.start path) closed
      match fs.entry? p with
      | some .directory => throw .isDirectory
      | _ => return fs.put p image

end Files
end Mos6502
