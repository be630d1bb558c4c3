import SyntaxDump.Format.FileName

/-!
# Files

The program reads files and writes one.  A file tree is a collection of text
files by place, seen from a working directory; a directory exists as long as
there is a file in it, or the working directory.
-/

namespace SyntaxDump
namespace CommandLine

/-- Why a file cannot be read or written. -/
inductive FileError where
  | notFound
  | notDirectory
  | isDirectory
  | nameTooLong
  | notText
  /-- anything else, described by the system -/
  | other (description : String)
deriving DecidableEq, Repr

def FileError.message : FileError → String
  | .notFound => "No such file or directory (os error 2)"
  | .notDirectory => "Not a directory (os error 20)"
  | .isDirectory => "Is a directory (os error 21)"
  | .nameTooLong => "File name too long (os error 36)"
  | .notText => "stream did not contain valid UTF-8"
  | .other description => description

/-- The names on the way from the root. -/
abbrev Place := List String

/-- The devices: they can be read and are empty, and what is written to them is
lost. -/
def devices : List Place := [["dev", "null"], ["dev", "stdin"]]

structure FileTree where
  /-- the working directory -/
  home : Place := ["tmp", "work"]
  files : List (Place × String) := devices.map fun place => (place, "")
deriving Repr

namespace FileTree

/-! ## Paths -/

/-- How many bytes a name may have. -/
def maxName : Nat := 255

/-- How many bytes a path may have. -/
def maxPath : Nat := 4095

/-- The parts of a path as they are written, without empty ones. -/
def partsOf (path : String) : List String :=
  ((FileName.splitAt '/' path.toList).filter (!·.isEmpty)).map String.ofList

/-- Does the path end in a slash? -/
def endsInSlash (path : String) : Bool := path.toList.getLast? == some '/'

/-- Where a path starts: at the root or in the working directory. -/
def startOf (tree : FileTree) (path : String) : Place :=
  if path.toList.head? == some '/' then [] else tree.home

/-- The error of a text that cannot be a path. -/
def checkPath (path : String) : Except FileError Unit :=
  if path.isEmpty then .error .notFound
  else if maxPath < path.utf8ByteSize then .error .nameTooLong
  else .ok ()

/-! ## Places -/

def text? (tree : FileTree) (place : Place) : Option String := tree.files.lookup place

def isDirectory (tree : FileTree) (place : Place) : Bool :=
  place.isPrefixOf tree.home ||
    tree.files.any fun (other, _) => place.isPrefixOf other && place != other

/-- The error of a place that should be a directory. -/
def directoryError (tree : FileTree) (place : Place) : FileError :=
  if (tree.text? place).isSome then .notDirectory else .notFound

/-- Follow parts of a path from a place.  All parts but the last one must lead
through directories; the root lies above itself. -/
def walk (tree : FileTree) : Place → List String → Except FileError Place
  | here, [] => .ok here
  | here, part :: rest =>
      if tree.isDirectory here then
        if part = "." then walk tree here rest
        else if part = ".." then walk tree here.dropLast rest
        else if maxName < part.utf8ByteSize then .error .nameTooLong
        else walk tree (here ++ [part]) rest
      else .error (tree.directoryError here)

/-- The place of a file or directory that is looked for.  A slash at the end
asks for a directory. -/
def find (tree : FileTree) (path : String) : Except FileError Place := do
  checkPath path
  tree.walk (tree.startOf path) (partsOf path ++ if endsInSlash path then ["."] else [])

/-! ## Files -/

/-- The text of a file. -/
def read (tree : FileTree) (path : String) : Except FileError String := do
  let place ← tree.find path
  match tree.text? place with
  | some text => return text
  | none => .error (if tree.isDirectory place then .isDirectory else .notFound)

/-- Is there an ordinary file? -/
def isFile (tree : FileTree) (path : String) : Bool :=
  match tree.find path with
  | .ok place => (tree.text? place).isSome && !devices.contains place
  | .error _ => false

/-- Set the text of the file at a place. -/
def setText (place : Place) (text : String) : List (Place × String) → List (Place × String)
  | [] => [(place, text)]
  | (other, old) :: rest =>
      if other = place then (place, text) :: rest else (other, old) :: setText place text rest

def put (tree : FileTree) (place : Place) (text : String) : FileTree :=
  if devices.contains place then tree
  else { tree with files := setText place text tree.files }

section

variable {tree : FileTree} {place other : Place} {text : String}

end

/-- Write a file into an existing directory.  A slash at the end asks for a
directory, which is not written. -/
def write (tree : FileTree) (path text : String) : Except FileError FileTree := do
  checkPath path
  let start := tree.startOf path
  let parts := partsOf path
  if endsInSlash path then
    let _ ← tree.walk start (parts.dropLast ++ ["."])
    .error .isDirectory
  else
    let place ← tree.walk start parts
    if tree.isDirectory place then .error .isDirectory else return tree.put place text

/-- Add a file together with the directories on the way to it. -/
def add (tree : FileTree) (path text : String) : FileTree :=
  let place := (partsOf path).foldl
    (fun here part =>
      if part = "." then here
      else if part = ".." then here.dropLast
      else here ++ [part])
    (tree.startOf path)
  tree.put place text

/-- The tree with the given files. -/
def ofFiles (files : List (String × String)) : FileTree :=
  files.foldl (fun tree (path, text) => tree.add path text) {}

end FileTree
end CommandLine
end SyntaxDump
