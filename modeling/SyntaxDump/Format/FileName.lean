/-!
# Extensions of file names

The name of a file is the last part of its path; its extension follows the
last point of the name, unless the name starts with that point.
-/

namespace SyntaxDump
namespace FileName

/-- Split a text at every occurrence of a character. -/
def splitAt (separator : Char) : List Char → List (List Char)
  | [] => [[]]
  | c :: rest =>
      if c = separator then [] :: splitAt separator rest
      else
        match splitAt separator rest with
        | part :: parts => (c :: part) :: parts
        | [] => [[c]]

/-- The parts of a path, without empty parts and those that stay where they
are. -/
def parts (path : String) : List (List Char) :=
  (splitAt '/' path.toList).filter fun part => part != [] && part != ['.']

/-- The last part of a path, unless it leads upwards. -/
def fileName? (path : String) : Option (List Char) :=
  match (parts path).getLast? with
  | some name => if name = ['.', '.'] then none else some name
  | none => none

/-- What follows the last point of a name that has one behind its first
character. -/
def extensionOf? (name : List Char) : Option (List Char) :=
  match (splitAt '.' name).reverse with
  | last :: before :: more => if before = [] ∧ more = [] then none else some last
  | _ => none

/-- The extension of a path. -/
def extension? (path : String) : Option String := do
  let name ← fileName? path
  let extension ← extensionOf? name
  return String.ofList extension

end FileName
end SyntaxDump
