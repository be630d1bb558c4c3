/-!
# Lines of a tag dump

A dump is a list of lines.  Each line is a tag indented by its level, one
space per level.  Nothing in a tag is escaped.
-/

namespace SyntaxDump
namespace Tag

/-- What stands on a line. -/
inductive Mark where
  /-- `<name>`, with single-quoted attributes if there are any -/
  | opening (name : String) (attributes : List (String × String))
  /-- `</name>` -/
  | closing (name : String)
  /-- `<name>text</name>` -/
  | inline (name text : String)
deriving DecidableEq, Repr

/-- A tag and its indentation. -/
structure Line where
  level : Nat
  mark : Mark
deriving DecidableEq, Repr

/-- The deepest indentation that can be written. -/
def maxLevel : Nat := 65535

/-- ` key='value'` for every attribute. -/
def attributeText : List (String × String) → List Char
  | [] => []
  | (key, value) :: rest =>
      ' ' :: (key.toList ++ "='".toList ++ value.toList ++ "'".toList) ++ attributeText rest

/-- The text of a tag. -/
def Mark.text : Mark → List Char
  | .opening name attributes => '<' :: (name.toList ++ attributeText attributes ++ ['>'])
  | .closing name => '<' :: '/' :: (name.toList ++ ['>'])
  | .inline name text =>
      '<' :: (name.toList ++ '>' :: (text.toList ++ '<' :: '/' :: (name.toList ++ ['>'])))

namespace Line

/-- The text of a line, with its indentation and the line feed. -/
def text (line : Line) : List Char :=
  List.replicate line.level ' ' ++ line.mark.text ++ ['\n']

/-- Can the line be written at all? -/
def fits (line : Line) : Bool := decide (line.level ≤ maxLevel)

end Line
end Tag
end SyntaxDump
