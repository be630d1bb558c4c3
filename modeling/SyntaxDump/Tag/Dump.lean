import SyntaxDump.Tag.Writer

/-!
# Dumps

The dump of a tree is the text of the lines of its walk.  It exists unless one
of the lines is indented too far.
-/

namespace SyntaxDump
namespace Tag

/-- The line of an event, if it has one. -/
def Event.line? : Event → Option Line
  | .line content => some content
  | _ => none

/-- The lines of a dump. -/
def lines (root : Node) (level : Nat) : List Line := (walk root level).filterMap Event.line?

/-- The text of some lines. -/
def linesText (lines : List Line) : String :=
  String.join (lines.map fun line => String.ofList line.text)

/-- The dump of a tree, if every line can be written. -/
def dump? (root : Node) (level : Nat) : Option String :=
  if (lines root level).all Line.fits then some (linesText (lines root level)) else none

/-- Dump a tree into a sink that accepts `limit` characters. -/
def dumpTo (limit : Option Nat) (root : Node) (level : Nat) : String × Outcome :=
  let (writer, outcome) := (Writer.start limit).visit root level
  (writer.sink.text, outcome)

/-- The nodes entered on a walk with their labels and levels, in order. -/
def visits (root : Node) (level : Nat) : List (String × Nat) :=
  (walk root level).filterMap fun
    | .visiting label level => some (label, level)
    | _ => none

end Tag
end SyntaxDump
