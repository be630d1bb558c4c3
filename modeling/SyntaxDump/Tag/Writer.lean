import SyntaxDump.Tag.Walk

/-!
# Writing lines into a bounded sink

A sink accepts a number of characters, or any number.  A write that does not
fit leaves the characters that fit and fails.  The writer puts lines into a
sink and carries the pending flag; it stops at the first write that fails, and
at the first line that is indented too far to be written.
-/

namespace SyntaxDump
namespace Tag

/-- Where the text goes. -/
structure Sink where
  /-- how many more characters fit; without a number, all of them -/
  room : Option Nat
  text : String
deriving DecidableEq, Repr

namespace Sink

def empty (limit : Option Nat) : Sink := ⟨limit, ""⟩

/-- Append a text, or as much of it as fits; did all of it fit? -/
def write (sink : Sink) (text : List Char) : Sink × Bool :=
  match sink.room with
  | none => (⟨none, sink.text ++ String.ofList text⟩, true)
  | some room =>
      (⟨some (room - text.length), sink.text ++ String.ofList (text.take room)⟩,
        decide (text.length ≤ room))

end Sink

/-- How a piece of writing ended. -/
inductive Outcome where
  | done
  /-- the sink did not take all of it -/
  | full
  /-- a line was indented further than can be written -/
  | tooDeep
deriving DecidableEq, Repr

/-- A sink and whether a declaration is pending. -/
structure Writer where
  sink : Sink
  pending : Bool
deriving DecidableEq, Repr

namespace Writer

def start (limit : Option Nat) : Writer := ⟨Sink.empty limit, false⟩

/-- Raise the pending flag. -/
def mark (writer : Writer) : Writer := { writer with pending := true }

/-- Lower the pending flag. -/
def clear (writer : Writer) : Writer := { writer with pending := false }

/-- Write one line. -/
def putLine (writer : Writer) (line : Line) : Writer × Outcome :=
  if line.fits then
    let (sink, complete) := writer.sink.write line.text
    ({ writer with sink }, if complete then .done else .full)
  else (writer, .tooDeep)

/-- Go through the events of a walk until one of them fails. -/
def follow (writer : Writer) : List Event → Writer × Outcome
  | [] => (writer, .done)
  | .visiting .. :: rest => writer.follow rest
  | .settled :: rest => writer.clear.follow rest
  | .line line :: rest =>
      match writer.putLine line with
      | (writer, .done) => writer.follow rest
      | stopped => stopped

/-- Dump a tree. -/
def visit (writer : Writer) (node : Node) (level : Nat) : Writer × Outcome :=
  writer.follow (walk node level)

end Writer

/-! ## Scripts -/

/-- A single thing to do with a writer. -/
inductive Step where
  | mark
  | openTag (name : String) (level : Nat)
  | closeTag (name : String) (level : Nat)
  | inlineTag (name text : String) (level : Nat)
  | attributeTag (name : String) (attributes : List (String × String)) (level : Nat)
  /-- an opening tag, some steps, and the closing tag if all of them succeed -/
  | wrap (name : String) (level : Nat) (body : List Step)
  | visit (node : Node) (level : Nat)
deriving Inhabited

namespace Writer

/-- Go on after a success. -/
def andThen (result : Writer × Outcome) (next : Writer → Writer × Outcome) : Writer × Outcome :=
  match result with
  | (writer, .done) => next writer
  | stopped => stopped

mutual
/-- Carry out one step. -/
def perform : Step → Writer → Writer × Outcome
  | .mark, writer => (writer.mark, .done)
  | .openTag name level, writer => writer.putLine ⟨level, .opening name []⟩
  | .closeTag name level, writer => writer.putLine ⟨level, .closing name⟩
  | .inlineTag name text level, writer => writer.putLine ⟨level, .inline name text⟩
  | .attributeTag name attributes level, writer =>
      writer.putLine ⟨level, .opening name attributes⟩
  | .wrap name level body, writer =>
      andThen (andThen (writer.putLine ⟨level, .opening name []⟩) (performAll body)) fun writer =>
        writer.putLine ⟨level, .closing name⟩
  | .visit node level, writer => writer.visit node level
/-- Carry out steps until one of them fails. -/
def performAll : List Step → Writer → Writer × Outcome
  | [], writer => (writer, .done)
  | step :: rest, writer => andThen (perform step writer) (performAll rest)
end

end Writer
end Tag
end SyntaxDump
