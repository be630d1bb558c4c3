import SyntaxDump.Toml.Moment.Reader
import SyntaxDump.Toml.Number
import SyntaxDump.Toml.Resolve

/-!
# Reading TOML

A document consists of lines: headers of tables, entries, comments and empty
lines.  Arrays may run over several lines, inline tables may not.  Values may
be nested to a fixed depth, so reading a value recurs on how much of it
remains.
-/

namespace SyntaxDump
namespace Toml

/-! ## Keys -/

def isBareChar (c : Char) : Bool := c.isAlphanum || c == '_' || c == '-'

/-- A key without points. -/
def readName (cs : List Char) : Option (String × List Char) :=
  match cs.takeWhile isBareChar with
  | [] => readShortString cs
  | name => some (String.ofList name, cs.dropWhile isBareChar)

/-- How many parts a key may have, and how deep values may be nested. -/
def depthLimit : Nat := 79

/-- Names with points between them and blanks around them. -/
def readNames : (limit : Nat) → Reader (List String)
  | 0, _ => none
  | limit + 1, cs => do
      let (name, cs) ← readName (skipBlanks cs)
      match skipBlanks cs with
      | '.' :: rest =>
          let (names, rest) ← readNames limit rest
          return (name :: names, rest)
      | rest => return ([name], rest)

/-- A key, with the blanks around it. -/
def readKey (cs : List Char) : Option (Key × List Char) := do
  let (names, rest) ← readNames depthLimit cs
  match names.reverse with
  | name :: parents => some (⟨parents.reverse, name⟩, rest)
  | [] => none

/-- A key, the sign behind it, and a value read by `value`. -/
def readEntry (value : Reader Value) (cs : List Char) : Option ((Key × Value) × List Char) := do
  let (key, cs) ← readKey cs
  match cs with
  | '=' :: rest =>
      let (item, rest) ← value (skipBlanks rest)
      return ((key, item), rest)
  | _ => none

/-! ## Values -/

/-- The items of an array up to the closing bracket.  A comma may stand behind
the last one.  Every item uses up a character of `bound`, which is the text that
contains all of them. -/
def readItems (value : Reader Value) : (bound : List Char) → Reader (List Value)
  | [], _ => none
  | _ :: bound, cs =>
      match skipFiller false cs with
      | ']' :: rest => some ([], rest)
      | cs => do
          let (item, cs) ← value cs
          match skipFiller false cs with
          | ']' :: rest => return ([item], rest)
          | ',' :: rest =>
              let (items, rest) ← readItems value bound rest
              return (item :: items, rest)
          | _ => none

/-- The entries of an inline table up to the closing brace; there is at least
one.  Every entry uses up a character of `bound`. -/
def readInlineEntries (value : Reader Value) : (bound : List Char) → Reader (List (Key × Value))
  | [], _ => none
  | _ :: bound, cs => do
      let (entry, cs) ← readEntry value cs
      match skipBlanks cs with
      | '}' :: rest => return ([entry], rest)
      | ',' :: rest =>
          let (entries, rest) ← readInlineEntries value bound rest
          return (entry :: entries, rest)
      | _ => none

/-- An inline table, behind the opening brace. -/
def readInlineTable (value : Reader Value) (cs : List Char) : Option (Value × List Char) :=
  match skipBlanks cs with
  | '}' :: rest => some (.table [], rest)
  | cs => do
      let (entries, rest) ← readInlineEntries value cs cs
      let table ← inlineTable? entries
      return (table, rest)

def readBool (cs : List Char) : Option (Value × List Char) :=
  match "true".toList.isPrefixOf? cs, "false".toList.isPrefixOf? cs with
  | some rest, _ => some (.bool true, rest)
  | none, some rest => some (.bool false, rest)
  | none, none => none

/-- A value without parts. -/
def readScalar (cs : List Char) : Option (Value × List Char) :=
  match cs with
  | [] => none
  | c :: _ =>
      if c = '"' ∨ c = apostrophe then (readString cs).map fun (text, rest) => (.string text, rest)
      else if c = 't' ∨ c = 'f' then readBool cs
      else
        match readMoment .literal cs with
        | some (moment, rest) => some (.moment moment, rest)
        | none => readNumber cs

/-- A value in which `depth` more arrays and inline tables may be nested. -/
def readValue : (depth : Nat) → Reader Value
  | 0, cs => readScalar cs
  | depth + 1, cs =>
      match cs with
      | '[' :: rest =>
          (readItems (readValue depth) rest rest).map fun (items, rest) =>
            (.array items, rest)
      | '{' :: rest => readInlineTable (readValue depth) rest
      | _ => readScalar cs

/-! ## Lines -/

/-- The header of a section, behind its first bracket. -/
def readHeader (cs : List Char) : Option (Header × List Char) :=
  match cs with
  | '[' :: rest => do
      let (key, rest) ← readKey rest
      let rest ← [']', ']'].isPrefixOf? rest
      return (.element key, rest)
  | _ => do
      let (key, rest) ← readKey cs
      let rest ← [']'].isPrefixOf? rest
      return (.table key, rest)

/-- The sections from the given one on, whose entries so far are given in
reverse order.  `fuel` bounds the number of lines. -/
def readSections : (fuel : Nat) → Header → List (Key × Value) → List Char → Option (List Section)
  | 0, _, _, _ => none
  | fuel + 1, header, entries, cs =>
      match skipFiller false cs with
      | [] => some [⟨header, entries.reverse⟩]
      | '[' :: rest => do
          let (next, rest) ← readHeader rest
          let rest ← readLineEnd rest
          let sections ← readSections fuel next [] rest
          return ⟨header, entries.reverse⟩ :: sections
      | cs => do
          let (entry, rest) ← readEntry (readValue depthLimit) cs
          let rest ← readLineEnd rest
          readSections fuel header (entry :: entries) rest

/-- The text without a mark of the byte order in front of it. -/
def dropMark : List Char → List Char
  | '\ufeff' :: rest => rest
  | cs => cs

/-- The value of a document, if the text is one. -/
def read? (text : String) : Option Value := do
  let cs := dropMark text.toList
  let sections ← readSections (cs.length + 1) .document [] cs
  let document ← assemble? sections
  document.resolve?

end Toml
end SyntaxDump
