import SyntaxDump.Interchange.Decode
import SyntaxDump.Interchange.Encode

/-!
# Documents

A document holds one tree.  While the outermost container is read, its kind is
decoded at once, so that a fault of it has a place in the text; all other
values are only kept, and decoded when the container has been read.
-/

namespace SyntaxDump
namespace Interchange

open Json (Value Failure ContentError GrammarError Result byteCount skipBlanks)

/-- Why a text is not a tree. -/
inductive ReadError where
  /-- a fault with a place in the text -/
  | located (cause : Json.Error) (position : Json.Position)
  /-- a fault found after the text has been read -/
  | content (error : ContentError)
deriving DecidableEq, Repr

def ReadError.message : ReadError → String
  | .located cause position => cause.message ++ position.message
  | .content error => error.message

/-! ## The outermost container -/

/-- The kind of the root, as far as it is known, and what else was found, the
last item or member first. -/
structure Opened (α : Type) where
  kind : Option Kind
  found : List α

/-- Fail with a fault of the content where the rest of the text begins. -/
def failContent {α : Type} (error : ContentError) (rest : List Char) : Result α :=
  .error ⟨.content error, byteCount rest⟩

/-- Give a decoded value the place behind it. -/
def locate {α : Type} (decoded : Decoded α) (rest : List Char) : Result (α × List Char) :=
  match decoded with
  | .ok value => .ok (value, rest)
  | .error error => failContent error rest

/-- The kind of the root, which must be given by its word. -/
def readKind (cs : List Char) : Result (Kind × List Char) :=
  match skipBlanks cs with
  | '[' :: rest => failContent (.invalidType "sequence" "variant identifier") ('[' :: rest)
  | '{' :: rest => failContent (.invalidType "map" "variant identifier") ('{' :: rest)
  | cs => do
      match ← Json.readValue 0 cs with
      | (.string word, rest) => locate (nodeFamily.ofWord word) rest
      | (value, rest) => locate (wrongType value "variant identifier") rest

/-- The rest of the text behind blanks and a closing brace, if one is there. -/
def skipBrace (cs : List Char) : List Char :=
  match skipBlanks cs with
  | '}' :: rest => rest
  | rest => rest

/-- How deep the values inside the root may be nested. -/
def innerDepth : Nat := Json.maxDepth - 1

/-- Take a member of the root. -/
def rootMember (state : Opened (String × Value)) (name : String) (cs : List Char) :
    Result (Opened (String × Value) × List Char) :=
  if name = "kind" then
    if state.kind.isSome then failContent (.duplicateField "kind") (skipBrace cs)
    else do
      let ((), cs) ← Json.readColon cs
      let (kind, cs) ← readKind cs
      return ({ state with kind := some kind }, cs)
  else do
    let (found, cs) ← Json.collectMember (Json.readValue innerDepth) state.found name cs
    return ({ state with found }, cs)

/-- Take an item of the root, the first of which is its kind. -/
def rootItem (state : Opened Value) (cs : List Char) : Result (Opened Value × List Char) :=
  if state.kind.isSome then do
    let (found, cs) ← Json.collectItem (Json.readValue innerDepth) state.found cs
    return ({ state with found }, cs)
  else do
    let (kind, cs) ← readKind cs
    return ({ state with kind := some kind }, cs)

/-- The kind of the root and its content. -/
def readRoot (cs : List Char) : Result ((Kind × Content) × List Char) :=
  match skipBlanks cs with
  | '[' :: rest => do
      match ← Json.readItems rootItem ⟨none, []⟩ rest with
      | (⟨some kind, found⟩, rest) => return ((kind, .items found.reverse), rest)
      | (⟨none, _⟩, rest) => failContent (.missingField "kind") rest
  | '{' :: rest => do
      match ← Json.readMembers rootMember ⟨none, []⟩ rest with
      | (⟨some kind, found⟩, rest) => return ((kind, .members found.reverse), rest)
      | (⟨none, _⟩, rest) => failContent (.missingField "kind") rest
  | cs => do
      let (value, rest) ← Json.readValue 0 cs
      locate (nodeFamily.wrong value) rest

/-- Add the place of a failure. -/
def atPosition {α : Type} (cs : List Char) : Result α → Except ReadError α
  | .ok value => .ok value
  | .error failure => .error (.located failure.cause (failure.position cs))

/-- Nothing but blanks may follow the root. -/
def readEnd (cs : List Char) : Result Unit :=
  match skipBlanks cs with
  | [] => .ok ()
  | rest => .error ⟨.grammar .trailingCharacters, byteCount rest - 1⟩

/-- The tree of a document. -/
def read (text : String) : Except ReadError Node := do
  let cs := text.toList
  let ((kind, content), rest) ← atPosition cs (readRoot cs)
  let node ← (nodeOfContent (nodeOf Json.maxDepth) (typeOf Json.maxDepth) kind content).mapError
    ReadError.content
  atPosition cs (readEnd rest)
  return node

/-- The document of a tree. -/
def write (style : Json.Style) (node : Node) : String := (encode node).text style

end Interchange
end SyntaxDump
