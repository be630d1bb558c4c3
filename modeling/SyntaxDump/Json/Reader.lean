import SyntaxDump.Json.Error
import SyntaxDump.Json.Numeral

/-!
# Reading JSON

A reader takes the rest of the text and returns what it has read together with
what is then left.  A failure remembers how much was left unread, from which
its place in the text follows.

Containers may be nested to a fixed depth, so reading a value recurs on how
much of it remains.  The items of one container are read one after the other
by a loop that is the same for all uses: what is done with an item or a member
is a parameter of it.
-/

namespace SyntaxDump
namespace Json

/-- What a reader returns, unless the text is at fault. -/
abbrev Result := Except Failure

/-- Fail where the rest of the text begins. -/
def failAt {α : Type} (error : GrammarError) (rest : List Char) : Result (α × List Char) :=
  .error ⟨.grammar error, byteCount rest⟩

/-- Fail behind the first byte of the rest of the text, if there is one. -/
def failPast {α : Type} (error : GrammarError) (rest : List Char) : Result (α × List Char) :=
  .error ⟨.grammar error, byteCount rest - 1⟩

/-! ## Blanks and words -/

def isBlank (c : Char) : Bool := c == ' ' || c == '\t' || c == '\n' || c == '\r'

def skipBlanks (cs : List Char) : List Char := cs.dropWhile isBlank

/-- Read the given characters. -/
def readWord : List Char → List Char → Result (Unit × List Char)
  | [], cs => .ok ((), cs)
  | _ :: _, [] => failAt .valueEnds []
  | expected :: word, c :: rest =>
      if c = expected then readWord word rest else failPast .expectedWord (c :: rest)

/-! ## Strings -/

/-- The value of a hexadecimal digit. -/
def hexValue? (c : Char) : Option Nat :=
  if Decimal.isDigit c then some (c.toNat - '0'.toNat)
  else if 'a' ≤ c ∧ c ≤ 'f' then some (c.toNat - 'a'.toNat + 10)
  else if 'A' ≤ c ∧ c ≤ 'F' then some (c.toNat - 'A'.toNat + 10)
  else none

/-- The value of four hexadecimal digits. -/
def hexUnit? (a b c d : Char) : Option Nat := do
  let a ← hexValue? a
  let b ← hexValue? b
  let c ← hexValue? c
  let d ← hexValue? d
  return ((a * 16 + b) * 16 + c) * 16 + d

/-- The character that a letter behind a backslash stands for. -/
def unescape? (c : Char) : Option Char :=
  if c = '"' ∨ c = '\\' ∨ c = '/' then some c
  else if c = 'b' then some '\x08'
  else if c = 'f' then some '\x0c'
  else if c = 'n' then some '\n'
  else if c = 'r' then some '\r'
  else if c = 't' then some '\t'
  else none

/-- The failure of an escape whose four digits are not there or are none. -/
def failHex {α : Type} (rest : List Char) : Result (α × List Char) :=
  if byteCount rest < 4 then failAt .stringEnds []
  else .error ⟨.grammar .invalidEscape, byteCount rest - 4⟩

/-- Put a character in front of a string that has been read. -/
def consChar (c : Char) (result : Result (List Char × List Char)) :
    Result (List Char × List Char) :=
  result.map fun (cs, rest) => (c :: cs, rest)

/-- The characters of a string up to the closing quote.  Two escapes that form
a surrogate pair are one character; a single surrogate is an error. -/
def readString : List Char → Result (List Char × List Char)
  | [] => failAt .stringEnds []
  | c :: rest =>
      if c = '"' then .ok ([], rest)
      else if c = '\\' then
        match rest with
        | [] => failAt .stringEnds []
        | letter :: rest =>
            if letter = 'u' then
              match rest with
              | h₁ :: h₂ :: h₃ :: h₄ :: rest =>
                  match hexUnit? h₁ h₂ h₃ h₄ with
                  | none => failHex (h₁ :: h₂ :: h₃ :: h₄ :: rest)
                  | some unit =>
                      if 0xDC00 ≤ unit ∧ unit ≤ 0xDFFF then failAt .loneSurrogate rest
                      else if 0xD800 ≤ unit ∧ unit ≤ 0xDBFF then
                        match rest with
                        | [] => failAt .stringEnds []
                        | backslash :: rest =>
                            if backslash = '\\' then
                              match rest with
                              | [] => failAt .stringEnds []
                              | letter :: rest =>
                                  if letter = 'u' then
                                    match rest with
                                    | k₁ :: k₂ :: k₃ :: k₄ :: rest =>
                                        match hexUnit? k₁ k₂ k₃ k₄ with
                                        | none => failHex (k₁ :: k₂ :: k₃ :: k₄ :: rest)
                                        | some low =>
                                            if 0xDC00 ≤ low ∧ low ≤ 0xDFFF then
                                              consChar
                                                (Char.ofNat
                                                  (0x10000 + (unit - 0xD800) * 0x400 +
                                                    (low - 0xDC00)))
                                                (readString rest)
                                            else failAt .loneSurrogate rest
                                    | rest => failHex rest
                                  else failPast .unfinishedPair (letter :: rest)
                            else failPast .unfinishedPair (backslash :: rest)
                      else consChar (Char.ofNat unit) (readString rest)
              | rest => failHex rest
            else
              match unescape? letter with
              | some c => consChar c (readString rest)
              | none => failPast .invalidEscape (letter :: rest)
      else if c.toNat < 0x20 then failAt .controlCharacter rest
      else consChar c (readString rest)

/-! ## Numbers -/

/-- The digits at the front of a text and what follows them. -/
def spanDigits (cs : List Char) : List Char × List Char :=
  (cs.takeWhile Decimal.isDigit, cs.dropWhile Decimal.isDigit)

/-- Digits of which there must be at least one. -/
def readFraction : List Char → Result (Option (List Char) × List Char)
  | '.' :: cs =>
      match spanDigits cs with
      | ([], []) => failPast .valueEnds []
      | ([], rest) => failPast .invalidNumber rest
      | (digits, rest) => .ok (some digits, rest)
  | cs => .ok (none, cs)

/-- An exponent with an optional sign. -/
def readExponent : List Char → Result (Option (Bool × List Char) × List Char)
  | [] => .ok (none, [])
  | c :: cs =>
      if c = 'e' ∨ c = 'E' then
        let (negative, cs) := match cs with
          | '+' :: cs => (false, cs)
          | '-' :: cs => (true, cs)
          | cs => (false, cs)
        match spanDigits cs with
        | ([], []) => failAt .valueEnds []
        | ([], rest) => failPast .invalidNumber rest
        | (digits, rest) => .ok (some (negative, digits), rest)
      else .ok (none, c :: cs)

/-- The digits before the point: a single zero, or digits that do not start
with one. -/
def readWhole : List Char → Result (List Char × List Char)
  | [] => failAt .valueEnds []
  | c :: rest =>
      if c = '0' then
        match rest with
        | d :: _ => if Decimal.isDigit d then failPast .invalidNumber rest else .ok (['0'], rest)
        | [] => .ok (['0'], [])
      else if Decimal.isDigit c then
        let (digits, rest) := spanDigits rest
        .ok (c :: digits, rest)
      else failPast .invalidNumber (c :: rest)

/-- The parts of a number. -/
def readNumeral (cs : List Char) : Result (Numeral × List Char) := do
  let (negative, cs) := match cs with
    | '-' :: cs => (true, cs)
    | cs => (false, cs)
  let (whole, cs) ← readWhole cs
  let (fraction, cs) ← readFraction cs
  let (exponent, cs) ← readExponent cs
  return (⟨negative, whole, fraction, exponent⟩, cs)

def readNumber (cs : List Char) : Result (Value × List Char) := do
  let (numeral, rest) ← readNumeral cs
  match numeral.value with
  | .ok value => return (value, rest)
  | .error unread => .error ⟨.grammar .numberOutOfRange, byteCount rest + unread⟩

/-! ## Containers -/

/-- Items up to the closing bracket, with the first one at hand.  Every item uses
up a character of `bound`, which is the text that contains all of them. -/
def readItemsFrom {σ : Type} (item : σ → List Char → Result (σ × List Char)) :
    (bound : List Char) → σ → List Char → Result (σ × List Char)
  | [], _, cs => failAt .listEnds cs
  | _ :: bound, state, cs => do
      let (state, cs) ← item state cs
      match skipBlanks cs with
      | [] => failPast .listEnds []
      | c :: rest =>
          if c = ']' then .ok (state, rest)
          else if c = ',' then
            match skipBlanks rest with
            | [] => failPast .valueEnds []
            | c :: rest =>
                if c = ']' then failPast .trailingComma (c :: rest)
                else readItemsFrom item bound state (c :: rest)
          else failPast .expectedCommaOrBracket (c :: rest)

/-- The items of a list, behind its opening bracket. -/
def readItems {σ : Type} (item : σ → List Char → Result (σ × List Char)) (state : σ)
    (cs : List Char) : Result (σ × List Char) :=
  match skipBlanks cs with
  | [] => failPast .listEnds []
  | c :: rest =>
      if c = ']' then .ok (state, rest)
      else readItemsFrom item (c :: rest) state (c :: rest)

/-- Members up to the closing brace, with the quote of the first name at hand.
What is done with a name may look at the text behind it.  Every member uses up
a character of `bound`, which is the text that contains all of them. -/
def readMembersFrom {σ : Type} (member : σ → String → List Char → Result (σ × List Char)) :
    (bound : List Char) → σ → List Char → Result (σ × List Char)
  | [], _, cs => failAt .objectEnds cs
  | _ :: bound, state, cs => do
      let (name, cs) ← readString (cs.drop 1)
      let (state, cs) ← member state (String.ofList name) cs
      match skipBlanks cs with
      | [] => failPast .objectEnds []
      | c :: rest =>
          if c = '}' then .ok (state, rest)
          else if c = ',' then
            match skipBlanks rest with
            | [] => failPast .valueEnds []
            | c :: rest =>
                if c = '"' then readMembersFrom member bound state (c :: rest)
                else if c = '}' then failPast .trailingComma (c :: rest)
                else failPast .keyNotString (c :: rest)
          else failPast .expectedCommaOrBrace (c :: rest)

/-- The members of an object, behind its opening brace. -/
def readMembers {σ : Type} (member : σ → String → List Char → Result (σ × List Char)) (state : σ)
    (cs : List Char) : Result (σ × List Char) :=
  match skipBlanks cs with
  | [] => failPast .objectEnds []
  | c :: rest =>
      if c = '}' then .ok (state, rest)
      else if c = '"' then readMembersFrom member (c :: rest) state (c :: rest)
      else failPast .keyNotString (c :: rest)

/-- The colon behind a name. -/
def readColon (cs : List Char) : Result (Unit × List Char) :=
  match skipBlanks cs with
  | [] => failPast .objectEnds []
  | c :: rest => if c = ':' then .ok ((), rest) else failPast .expectedColon (c :: rest)

/-! ## Values -/

/-- How deep containers may be nested. -/
def maxDepth : Nat := 127

/-- Add an item that is read by `value` behind those read before. -/
def collectItem (value : List Char → Result (Value × List Char)) (items : List Value)
    (cs : List Char) : Result (List Value × List Char) := do
  let (item, cs) ← value cs
  return (item :: items, cs)

/-- Add a member whose value is read by `value` behind those read before. -/
def collectMember (value : List Char → Result (Value × List Char)) (members : List (String × Value))
    (name : String) (cs : List Char) : Result (List (String × Value) × List Char) := do
  let ((), cs) ← readColon cs
  let (item, cs) ← value cs
  return ((name, item) :: members, cs)

/-- A value in which `depth` more containers may be nested. -/
def readValue : (depth : Nat) → List Char → Result (Value × List Char)
  | depth, cs =>
      match skipBlanks cs with
      | [] => failPast .valueEnds []
      | c :: rest =>
          if c = 'n' then (readWord "ull".toList rest).map fun ((), rest) => (.null, rest)
          else if c = 't' then (readWord "rue".toList rest).map fun ((), rest) => (.bool true, rest)
          else if c = 'f' then
            (readWord "alse".toList rest).map fun ((), rest) => (.bool false, rest)
          else if c = '"' then
            (readString rest).map fun (cs, rest) => (.string (String.ofList cs), rest)
          else if c = '-' ∨ Decimal.isDigit c then readNumber (c :: rest)
          else if c = '[' then
            match depth with
            | 0 => failPast .tooNested (c :: rest)
            | depth + 1 =>
                (readItems (collectItem (readValue depth)) [] rest).map fun (items, rest) =>
                  (.array items.reverse, rest)
          else if c = '{' then
            match depth with
            | 0 => failPast .tooNested (c :: rest)
            | depth + 1 =>
                (readMembers (collectMember (readValue depth)) [] rest).map fun (members, rest) =>
                  (.object members.reverse, rest)
          else failPast .expectedValue (c :: rest)

end Json
end SyntaxDump
