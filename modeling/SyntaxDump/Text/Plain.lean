/-!
# Plain texts

Text that comes from the user is shown without control sequences.  An escape
character starts a sequence, and how it goes on decides where it ends.  A blank
control inside a sequence is shown nevertheless, and so is what follows it: the
sequence only goes on behind the next character that cannot be shown.
-/

namespace SyntaxDump
namespace Text

/-- Where a place in a text is with respect to control sequences. -/
inductive Sequence where
  | outside
  /-- right behind an escape character -/
  | escape
  /-- behind marks that the last character of the sequence follows -/
  | marked
  /-- among the parameters of a sequence, which a letter ends -/
  | parameters
  /-- at the start of the head of a device string -/
  | head
  /-- among the parameters of a device string -/
  | headParameters
  /-- behind the marks of a device string -/
  | headMarked
  /-- in a string that a terminator ends -/
  | string
  /-- in a command that a bell ends -/
  | command
deriving DecidableEq, Repr

/-! ## Characters -/

/-- Is the character between two code points? -/
def isBetween (first last : Nat) (c : Char) : Bool :=
  decide (first ≤ c.toNat) && decide (c.toNat ≤ last)

/-- The characters from the space to the slash. -/
def isMark (c : Char) : Bool := isBetween 0x20 0x2f c

/-- The blanks among the controls. -/
def isBlankControl (c : Char) : Bool := c == '\t' || c == '\n' || c == '\x0c' || c == '\r'

/-- Can the character be shown outside of sequences? -/
def isShown (c : Char) : Bool :=
  isBetween 0x20 0x7e c || decide (0x80 ≤ c.toNat) || isBlankControl c

/-- Two controls end every sequence. -/
def isCancel (c : Char) : Bool := c == '\x18' || c == '\x1a'

/-- Does the terminator of strings occur among the bytes of the character? -/
def endsString (c : Char) : Bool := (String.utf8EncodeChar c).contains 0x9c

/-! ## Sequences -/

namespace Sequence

/-- Is a blank control shown inside the sequence? -/
def showsBlanks : Sequence → Bool
  | .outside | .escape | .marked | .parameters => true
  | _ => false

/-- Go on behind a character that is neither shown nor an escape. -/
def next : Sequence → Char → Sequence
  | .outside, _ => .outside
  | .escape, c =>
      if c = '[' then .parameters
      else if c = ']' then .command
      else if c = 'P' then .head
      else if c = 'X' ∨ c = '^' ∨ c = '_' then .string
      else if isMark c then .marked
      else if isBetween 0x30 0x7e c then .outside
      else .escape
  | .marked, c => if isBetween 0x30 0x7e c then .outside else .marked
  | .parameters, c => if isBetween 0x40 0x7e c then .outside else .parameters
  | .head, c =>
      if isMark c then .headMarked
      else if isBetween 0x30 0x3f c then .headParameters
      else if isBetween 0x40 0x7e c then .string
      else .head
  | .headParameters, c =>
      if isMark c then .headMarked
      else if isBetween 0x3c 0x7e c then .string
      else .headParameters
  | .headMarked, c => if isBetween 0x30 0x7e c then .string else .headMarked
  | .string, c => if endsString c then .outside else .string
  | .command, c => if c = '\x07' then .outside else .command

end Sequence

/-- The sequence at a place, and whether the characters there are shown. -/
structure Scan where
  sequence : Sequence
  showing : Bool
deriving DecidableEq, Repr

namespace Scan

def start : Scan := ⟨.outside, false⟩

/-- Is the character shown at this place? -/
def shows (scan : Scan) (c : Char) : Bool :=
  if scan.showing || scan.sequence == .outside then isShown c
  else scan.sequence.showsBlanks && isBlankControl c

/-- Go on behind a character. -/
def step (scan : Scan) (c : Char) : Scan :=
  if c = '\x1b' then ⟨.escape, false⟩
  else if isCancel c then ⟨.outside, false⟩
  else if scan.shows c then ⟨if 0x80 ≤ c.toNat then .outside else scan.sequence, true⟩
  else ⟨scan.sequence.next c, false⟩

end Scan

/-- The characters that are shown from a place on. -/
def plainFrom : Scan → List Char → List Char
  | _, [] => []
  | scan, c :: rest =>
      if scan.shows c then c :: plainFrom (scan.step c) rest else plainFrom (scan.step c) rest

/-- The text without control sequences. -/
def plain (text : String) : String := String.ofList (plainFrom .start text.toList)

end Text
end SyntaxDump
