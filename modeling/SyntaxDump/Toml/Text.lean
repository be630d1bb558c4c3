import SyntaxDump.Json.Reader

/-!
# Blanks, comments and strings of TOML

A reader takes the rest of the text and returns what it has read together with
what is then left, or nothing if the text is not well formed.
-/

namespace SyntaxDump
namespace Toml

abbrev Reader (α : Type) := List Char → Option (α × List Char)

/-! ## Blanks -/

def isBlank (c : Char) : Bool := c == ' ' || c == '\t'

def skipBlanks (cs : List Char) : List Char := cs.dropWhile isBlank

/-- May the character stand in a comment or a string?  Of the controls only the
tabulator may. -/
def isTextChar (c : Char) : Bool := c == '\t' || (decide (' ' ≤ c) && c != '\x7f')

/-- The rest of the text behind a line break, if it starts with one. -/
def lineBreak? : List Char → Option (List Char)
  | '\n' :: rest => some rest
  | '\r' :: '\n' :: rest => some rest
  | _ => none

/-- Skip blanks, comments and line breaks.  The flag tells whether a comment
has begun. -/
def skipFiller (comment : Bool) : List Char → List Char
  | [] => []
  | '\r' :: '\n' :: rest => skipFiller false rest
  | c :: rest =>
      if c = '\n' then skipFiller false rest
      else if comment then
        if isTextChar c then skipFiller true rest else c :: rest
      else if c = '#' then skipFiller true rest
      else if isBlank c then skipFiller false rest
      else c :: rest

/-- The rest of the text behind a comment, if it starts with one. -/
def skipComment : List Char → List Char
  | '#' :: rest => rest.dropWhile isTextChar
  | cs => cs

/-- The end of a line with an optional comment in front of it. -/
def readLineEnd (cs : List Char) : Option (List Char) :=
  match skipComment (skipBlanks cs) with
  | [] => some []
  | rest => lineBreak? rest

/-! ## Strings -/

/-- The quote of literal strings. -/
def apostrophe : Char := Char.ofNat 39

/-- Put characters in front of a string that has been read. -/
def prepend (cs : List Char) (result : Option (List Char × List Char)) :
    Option (List Char × List Char) :=
  result.map fun (text, rest) => (cs ++ text, rest)

/-- The character that a letter behind a backslash stands for. -/
def unescape? (c : Char) : Option Char :=
  if c = '"' ∨ c = '\\' then some c
  else if c = 'b' then some '\x08'
  else if c = 'f' then some '\x0c'
  else if c = 'n' then some '\n'
  else if c = 'r' then some '\r'
  else if c = 't' then some '\t'
  else none

/-- The character whose code point is given by hexadecimal digits. -/
def codeChar? (digits : List Char) : Option Char := do
  let code ← digits.foldlM (fun n c => (Json.hexValue? c).map (16 * n + ·)) 0
  if code.isValidChar then some (Char.ofNat code) else none

/-- A character of a string in quotes, behind a backslash. -/
def readEscape : Reader Char
  | [] => none
  | letter :: rest =>
      let wide (width : Nat) : Option (Char × List Char) :=
        let digits := rest.take width
        if digits.length < width then none
        else (codeChar? digits).map fun c => (c, rest.drop width)
      if letter = 'u' then wide 4
      else if letter = 'U' then wide 8
      else (unescape? letter).map fun c => (c, rest)

/-- The characters of a string in quotes up to the closing one.  Every character
uses up one of `bound`, which is the text that contains all of them. -/
def readBasic : (bound : List Char) → Reader (List Char)
  | [], _ => none
  | _ :: _, [] => none
  | _ :: bound, c :: rest =>
      if c = '"' then some ([], rest)
      else if c = '\\' then
        match readEscape rest with
        | some (c, rest) => prepend [c] (readBasic bound rest)
        | none => none
      else if isTextChar c then prepend [c] (readBasic bound rest)
      else none

/-- The characters of a string in apostrophes up to the closing one. -/
def readLiteral : Reader (List Char)
  | [] => none
  | c :: rest =>
      if c = apostrophe then some ([], rest)
      else if isTextChar c then prepend [c] (readLiteral rest)
      else none

/-- The quotes at the front of a text, at most `limit` of them. -/
def takeQuotes (quote : Char) (limit : Nat) (cs : List Char) : List Char :=
  (cs.take limit).takeWhile (· == quote)

/-- The end of a string over several lines: three quotes, before which up to
two more belong to the string. -/
def closing? (quote : Char) (cs : List Char) : Option (List Char × List Char) :=
  let quotes := takeQuotes quote 5 cs
  if quotes.length < 3 then none else some (quotes.drop 3, cs.drop quotes.length)

/-- Does a backslash end the line? -/
def continues (cs : List Char) : Bool := (lineBreak? (skipBlanks cs)).isSome

/-- The characters of a string in three quotes.  While `trimming`, which starts
with a backslash at the end of a line, blanks and line breaks are left out.
Every character uses up one of `bound`. -/
def readLongBasic : (bound : List Char) → (trimming : Bool) → Reader (List Char)
  | [], _, _ => none
  | _ :: bound, trimming, cs =>
      match closing? '"' cs with
      | some ending => some ending
      | none =>
          match lineBreak? cs with
          | some rest =>
              if trimming then readLongBasic bound true rest
              else prepend ['\n'] (readLongBasic bound false rest)
          | none =>
              match cs with
              | [] => none
              | c :: rest =>
                  if trimming && isBlank c then readLongBasic bound true rest
                  else if c = '\\' then
                    if continues rest then readLongBasic bound true rest
                    else
                      match readEscape rest with
                      | some (c, rest) => prepend [c] (readLongBasic bound false rest)
                      | none => none
                  else if isTextChar c then prepend [c] (readLongBasic bound false rest)
                  else none

/-- The characters of a string in three apostrophes.  Every one uses up one of
`bound`. -/
def readLongLiteral : (bound : List Char) → Reader (List Char)
  | [], _ => none
  | _ :: bound, cs =>
      match closing? apostrophe cs with
      | some ending => some ending
      | none =>
          match lineBreak? cs with
          | some rest => prepend ['\n'] (readLongLiteral bound rest)
          | none =>
              match cs with
              | [] => none
              | c :: rest =>
                  if isTextChar c then prepend [c] (readLongLiteral bound rest) else none

/-- A string in quotes or apostrophes on one line. -/
def readShortString : Reader String
  | [] => none
  | c :: rest =>
      let result :=
        if c = '"' then readBasic rest rest
        else if c = apostrophe then readLiteral rest
        else none
      result.map fun (cs, rest) => (String.ofList cs, rest)

/-- A string.  A line break right behind three opening quotes is left out. -/
def readString (cs : List Char) : Option (String × List Char) :=
  let body := (lineBreak? (cs.drop 3)).getD (cs.drop 3)
  if takeQuotes '"' 3 cs = ['"', '"', '"'] then
    (readLongBasic cs false body).map fun (cs, rest) => (String.ofList cs, rest)
  else if takeQuotes apostrophe 3 cs = [apostrophe, apostrophe, apostrophe] then
    (readLongLiteral cs body).map fun (cs, rest) => (String.ofList cs, rest)
  else readShortString cs

end Toml
end SyntaxDump
