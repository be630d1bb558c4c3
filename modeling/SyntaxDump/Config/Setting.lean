import SyntaxDump.Text.Lowercase
import SyntaxDump.Toml.Value

/-!
# Settings

Settings form a tree of tables and arrays.  A setting remembers the file it
came from.  Names are compared without regard to capitals; in a tree they are
all in small letters.

Layers of settings are put on top of each other: a table is merged with what
stands in its place, and everything else replaces it.
-/

namespace SyntaxDump
namespace Config

/-- A setting without parts. -/
inductive Scalar where
  /-- the place of an array that has not been filled -/
  | unset
  | bool (value : Bool)
  | integer (value : Int)
  | float (value : Binary64)
  | text (value : String)
deriving DecidableEq, Repr

/-- A setting, each part with the file it came from. -/
inductive Setting where
  | scalar (origin : Option String) (value : Scalar)
  | array (origin : Option String) (items : List Setting)
  | table (origin : Option String) (entries : List (String × Setting))
deriving Repr, Inhabited

namespace Setting

/-- A table that comes from no file. -/
def emptyTable : Setting := .table none []

mutual
/-- The setting of a value in a file. -/
def ofToml (origin : Option String) : Toml.Value → Setting
  | .bool value => .scalar origin (.bool value)
  | .integer value => .scalar origin (.integer value)
  | .float value => .scalar origin (.float value)
  | .string value => .scalar origin (.text value)
  | .moment moment => .scalar origin (.text moment.text)
  | .array items => .array origin (ofTomlItems origin items)
  | .table entries => .table origin (ofTomlEntries origin entries)
def ofTomlItems (origin : Option String) : List Toml.Value → List Setting
  | [] => []
  | item :: rest => ofToml origin item :: ofTomlItems origin rest
def ofTomlEntries (origin : Option String) : List (String × Toml.Value) → List (String × Setting)
  | [] => []
  | (name, value) :: rest => (name, ofToml origin value) :: ofTomlEntries origin rest
end

/-- Replace the entry with the given name, or add it at the end. -/
def replaceEntry (name : String) (setting : Setting) :
    List (String × Setting) → List (String × Setting)
  | [] => [(name, setting)]
  | (other, old) :: rest =>
      if other = name then (name, setting) :: rest
      else (other, old) :: replaceEntry name setting rest

/-- The setting under a name in a table. -/
def entry? (target : Setting) (name : String) : Option Setting :=
  match target with
  | .table _ entries => entries.lookup name
  | _ => none

/-- Set an entry; what is no table becomes one. -/
def setEntry (target : Setting) (name : String) (setting : Setting) : Setting :=
  match target with
  | .table origin entries => .table origin (replaceEntry name setting entries)
  | _ => .table none [(name, setting)]

mutual
/-- Put a setting under a name.  A table is merged, entry by entry, with what
stands there; everything else replaces it. -/
def put (target : Setting) (name : String) : Setting → Setting
  | .table _ entries =>
      let name := Text.lower name
      target.setEntry name (putAll ((target.entry? name).getD emptyTable) entries)
  | setting => target.setEntry (Text.lower name) setting
/-- Put settings under their names, one after the other. -/
def putAll (target : Setting) : List (String × Setting) → Setting
  | [] => target
  | (name, setting) :: rest => putAll (target.put name setting) rest
end

end Setting
end Config
end SyntaxDump
