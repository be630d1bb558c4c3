import SyntaxDump.Config.Decode
import SyntaxDump.Config.Path
import SyntaxDump.Format.FileName
import SyntaxDump.Toml.Reader

/-!
# Loading the configuration

The defaults come first, then files in their order, and last the single
settings that override all files.
-/

namespace SyntaxDump
namespace Config

/-- A file with settings. -/
structure Layer where
  name : String
  /-- must the file exist? -/
  required : Bool
deriving DecidableEq, Repr

/-- Where the configuration comes from. -/
structure Loader where
  layers : List Layer := []
  overrides : List (Path × Scalar) := []

/-- The text that comes with the program and says what holds if nothing else
does. -/
def defaultText : String :=
  "# Default configuration for mml-dump.\n#\n" ++
  "# Copy this file to `mml.toml` in the working directory (or pass one with\n" ++
  "# `--config`) and keep only the keys you want to change.\n\n[dump]\n" ++
  "# Indentation level of the root node in tag dumps. One space per level.\n" ++
  "initial_level = 0\n\n[json]\n" ++
  "# Pretty-print JSON output (two-space indentation) instead of a single line.\n" ++
  "pretty = false\n"

/-- The settings of that text.  No file is named as their origin. -/
def defaults : Setting :=
  (Toml.read? defaultText).elim (.table none []) (Setting.ofToml none)

namespace Loader

def withFile (loader : Loader) (name : String) (required : Bool) : Loader :=
  { loader with layers := loader.layers ++ [⟨name, required⟩] }

/-- Override the setting with the given key, if that is a path. -/
def withOverride? (loader : Loader) (key : String) (value : Scalar) : Option Loader :=
  (Path.parse? key).map fun path =>
    { loader with overrides := loader.overrides ++ [(path, value)] }

end Loader

/-! ## Files -/

/-- How a file is named in messages: its path without needless parts. -/
def originOf (name : String) : String :=
  (if name.startsWith "/" then "/" else "") ++
    joinWith "/" ((FileName.parts name).map String.ofList)

/-- The names under which a file is looked for: its own, and that with the
usual extension behind it. -/
def candidates (name : String) : List String :=
  match FileName.fileName? name with
  | some _ => [name, originOf name ++ ".toml"]
  | none => [name]

/-- The first of the candidates that exists, and its text. -/
def locate? (read : String → Option String) (name : String) : Option (String × String) :=
  (candidates name).findSome? fun candidate => (read candidate).map fun text => (candidate, text)

/-- What a file says: its text without a mark of the byte order. -/
def contentOf (text : String) : String := String.ofList (Toml.dropMark text.toList)

/-- Put an entry of a file into the settings.  Its name may itself be a path. -/
def putEntry (root : Setting) (name : String) (setting : Setting) : Setting :=
  match Path.parse? name with
  | some path => path.place setting root
  | none => root.put name setting

/-- Put a file on top of the settings. -/
def addLayer (read : String → Option String) (root : Setting) (layer : Layer) :
    Except LoadError Setting :=
  match locate? read layer.name with
  | some (name, text) =>
      match (Toml.read? (contentOf text)).map (Setting.ofToml (some (originOf name))) with
      | some (.table _ entries) =>
          .ok (entries.foldl (fun root (name', setting) => putEntry root name' setting) root)
      | some (.array ..) => .error (.rootNotTable "sequence" (originOf name))
      | some (.scalar _ value) => .error (.rootNotTable value.describe (originOf name))
      | none => .error .malformedFile
  | none => if layer.required then .error (.missingFile layer.name) else .ok root

/-- The configuration, with the files as `read` finds them. -/
def Loader.build (loader : Loader) (read : String → Option String) : Except LoadError Config := do
  let root ← loader.layers.foldlM (addLayer read) defaults
  decode (loader.overrides.foldl (fun root (path, value) =>
    path.place (.scalar none value) root) root)

end Config
end SyntaxDump
