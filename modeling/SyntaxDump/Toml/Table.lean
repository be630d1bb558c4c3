import SyntaxDump.Toml.Value

/-!
# Putting a document together

A document is a sequence of sections.  Each defines a table once: a table that
was opened by a header cannot be opened again, one that came into being through
a dotted key cannot be opened by a header, and no entry is given twice.  A
table that so far only stands on the way to another one may still be opened.
-/

namespace SyntaxDump
namespace Toml

/-- How a table came into being. -/
inductive Origin where
  /-- it stands on the way to the table of a header -/
  | implied
  /-- it stands on the way to the entry of a dotted key -/
  | dotted
  /-- it was opened by a header -/
  | header
deriving DecidableEq, Repr

/-- What stands under a name while a document is put together. -/
inductive Item where
  | value (value : Value)
  | table (origin : Origin) (entries : List (String × Item))
  /-- an array of tables, one for each of its headers -/
  | tables (elements : List (List (String × Item)))

abbrev Entries := List (String × Item)

/-- A table under construction. -/
structure Table where
  origin : Origin
  entries : Entries

namespace Entries

/-- Replace the item with the given name, or add it at the end. -/
def set (name : String) (item : Item) : Entries → Entries
  | [] => [(name, item)]
  | (other, old) :: rest =>
      if other = name then (name, item) :: rest else (other, old) :: set name item rest

/-- Put an item at the end, in place of one that has its name. -/
def move (name : String) (item : Item) (entries : Entries) : Entries :=
  (entries.filter (·.1 != name)) ++ [(name, item)]

end Entries

namespace Table

/-- Change the table that a path leads to.  Tables that are missing on the way
are made with the given origin.  A dotted key may not enter a table that was
opened by a header; the path enters an array of tables at its last element. -/
def changeAt (missing : Origin) (change : Table → Option Table) :
    List String → Table → Option Table
  | [], table => change table
  | name :: path, table =>
      match table.entries.lookup name with
      | none => do
          let child ← changeAt missing change path ⟨missing, []⟩
          return { table with
            entries := table.entries ++ [(name, .table child.origin child.entries)] }
      | some (.value _) => none
      | some (.table origin entries) =>
          if missing = .dotted ∧ origin = .header then none
          else do
            let child ← changeAt missing change path ⟨origin, entries⟩
            return { table with
              entries := Entries.set name (.table child.origin child.entries) table.entries }
      | some (.tables elements) =>
          match elements.reverse with
          | [] => none
          | last :: before => do
              let child ← changeAt missing change path ⟨.header, last⟩
              return { table with
                entries :=
                  Entries.set name (.tables (child.entries :: before).reverse) table.entries }

/-- Give the entry of a key its value.  The last table of a dotted key must
itself stem from dotted keys. -/
def assign (table : Table) (entry : Key × Value) : Option Table :=
  let (key, value) := entry
  table.changeAt .dotted
    (fun table =>
      if (table.origin = .dotted ↔ key.parents = []) then none
      else if (table.entries.lookup key.name).isSome then none
      else some { table with entries := table.entries ++ [(key.name, .value value)] })
    key.parents

/-- Give several entries their values. -/
def fill (table : Table) (entries : List (Key × Value)) : Option Table :=
  entries.foldlM assign table

/-- A table opened by a header, so far without entries. -/
def opened : Table := ⟨.header, []⟩

end Table

/-! ## Values of finished tables -/

mutual
def Item.toValue : Item → Value
  | .value value => value
  | .table _ entries => .table (entryValues entries)
  | .tables elements => .array (elementValues elements)
def entryValues : List (String × Item) → List (String × Value)
  | [] => []
  | (name, item) :: rest => (name, item.toValue) :: entryValues rest
def elementValues : List (List (String × Item)) → List Value
  | [] => []
  | entries :: rest => .table (entryValues entries) :: elementValues rest
end

/-- The value of an inline table. -/
def inlineTable? (entries : List (Key × Value)) : Option Value := do
  let table ← Table.opened.fill entries
  return .table (entryValues table.entries)

/-! ## Sections -/

/-- What a section defines. -/
inductive Header where
  /-- the entries before the first header belong to the whole document -/
  | document
  | table (key : Key)
  /-- a new element of an array of tables -/
  | element (key : Key)
deriving DecidableEq, Repr

structure Section where
  header : Header
  entries : List (Key × Value)

/-- Open the table of a header and fill it.  From then on it stands behind all
that was there before. -/
def Table.openTable (name : String) (entries : List (Key × Value)) (table : Table) :
    Option Table := do
  let start ← match table.entries.lookup name with
    | none => some Table.opened
    | some (.table .implied entries) => some ⟨.header, entries⟩
    | some _ => none
  let child ← start.fill entries
  return { table with entries := Entries.move name (.table .header child.entries) table.entries }

/-- Append a table to an array of tables. -/
def Table.addElement (name : String) (entries : List (Key × Value)) (table : Table) :
    Option Table := do
  let before ← match table.entries.lookup name with
    | none => some []
    | some (.tables elements) => some elements
    | some _ => none
  let child ← Table.opened.fill entries
  return { table with entries := Entries.set name (.tables (before ++ [child.entries]))
                                   table.entries }

/-- Add a section to a document. -/
def Table.addSection (root : Table) (part : Section) : Option Table :=
  match part.header with
  | .document => root.fill part.entries
  | .table key => root.changeAt .implied (Table.openTable key.name part.entries) key.parents
  | .element key => root.changeAt .implied (Table.addElement key.name part.entries) key.parents

/-- The table of the document that consists of the given sections. -/
def assemble? (parts : List Section) : Option Value := do
  let root ← parts.foldlM Table.addSection Table.opened
  return .table (entryValues root.entries)

end Toml
end SyntaxDump
