import SyntaxDump.CommandLine.Program

/-!
# The command line

Connects the program to the files and the output of the system.
-/

namespace SyntaxDump
namespace CommandLine

/-- An error of the system. -/
def FileError.ofSystem (error : IO.Error) : FileError :=
  match error with
  | .noFileOrDirectory .. => .notFound
  | .inappropriateType _ code _ => if code = 20 then .notDirectory else .isDirectory
  | _ => .other (toString error)

/-- The files of the system. -/
def systemHost : Host IO where
  isFile path := do
    try
      let info ← (← IO.FS.realPath path).metadata
      return info.type == .file
    catch _ => return false
  read path := do
    try
      let bytes ← IO.FS.readBinFile path
      match String.fromUTF8? bytes with
      | some text => return .ok text
      | none => return .error .notText
    catch error => return .error (.ofSystem error)
  write path text := do
    try
      IO.FS.writeFile path text
      return .ok ()
    catch error => return .error (.ofSystem error)

end CommandLine
end SyntaxDump

/-- Run the program, print its report and end with its status. -/
def main (arguments : List String) : IO UInt32 := do
  let report ← SyntaxDump.CommandLine.run SyntaxDump.CommandLine.systemHost arguments
  (← IO.getStdout).putStr report.stdout
  (← IO.getStderr).putStr report.stderr
  return report.exit
