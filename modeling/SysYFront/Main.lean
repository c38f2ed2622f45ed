import SysYFront.CommandLine

/-!
# SysYFront.Main

The command line program: reads the file that the arguments name and prints the
report of `runOnFile`.
-/

namespace SysYFront

/-- Reads the source text of a file. -/
def readSource (file : String) : IO (Except ReadFault String) := do
  try
    let bytes ← IO.FS.readBinFile file
    pure (sourceOfBytes bytes)
  catch _ =>
    pure (.error .missing)

/-- Prints a report and gives its exit code. -/
def printReport (r : Report) : IO UInt32 := do
  IO.print r.stdout
  IO.eprint r.stderr
  pure r.exitCode.toUInt32

end SysYFront

/-- Runs the program with its arguments. -/
def main (args : List String) : IO UInt32 := do
  match SysYFront.Arguments.ofList? none none args with
  | some a =>
    let content ← SysYFront.readSource a.file
    SysYFront.printReport (SysYFront.runOnFile a.file a.emit content)
  | none => SysYFront.printReport ⟨2, "", "error: " ++ SysYFront.usage ++ "\n"⟩
