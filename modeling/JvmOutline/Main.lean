import JvmOutline.Cache
import JvmOutline.Outline.Report
import JvmOutline.Source.Directory

/-!
# The command line

The program takes a directory of class files and the name of a class, and prints the report of
the class.
-/

namespace JvmOutline.Main

/-- The bytes of a file, or the reason why it cannot be read. -/
def readFile (path : String) : IO (Except String Bytes) := do
  try
    return .ok (← IO.FS.readBinFile path).toList
  catch
    | .noFileOrDirectory .. => return .error Directory.absent
    | e => return .error (toString e)

/-- The outcome of outlining one class of a directory. -/
def outlineIn (root name : String) : IO (Except OutlineError ClassOutline) := do
  let directory : Directory := ⟨root⟩
  let answer ← readFile (directory.pathOf name)
  let cache := Cache.empty Cache.defaultCapacity
  let step := cache.get (directory.source fun _ => answer) .oldest name
  return step.answer.map Held.outline

end JvmOutline.Main

/-- Prints the report of the class named by the second argument. -/
def main (args : List String) : IO Unit := do
  match args with
  | root :: name :: _ =>
    match ← JvmOutline.Main.outlineIn root name with
    | .ok outline => IO.print outline.report
    | .error e => IO.eprintln ("Failed to decompile " ++ name ++ ": " ++ e.message)
  | _ => IO.eprintln "usage: jvmoutline <classes directory> <class name>"
