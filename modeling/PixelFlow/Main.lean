import PixelFlow.CommandLine.Run

/-!
# The program

The outer layer of the command line: it reads the one file that a call may need, runs the call,
writes the file that comes out, and prints.
-/

namespace PixelFlow.CommandLine

/-- The reason for which a file cannot be read or written. -/
def reasonOf (e : IO.Error) : String :=
  match e with
  | .noFileOrDirectory _ _ _ => FileStore.notFound
  | .permissionDenied _ _ _ => "Permission denied (os error 13)"
  | .inappropriateType _ _ _ => FileStore.isADirectory
  | e => toString e

/-- The outcome of reading a file. -/
def readFile (path : String) : IO (Except String (List UInt8)) := do
  try
    return .ok (← IO.FS.readBinFile path).toList
  catch e => return .error (reasonOf e)

/-- The files that a call sees. -/
def filesFor (arguments : List String) : IO FileStore := do
  match arguments with
  | "process" :: input :: _ =>
    let outcome ← readFile input
    return ⟨fun path => if path = input then outcome else .error FileStore.notFound,
      fun _ => none⟩
  | _ => return ⟨fun _ => .error FileStore.notFound, fun _ => none⟩

/-- Write what a call writes; a failure is the complaint of the call. -/
def writeFile (effect : Effect) : IO Effect := do
  match effect.written with
  | none => return effect
  | some s =>
    try
      IO.FS.writeBinFile s.path ⟨s.bytes.toArray⟩
      return effect
    catch e => return .fail (.unsaved s.path (reasonOf e))

end PixelFlow.CommandLine

open PixelFlow.CommandLine in
def main (arguments : List String) : IO UInt32 := do
  let effect ← writeFile (run (← filesFor arguments) arguments)
  IO.print effect.output
  IO.eprint (effect.errorOutput .short)
  return .ofNat effect.code
