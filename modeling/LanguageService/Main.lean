import LanguageService.Command.Run

/-!
# The `vint` command

Reads the file that the arguments name, runs the command and writes out what it leaves behind.
-/

namespace LanguageService

/-- the text of a file -/
def readText (path : String) : IO (Except ReadFault String) := do
  try
    match String.fromUTF8? (← IO.FS.readBinFile path) with
    | some s => return .ok s
    | none => return .error .notText
  catch
    | .noFileOrDirectory .. => return .error .notFound
    | .inappropriateType .. => return .error .isDirectory
    | e => return .error (.other (toString e))

/-- reads standard input to its end -/
partial def awaitEnd (input : IO.FS.Stream) : IO Unit := do
  if (← input.read 4096).isEmpty then return ()
  awaitEnd input

end LanguageService

open LanguageService in
def main (arguments : List String) : IO UInt32 := do
  let asked := (Command.parse arguments).toOption
  let file := asked.bind Command.file?
  let text ← match file with
    | some path => readText path
    | none => pure (.error .notFound)
  if asked = some .serve then
    awaitEnd (← IO.getStdin)
  let outcome := runArguments (fun _ => text) arguments
  IO.print outcome.stdout
  IO.eprint outcome.stderr
  match file, outcome.written with
  | some path, some new =>
    try
      IO.FS.writeFile path new
      return outcome.code.toUInt32
    catch e =>
      IO.eprint (CommandOutcome.failedBy ("Failed to write " ++ path) (toString e)).stderr
      return 1
  | _, _ => return outcome.code.toUInt32
