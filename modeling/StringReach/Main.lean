import StringReach.Cli.Run

/-!
# The command line program
-/

namespace StringReach.Cli

/-- What a file operation failed with. -/
def fault : IO.Error → FileFault
  | .noFileOrDirectory .. => .notFound
  | .inappropriateType _ code _ => if code = 20 then .notDirectory else .isDirectory
  | .permissionDenied _ code reason =>
      .refused (reason ++ " (os error " ++ code.toNat.repr ++ ")")
  | error => .refused error.toString

/-- Run a file operation. -/
def attempt {α : Type} (action : IO α) : IO (Except FileFault α) := do
  match ← action.toBaseIO with
  | .ok value => pure (.ok value)
  | .error error => pure (.error (fault error))

/-- The files of the system. -/
def systemFiles : FileAccess IO where
  read path := attempt (IO.FS.readBinFile path)
  write path text := attempt (IO.FS.writeFile path text)

end StringReach.Cli

open StringReach.Cli in
/-- Run the command line. -/
def main (arguments : List String) : IO UInt32 := do
  let begin ← IO.monoMsNow
  let clock (_ : Nat) : IO Nat := do
    let now ← IO.monoMsNow
    pure ((now - begin) / 1000)
  let response ← run systemFiles .standard clock arguments
  IO.print response.output
  if response.exitCode = 2 then
    IO.eprint usage
  if let some failure := response.failure then
    IO.eprint failure.text
  pure (UInt32.ofNat response.exitCode)
