/-
The command on the files of the machine.
-/
import TermMarkup.Command

namespace TermMarkup.Command

/-- The fault behind an error of the machine. -/
def faultOf : IO.Error → FileFault
  | .noFileOrDirectory _ _ _ => .notFound
  | .inappropriateType _ code _ => if code == 20 then .notDirectory else .isDirectory
  | error => .other (toString error)

/-- The outcome of an action, its error as a fault. -/
def attempt {α : Type} (action : IO α) : IO (Except FileFault α) := do
  match ← action.toBaseIO with
  | .ok value => return .ok value
  | .error error => return .error (faultOf error)

/-- The files of the machine. -/
def machine : FileSystem IO where
  isPresent path := do
    match ← attempt (IO.FS.readFile path) with
    | .error .notFound | .error .notDirectory => return false
    | _ => return true
  read path := attempt (IO.FS.readFile path)
  write path text := attempt (IO.FS.writeFile path text)
  standardInput := attempt do (← IO.getStdin).readToEnd
  print text := attempt do
    let out ← IO.getStdout
    out.putStr text
    out.flush

end TermMarkup.Command

/-- Does what the arguments ask for, and exits with the code of the outcome. -/
def main (arguments : List String) : IO UInt32 := do
  let outcome ← TermMarkup.Command.answer TermMarkup.Command.machine arguments
  IO.eprint outcome.standardError
  return UInt32.ofNat outcome.exit
