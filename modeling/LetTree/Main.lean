import LetTree.Command.Run

/-!
# The program

The command line on the file system of the machine.
-/

namespace LetTree

/-- The cause behind an error of the operating system. The number of the error may come negated. -/
def FileError.ofSystem (e : IO.Error) : FileError :=
  match e with
  | .noFileOrDirectory .. => .notFound
  | .inappropriateType _ code _ =>
    if code = 20 || code = -20 then .notDirectory
    else if code = 21 || code = -21 then .isDirectory
    else .other (toString e)
  | e => .other (toString e)

/-- Runs an action and keeps its failure as a value. -/
def attempt {α : Type} (action : IO α) : IO (Except FileError α) := do
  match ← action.toBaseIO with
  | .ok a => return .ok a
  | .error e => return .error (.ofSystem e)

def machine : Host IO where
  read path := do
    match ← attempt (IO.FS.readBinFile path) with
    | .error e => return .error e
    | .ok bytes =>
      match String.fromUTF8? bytes with
      | some s => return .ok s
      | none => return .error .notText
  isFile path := do
    match ← attempt (do return (← (← IO.FS.realPath path).metadata).type) with
    | .ok .file => return true
    | _ => return false
  write path text := attempt (IO.FS.writeFile path text)

end LetTree

def main (args : List String) : IO UInt32 := do
  let outcome ← LetTree.Run.program .own LetTree.machine (← IO.getEnv "RUST_LOG") args
  IO.print outcome.stdout
  IO.eprint outcome.stderr
  return outcome.code.toUInt32
