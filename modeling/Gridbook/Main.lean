import Gridbook.Command.Run

/-! The command line on the machine's own files. Warnings and errors go to standard error. -/
namespace Gridbook

namespace Machine

/-- Why the machine refused, in the terms of `FileError`. -/
def fileError : IO.Error → FileError
  | .noFileOrDirectory .. => .notFound
  | .permissionDenied .. => .denied
  | .alreadyExists .. => .alreadyExists
  | .inappropriateType _ 20 _ => .notAFolder
  | .inappropriateType _ 21 _ => .isAFolder
  | .resourceExhausted _ 28 _ => .noSpace
  | error => .other (toString error)

def attempt (action : IO α) : IO (Except FileError α) := do
  try return .ok (← action)
  catch error => return .error (fileError error)

def readText (path : Path) : IO (Except FileError String) := do
  match ← attempt (IO.FS.readBinFile path.text) with
  | .error error => return .error error
  | .ok bytes =>
    match String.fromUTF8? bytes with
    | some text => return .ok text
    | none => return .error .notText

def appendText (path : Path) (text : String) : IO Unit := do
  let file ← IO.FS.Handle.mk path.text .append
  file.putStr text

def list (path : Path) : IO (List (String × Bool)) := do
  let entries ← ((← IO.currentDir) / path.text).readDir
  entries.toList.mapM fun entry => do
    let data ← entry.path.symlinkMetadata
    return (entry.fileName, data.type matches .dir)

end Machine

instance : MonadFiles IO where
  readText := Machine.readText
  writeText path text := Machine.attempt (IO.FS.writeFile path.text text)
  appendText path text := Machine.attempt (Machine.appendText path text)
  list path := Machine.attempt (Machine.list path)

instance : MonadLog IO where
  log line := if line.level = .warn then IO.eprintln line.text else pure ()

def usage : String := "usage: qgrid " ++ "|".intercalate Command.names ++ " ARGUMENTS"

end Gridbook

open Gridbook

def main (arguments : List String) : IO UInt32 := do
  match Invocation.read arguments with
  | .error _ =>
    IO.eprintln usage
    return UInt32.ofNat ExitCode.usage.number
  | .ok .help =>
    IO.println usage
    return 0
  | .ok .version =>
    IO.print Outcome.version.stdout
    return 0
  | .ok (.run command) =>
    let outcome := Outcome.ofResult (← command.run)
    IO.print outcome.stdout
    IO.eprint outcome.stderr
    return UInt32.ofNat outcome.code.number
