import AlertRules.CommandLine.Program
import AlertRules.FileTree
import Std.Time.DateTime

/-!
# AlertRules.Main — the program

Reads and opens files, runs the command, writes files and prints.
-/

namespace AlertRules.Main

/-- Why the system refuses, in its words. -/
def reasonOf : IO.Error → String
  | .noFileOrDirectory _ code words | .inappropriateType _ code words
  | .permissionDenied _ code words | .alreadyExists _ code words
  | .invalidArgument _ code words =>
    words ++ " (os error " ++ toString code ++ ")"
  | .userError words => words
  | e => toString e

/-- What lies under a path that cannot be opened for reading. -/
def unopened (e : IO.Error) : File.Content :=
  match e with
  | .noFileOrDirectory .. | .inappropriateType .. => .missing
  | e => .blocked (reasonOf e)

/-- Where the empty device lies. -/
def voidPath : String := "/dev/null"

/-- What lies under a path. -/
def readFile (path : String) : IO File.Content := do
  if path = voidPath then return .void
  match ← (IO.FS.Handle.mk path .read).toBaseIO with
  | .error e => pure (unopened e)
  | .ok handle =>
    match ← handle.readBinToEnd.toBaseIO with
    | .error e => pure (.blocked (reasonOf e))
    | .ok bytes => pure (.present bytes)

/-- The directory of the file is there, or cannot be created. -/
def makeParent (path : String) : IO Unit :=
  if Path.parent path = "" then pure () else IO.FS.createDirAll (Path.parent path)

/-- What lies under a path once the file has been opened for writing at its end, which creates it. -/
def openFile (path : String) : IO File.Content := do
  let attempt : IO Unit := do
    makeParent path
    if Path.hasZero path then throw (.userError FileTree.Obstacle.zeroByte.message)
    let _ ← IO.FS.Handle.mk path .append
  match ← attempt.toBaseIO with
  | .error e => pure (.blocked (reasonOf e))
  | .ok () => readFile path

/-- The effect on the files of the system. -/
def perform : CommandLine.Effect → IO Unit
  | .write path bytes => IO.FS.writeBinFile path bytes
  | .remove path => IO.FS.removeFile path

/-- The files of the system. -/
def files : CommandLine.Files IO := ⟨readFile, openFile⟩

/-- The present moment. -/
def now : IO Timestamp := do
  let t ← Std.Time.Timestamp.now
  let seconds := t.toSecondsSinceUnixEpoch.val
  pure ⟨seconds / 86400, (seconds % 86400).toNat, t.val.nano.val.toNat⟩

end AlertRules.Main

open AlertRules AlertRules.Main in
/-- The program: the arguments are carried out, and the code of the outcome is returned. -/
def main (args : List String) : IO UInt32 := do
  let environment : CommandLine.Environment :=
    { home := (← IO.getEnv "HOME").getD ""
      configPath := ← IO.getEnv "PUSH_RULES_CONFIG"
      now := ← now }
  let outcome ← CommandLine.run files environment args
  for effect in outcome.effects do
    perform effect
  IO.print outcome.output
  for message in outcome.messages do
    IO.eprintln message
  pure outcome.code.toUInt32
