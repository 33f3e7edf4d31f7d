import Script.CommandLine

/-!
# The program

Reads the arguments, files and the terminal, and prints. What is read and printed is decided by
`Script.CommandLine` and `Script.Repl`.
-/

set_option autoImplicit false

namespace Script.Main

/-- Print what the machine has written, and start over with an empty output. -/
def flushOutput (machine : Machine) : IO Machine := do
  let stdout ← IO.getStdout
  stdout.write machine.sink.written
  stdout.flush
  return { machine with sink := .empty none }

/-- The next line of the standard input with its line break, and the bytes that were read beyond
it. There is no line at the end of the input. -/
partial def readLine (stdin : IO.FS.Stream) (pending : ByteArray) :
    IO (Option (List UInt8) × ByteArray) := do
  match pending.data.findIdx? (· = 10) with
  | some place =>
      return (some (pending.extract 0 (place + 1)).data.toList,
        pending.extract (place + 1) pending.size)
  | none =>
      let more ← stdin.read 4096
      if more.isEmpty then
        if pending.isEmpty then return (none, pending)
        else return (some pending.data.toList, .empty)
      else readLine stdin (pending ++ more)

/-- Play the rounds of an interactive session, and give the exit code. -/
partial def playSession (env : Env) (machine : Machine) (pending : ByteArray) : IO UInt32 := do
  let (_, asked) := Repl.ask machine
  let machine ← flushOutput asked
  let (line, pending) ← readLine (← IO.getStdin) pending
  match Repl.answer env line machine with
  | (.error error, machine) =>
      let _ ← flushOutput machine
      (← IO.getStderr).putStr (CommandLine.sessionFailure error)
      return 1
  | (.ok next, machine) =>
      let machine ← flushOutput machine
      match next with
      | .stop => return 0
      | .more => playSession env machine pending

def readError : IO.Error → ReadError
  | .noFileOrDirectory .. => .notFound
  | .inappropriateType .. => .isDirectory
  | .permissionDenied .. => .os 13 "Permission denied"
  | _ => .os 5 "Input/output error"

def readFiles (options : CommandLine.Options) : IO Files := do
  match options.file with
  | none => return fun _ => .error .notFound
  | some path =>
      let contents ← try Except.ok <$> IO.FS.readBinFile path
        catch error => pure (Except.error (readError error))
      return fun _ => contents

def perform (options : CommandLine.Options) : IO UInt32 := do
  let progress := CommandLine.begin .byInsertion (← readFiles options) options
  let machine ← flushOutput progress.machine
  (← IO.getStderr).putStr progress.stderr
  match progress.next with
  | .exit code => return code.toUInt32
  | .session env => playSession env machine .empty

end Script.Main

def main (arguments : List String) : IO UInt32 := do
  match Script.CommandLine.parse? arguments with
  | some .version =>
      IO.print Script.CommandLine.versionLine
      return 0
  | some (.work options) => Script.Main.perform options
  | none =>
      (← IO.getStderr).putStr "usage: tuna [-c CMD] [-i] [-P] [FILE]\n"
      return 2
