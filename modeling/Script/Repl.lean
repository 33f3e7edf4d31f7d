import Script.Eval.Program

/-!
# Interactive sessions

A session reads lines and evaluates each as a program in one environment, so that bindings persist.
Before each line it writes a prompt. It ends at the end of the input, at a line `quit` or at one
that holds the character U+0004, and writes a line break then.

Everything is a function of the bytes that are read. `ask` and `answer` are the two halves of one
round, so that a terminal can be read between them; `run` plays all rounds on given lines.
-/

set_option autoImplicit false

namespace Script.Repl

inductive Line where
  | blank
  | quit
  | code (text : String)
  deriving DecidableEq, Repr

/-- What a session does with a line of text. White space at its end does not matter. -/
def Line.ofText (text : String) : Line :=
  let line := Text.trimEnd text.toList
  if line.isEmpty then .blank
  else if line = "quit".toList ∨ '\x04' ∈ line then .quit
  else .code (String.ofList line)

/-- Cut bytes into lines, each with the line break that ends it. The last one may lack it. -/
def splitLines : List UInt8 → List (List UInt8)
  | [] => []
  | byte :: rest =>
      if byte = 10 then [byte] :: splitLines rest
      else
        match splitLines rest with
        | [] => [[byte]]
        | line :: lines => (byte :: line) :: lines

/-- Evaluate a line and show its value. Nothing is shown for null or where there is no value. -/
def evalLine (env : Env) (line : String) : Run StreamError Unit :=
  match Program.ofSource line with
  | .error errors => Run.write (SyntaxError.report errors)
  | .ok program => fun machine =>
      match program.evaluate defaultCallLimit env machine with
      | (none, machine) => (.ok (), machine)
      | (some .null, machine) => (.ok (), machine)
      | (some value, machine) => Run.writeLine value machine

inductive Next where
  | more
  | stop
  deriving DecidableEq, Repr

def ask : Run StreamError Unit := Run.write ">> "

def close : Run StreamError Next := do
  Run.write "\n"
  return .stop

/-- Answer what was read after the prompt: the bytes of a line, or nothing at the end of the
input. -/
def answer (env : Env) : Option (List UInt8) → Run StreamError Next
  | none => close
  | some bytes =>
      match String.fromUTF8? ⟨bytes.toArray⟩ with
      | none => Run.throw .notText
      | some text =>
          match Line.ofText text with
          | .blank => return .more
          | .quit => close
          | .code line => do
              evalLine env line
              return .more

/-- A session on lines that are read already. Lines after its end are left alone. -/
def run (env : Env) : List (List UInt8) → Run StreamError Unit
  | [] => do
      ask
      let _ ← answer env none
  | line :: rest => do
      ask
      match ← answer env (some line) with
      | .more => run env rest
      | .stop => return ()

def runInput (env : Env) (input : ByteArray) : Run StreamError Unit :=
  run env (splitLines input.data.toList)

end Script.Repl
