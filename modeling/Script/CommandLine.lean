import Script.Repl
import Script.Source

/-!
# The command line

What the program does for its arguments, the files that it can read and its standard input. The
snippet of `-c` wins over a file. With neither there is an interactive session, and `-i` asks for
one after the source has run, in the environment that the source left. `-P` prints the canonical
text of the source instead of running it.

Everything after the options is decided here. How they are spelled in the arguments is not: that
belongs to the outer layer, `Request.ofArguments?` reads the plain spellings only, and no statement
rests on it.
-/

set_option autoImplicit false

namespace Script.CommandLine

structure Options where
  snippet : Option String
  file : Option String
  printOnly : Bool
  interactive : Bool
  deriving DecidableEq, Repr

inductive Request where
  | version
  | work (options : Options)
  deriving DecidableEq, Repr

/-- Read arguments into options, each argument being one option, the value of `-c` or the file. They
may stand in any order; there is none to read for an option that lacks its value, for an unknown
option and for a second file. A request for help (`-h`, `--help`), options that are written as one
argument (`-cCMD`, `-iP`) and a `--` before the file are not told apart from unknown options. -/
def Request.ofArguments? (options : Options) : List String → Option Request
  | [] => some (.work options)
  | "-V" :: _ | "--version" :: _ => some .version
  | "-P" :: rest => ofArguments? { options with printOnly := true } rest
  | "-i" :: rest => ofArguments? { options with interactive := true } rest
  | "-c" :: snippet :: rest => ofArguments? { options with snippet := some snippet } rest
  | argument :: rest =>
      if argument.startsWith "-" ∨ options.file.isSome then none
      else ofArguments? { options with file := some argument } rest

def parse? (arguments : List String) : Option Request :=
  Request.ofArguments? ⟨none, none, false, false⟩ arguments

def version : String := "0.3.1"

def versionLine : String := "tuna " ++ version ++ "\n"

def banner : String := "\nTuna Version " ++ version ++ "\n\n"

def Options.source? (options : Options) : Option Source :=
  match options.snippet, options.file with
  | some text, _ => some ⟨"<cmd>", .snippet text⟩
  | none, some path => some ⟨path, .file path⟩
  | none, none => none

inductive Continuation where
  | exit (code : Nat)
  | session (env : Env)
  deriving DecidableEq, Repr

/-- The state of the program after its source. Its standard output is the sink of the machine. -/
structure Progress where
  machine : Machine
  stderr : String
  next : Continuation

/-- Write to the standard output, which takes everything. -/
def print (text : String) (machine : Machine) : Machine := (Run.write text machine).2

def startSession (env : Env) (stderr : String) (machine : Machine) : Progress :=
  ⟨print banner machine, stderr, .session env⟩

def printSource (files : Files) (source : Source) (machine : Machine) : Progress :=
  match source.build files with
  | .ok program => ⟨print (program.render ++ "\n") machine, "", .exit 0⟩
  | .error error => ⟨machine, error.report source, .exit 1⟩

/-- Build and evaluate a source. The result is the report on its failure, if it failed. -/
def execute (files : Files) (source : Source) (env : Env) (machine : Machine) :
    Option String × Machine :=
  match source.build files with
  | .error error => (some (error.report source), machine)
  | .ok program =>
      match program.evaluate defaultCallLimit env machine with
      | (some (.error cause), machine) =>
          (some ("Runtime error: " ++ cause.message ++ "\n"), machine)
      | (_, machine) => (none, machine)

/-- Everything that the program does before it may turn interactive. -/
def begin (arrangement : Arrangement) (files : Files) (options : Options) : Progress :=
  let initial := (Machine.start (.empty none) arrangement).newGlobal
  let env := initial.1
  match options.source? with
  | none => startSession env "" initial.2
  | some source =>
      if options.printOnly then printSource files source initial.2
      else
        let executed := execute files source env initial.2
        let stderr := executed.1.getD ""
        if options.interactive then startSession env stderr executed.2
        else ⟨executed.2, stderr, .exit (if executed.1.isSome then 1 else 0)⟩

def sessionFailure (error : StreamError) : String := "I/O error: " ++ error.message ++ "\n"

structure Outcome where
  stdout : ByteArray
  stderr : String
  exitCode : Nat

/-- The whole program, with its standard input given at once. -/
def run (arrangement : Arrangement) (files : Files) (options : Options) (stdin : ByteArray) :
    Outcome :=
  let progress := begin arrangement files options
  match progress.next with
  | .exit code => ⟨progress.machine.sink.written, progress.stderr, code⟩
  | .session env =>
      match Repl.runInput env stdin progress.machine with
      | (.ok _, machine) => ⟨machine.sink.written, progress.stderr, 0⟩
      | (.error error, machine) =>
          ⟨machine.sink.written, progress.stderr ++ sessionFailure error, 1⟩

def Request.run (files : Files) (stdin : ByteArray) (arrangement : Arrangement := .byInsertion) :
    Request → Outcome
  | version => ⟨versionLine.toUTF8, "", 0⟩
  | work options => CommandLine.run arrangement files options stdin

end Script.CommandLine
