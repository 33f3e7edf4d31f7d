import Script.Sink
import Script.Syntax.Parser
import Script.Syntax.Printer

/-!
# Sources

A program comes from a snippet or from a file. Building it fails when the text cannot be read or is
malformed.
-/

set_option autoImplicit false

namespace Script

/-- Why a file could not be read: the operating system refused, or the bytes are not text. -/
inductive ReadError where
  | os (code : Nat) (text : String)
  | notText
  deriving DecidableEq, Repr

def ReadError.notFound : ReadError := .os 2 "No such file or directory"

def ReadError.isDirectory : ReadError := .os 21 "Is a directory"

def ReadError.message : ReadError → String
  | os code text => text ++ " (os error " ++ Text.decimal code ++ ")"
  | notText => StreamError.notText.message

abbrev Files := String → Except ReadError ByteArray

inductive Origin where
  | snippet (text : String)
  | file (path : String)
  deriving DecidableEq, Repr

structure Source where
  name : String
  origin : Origin
  deriving DecidableEq, Repr

inductive BuildError where
  | unreadable (cause : ReadError)
  | malformed (errors : List SyntaxError)
  deriving DecidableEq, Repr

namespace Source

/-- How messages refer to a source: a snippet by its name, a file by its path. -/
def describe (source : Source) : String :=
  match source.origin with
  | .snippet _ => source.name
  | .file path => "file \"" ++ path ++ "\""

def text (files : Files) (source : Source) : Except ReadError String :=
  match source.origin with
  | .snippet text => .ok text
  | .file path =>
      match files path with
      | .error cause => .error cause
      | .ok bytes =>
          match String.fromUTF8? bytes with
          | some text => .ok text
          | none => .error .notText

def build (files : Files) (source : Source) : Except BuildError Program :=
  match source.text files with
  | .error cause => .error (.unreadable cause)
  | .ok text =>
      match Program.ofSource text with
      | .error errors => .error (.malformed errors)
      | .ok program => .ok program

end Source

def BuildError.report (source : Source) : BuildError → String
  | unreadable cause => "Error reading source: " ++ cause.message ++ ".\n"
  | malformed errors => "Errors in " ++ source.describe ++ ":\n" ++ SyntaxError.report errors

end Script
