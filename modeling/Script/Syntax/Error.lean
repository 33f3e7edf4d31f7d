import Script.Token.Basic

/-!
# Syntax errors

What can be wrong with a source text, and the message for each fault.
-/

set_option autoImplicit false

namespace Script

/-- A fault in a source text: another token than the one required, a token that starts no
expression, or digits that denote more than the largest integer. -/
inductive SyntaxError where
  | unexpected (expected found : TokenKind)
  | noOperand (found : TokenKind)
  | integerTooLarge (digits : String)
  deriving DecidableEq, Repr

namespace SyntaxError

def message : SyntaxError → String
  | unexpected expected found =>
      "expected next token to be " ++ expected.name ++ ", got " ++ found.name ++ " instead"
  | noOperand found => "no prefix parse function for " ++ found.name ++ " found"
  | integerTooLarge digits => "could not parse \"" ++ digits ++ "\" as integer"

/-- The report on the faults of a source: a heading, then one indented line for each. -/
def report (errors : List SyntaxError) : String :=
  "parser errors:\n" ++ String.join (errors.map fun error => "\t" ++ error.message ++ "\n")

end SyntaxError

end Script
