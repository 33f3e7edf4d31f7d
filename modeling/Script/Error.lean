import Script.Builtin
import Script.Operator
import Script.Sink
import Script.Text
import Script.Value.Kind

/-!
# Run-time errors

Why an evaluation can fail, and the message for each cause.
-/

set_option autoImplicit false

namespace Script

inductive RuntimeError where
  /-- The operator takes no operand of this kind. -/
  | unknownUnary (op : UnaryOp) (operand : ValueKind)
  /-- The operator takes no operands of these kinds. -/
  | unknownBinary (left : ValueKind) (op : BinaryOp) (right : ValueKind)
  /-- The operands have different kinds. -/
  | typeMismatch (left : ValueKind) (op : BinaryOp) (right : ValueKind)
  /-- Neither a binding nor a built-in function has this name. -/
  | unbound (name : String)
  | notCallable (kind : ValueKind)
  | wrongArgumentCount (got want : Nat)
  /-- A value of this kind cannot be a map key. -/
  | unhashable (kind : ValueKind)
  /-- A value of this kind cannot be indexed, or not by the given index. -/
  | notIndexable (kind : ValueKind)
  /-- The built-in function takes no argument of this kind. -/
  | unsupportedArgument (builtin : Builtin) (kind : ValueKind)
  /-- The built-in function takes a list. -/
  | expectedList (builtin : Builtin) (kind : ValueKind)
  | divisionByZero
  /-- As many calls as the limit allows were already active. -/
  | callDepthExceeded (limit : Nat)
  /-- Output was refused. -/
  | output (cause : StreamError)
  deriving DecidableEq, Repr

def RuntimeError.message : RuntimeError → String
  | unknownUnary op operand => "unsupported operator: " ++ op.symbol ++ operand.name
  | unknownBinary left op right =>
      "unsupported operator: " ++ left.name ++ " " ++ op.symbol ++ " " ++ right.name
  | typeMismatch left op right =>
      "type mismatch: " ++ left.name ++ " " ++ op.symbol ++ " " ++ right.name
  | unbound name => "identifier not found: " ++ name
  | notCallable kind => "not a function: " ++ kind.name
  | wrongArgumentCount got want =>
      "wrong number of arguments: got " ++ Text.decimal got ++ ", want " ++ Text.decimal want
  | unhashable kind => "unusable as hash key: " ++ kind.name
  | notIndexable kind => "index operator not supported: " ++ kind.name
  | unsupportedArgument builtin kind =>
      "argument to `" ++ builtin.name ++ "` not supported, got " ++ kind.name
  | expectedList builtin kind =>
      "argument to `" ++ builtin.name ++ "` must be LIST, got " ++ kind.name
  | divisionByZero => "division by zero"
  | callDepthExceeded limit => "maximum call depth exceeded (" ++ Text.decimal limit ++ ")"
  | output cause => "could not write output: " ++ cause.message

end Script
