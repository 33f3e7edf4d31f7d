/-!
# Kinds of values

The kinds that run-time errors and map keys tell apart, with the names that messages use.
-/

set_option autoImplicit false

namespace Script

/-- The kind of a value. `returned` and `error` mark an unwinding `return` and a caught failure. -/
inductive ValueKind where
  | int | bool | str | null | list | map | function | builtin | returned | error
  deriving DecidableEq, Repr

def ValueKind.name : ValueKind → String
  | int => "INTEGER"
  | bool => "BOOLEAN"
  | str => "STRING"
  | null => "NULL"
  | list => "LIST"
  | map => "MAP"
  | function => "FUNCTION"
  | builtin => "BUILTIN"
  | returned => "RETURN_VALUE"
  | error => "ERROR"

end Script
