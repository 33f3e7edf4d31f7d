/-!
# Built-in functions

The functions that every program can name without binding them. A binding of the same name hides
the built-in function.
-/

set_option autoImplicit false

namespace Script

inductive Builtin where
  | first | last | len | push | puts | tail
  deriving DecidableEq, Repr

namespace Builtin

/-- All built-in functions, in the order of their names. -/
def all : List Builtin := [first, last, len, push, puts, tail]

def name : Builtin → String
  | first => "first"
  | last => "last"
  | len => "len"
  | push => "push"
  | puts => "puts"
  | tail => "tail"

def describe (builtin : Builtin) : String := "<builtin " ++ builtin.name ++ ">"

def ofName? (name : String) : Option Builtin :=
  all.find? fun builtin => builtin.name == name

@[simp]
theorem ofName?_name (builtin : Builtin) : ofName? builtin.name = some builtin := by
  cases builtin <;> decide

end Builtin

end Script
