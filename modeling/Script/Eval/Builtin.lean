import Script.Machine

/-!
# Built-in functions on values

The number of arguments is checked first, then their kinds. The list functions leave their argument
as it is and make new lists.
-/

set_option autoImplicit false

namespace Script.Builtin

def onlyArgument : List Value → Except RuntimeError Value
  | [argument] => .ok argument
  | arguments => .error (.wrongArgumentCount arguments.length 1)

def listItems (builtin : Builtin) : Value → Except RuntimeError (List Value)
  | .list _ items => .ok items
  | argument => .error (.expectedList builtin argument.kind)

def onlyList (builtin : Builtin) (arguments : List Value) : Except RuntimeError (List Value) :=
  onlyArgument arguments >>= builtin.listItems

/-- The length of a list, or of a string in bytes. -/
def length : Value → Except RuntimeError Value
  | .str _ text => .ok (.int (Int64.ofNat text.utf8ByteSize))
  | .list _ items => .ok (.int (Int64.ofNat items.length))
  | argument => .error (.unsupportedArgument .len argument.kind)

/-- Write each value on a line of its own. A line that is refused ends the output. -/
def writeLines : List Value → Run StreamError Unit
  | [] => pure ()
  | value :: rest => do
      Run.writeLine value
      writeLines rest

def invoke : Builtin → List Value → Run RuntimeError Value
  | first, arguments => .ofExcept do
      let items ← onlyList first arguments
      return items.head?.getD .null
  | last, arguments => .ofExcept do
      let items ← onlyList last arguments
      return items.getLast?.getD .null
  | tail, arguments =>
      match onlyList tail arguments with
      | .error cause => .throw cause
      | .ok [] => pure .null
      | .ok (_ :: rest) => .allocate fun ref => .list ref rest
  | push, [list, value] =>
      match listItems push list with
      | .error cause => .throw cause
      | .ok items => .allocate fun ref => .list ref (items ++ [value])
  | push, arguments => .throw (.wrongArgumentCount arguments.length 2)
  | len, arguments => .ofExcept do
      let argument ← onlyArgument arguments
      length argument
  | puts, arguments => do
      (writeLines arguments).mapError .output
      return .null

end Script.Builtin
