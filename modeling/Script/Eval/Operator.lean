import Script.Machine

/-!
# Operators on values

Integer arithmetic wraps around at 64 bits and division goes toward zero. Strings can only be
concatenated. Every other pair of values of one kind can only be compared for identity.
-/

set_option autoImplicit false

namespace Script

def UnaryOp.apply : UnaryOp → Value → Except RuntimeError Value
  | .not, value => .ok (.bool (!value.truthy))
  | .neg, .int n => .ok (.int (-n))
  | .neg, value => .error (.unknownUnary .neg value.kind)

namespace BinaryOp

def onIntegers (op : BinaryOp) (a b : Int64) : Except RuntimeError Value :=
  match op with
  | add => .ok (.int (a + b))
  | sub => .ok (.int (a - b))
  | mul => .ok (.int (a * b))
  | div => if b = 0 then .error .divisionByZero else .ok (.int (a / b))
  | lt => .ok (.bool (a < b))
  | gt => .ok (.bool (b < a))
  | eq => .ok (.bool (a = b))
  | ne => .ok (.bool (a ≠ b))

/-- The value of a binary operator on operands that are neither two integers nor two strings. -/
def onOthers (op : BinaryOp) (left right : Value) : Except RuntimeError Value :=
  if left.kind ≠ right.kind then .error (.typeMismatch left.kind op right.kind)
  else
    match op with
    | eq => .ok (.bool (left.identical right))
    | ne => .ok (.bool (!left.identical right))
    | _ => .error (.unknownBinary left.kind op right.kind)

def apply (op : BinaryOp) : Value → Value → Run RuntimeError Value
  | .int a, .int b => .ofExcept (op.onIntegers a b)
  | .str _ a, .str _ b =>
      match op with
      | add => .allocate fun ref => .str ref (a ++ b)
      | _ => .throw (.unknownBinary .str op .str)
  | left, right => .ofExcept (op.onOthers left right)

end BinaryOp

/-- The item at a position of a list, null where there is none. Positions count from zero. -/
def itemAt (items : List Value) (position : Int64) : Value :=
  if position < 0 then .null else (items[position.toInt.toNat]?).getD .null

def Value.index : Value → Value → Except RuntimeError Value
  | .list _ items, .int position => .ok (itemAt items position)
  | .map _ entries, position =>
      match position.key? with
      | none => .error (.unhashable position.kind)
      | some key => .ok ((Assoc.find? Key.hash key.hash entries).getD .null)
  | collection, _ => .error (.notIndexable collection.kind)

end Script
