import Script.Token.Basic

/-!
# Operators and binding power

The two unary and eight binary operators, the tokens that write them, and how tightly each token
binds to the expression on its left.
-/

set_option autoImplicit false

namespace Script

inductive UnaryOp where
  | not | neg
  deriving DecidableEq, Repr

inductive BinaryOp where
  | mul | div | add | sub | lt | gt | eq | ne
  deriving DecidableEq, Repr

namespace UnaryOp

def symbol : UnaryOp → String
  | not => "!"
  | neg => "-"

def kind : UnaryOp → TokenKind
  | not => .bang
  | neg => .minus

def ofKind? : TokenKind → Option UnaryOp
  | .bang => some not
  | .minus => some neg
  | _ => none

theorem ofKind?_eq_some_iff {kind : TokenKind} {op : UnaryOp} :
    ofKind? kind = some op ↔ kind = op.kind := by
  cases kind <;> cases op <;> simp [ofKind?, UnaryOp.kind]

end UnaryOp

namespace BinaryOp

def symbol : BinaryOp → String
  | mul => "*"
  | div => "/"
  | add => "+"
  | sub => "-"
  | lt => "<"
  | gt => ">"
  | eq => "=="
  | ne => "!="

def kind : BinaryOp → TokenKind
  | mul => .star
  | div => .slash
  | add => .plus
  | sub => .minus
  | lt => .less
  | gt => .greater
  | eq => .equal
  | ne => .notEqual

def ofKind? : TokenKind → Option BinaryOp
  | .star => some mul
  | .slash => some div
  | .plus => some add
  | .minus => some sub
  | .less => some lt
  | .greater => some gt
  | .equal => some eq
  | .notEqual => some ne
  | _ => none

theorem ofKind?_eq_some_iff {kind : TokenKind} {op : BinaryOp} :
    ofKind? kind = some op ↔ kind = op.kind := by
  cases kind <;> cases op <;> simp [ofKind?, BinaryOp.kind]

end BinaryOp

/-- Binding power, from the weakest to the tightest. -/
inductive Precedence where
  | lowest | equality | comparison | sum | product | unary | call | index
  deriving DecidableEq, Repr

namespace Precedence

def rank : Precedence → Nat
  | lowest => 0
  | equality => 1
  | comparison => 2
  | sum => 3
  | product => 4
  | unary => 5
  | call => 6
  | index => 7

instance : LT Precedence := ⟨fun weaker tighter => weaker.rank < tighter.rank⟩

instance : LE Precedence := ⟨fun weaker tighter => weaker.rank ≤ tighter.rank⟩

instance (weaker tighter : Precedence) : Decidable (weaker < tighter) :=
  inferInstanceAs (Decidable (weaker.rank < tighter.rank))

instance (weaker tighter : Precedence) : Decidable (weaker ≤ tighter) :=
  inferInstanceAs (Decidable (weaker.rank ≤ tighter.rank))

/-- How tightly a token binds to the expression before it. A token that cannot continue an
expression has the lowest power. -/
def ofKind : TokenKind → Precedence
  | .equal | .notEqual => equality
  | .less | .greater => comparison
  | .plus | .minus => sum
  | .star | .slash => product
  | .openParen => call
  | .openBracket => index
  | _ => lowest

end Precedence

def BinaryOp.precedence (op : BinaryOp) : Precedence := .ofKind op.kind

end Script
