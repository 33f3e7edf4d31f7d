import Mathlib.Data.Int.ModEq
import Script.Eval.Program

/-!
# Integer arithmetic

Expressions of integer literals, unary minus and arithmetic operators, whatever their size and
wherever they overflow. Without division only the exact value of the whole matters: wrapping at
each step comes to wrapping once. A quotient depends on its operands as they are after wrapping, so
that with division each step has to be followed, up to the first divisor that is zero.
-/

set_option autoImplicit false

namespace Script

/-- The signed integer of 64 bits that is congruent to `n` modulo `2 ^ 64`. -/
def wrap (n : Int) : Int := n.bmod (2 ^ 64)

namespace BinaryOp

/-- The exact result of an arithmetic operator, wrapped. Division goes toward zero, and dividing by
zero has no result. -/
def wrapped? : BinaryOp → Int → Int → Option Int
  | add, a, b => some (wrap (a + b))
  | sub, a, b => some (wrap (a - b))
  | mul, a, b => some (wrap (a * b))
  | div, a, b => if b = 0 then none else some (wrap (a.tdiv b))
  | _, _, _ => none

def compares : BinaryOp → Int → Int → Bool
  | lt, a, b => a < b
  | gt, a, b => a > b
  | eq, a, b => a = b
  | ne, a, b => a ≠ b
  | _, _, _ => false

end BinaryOp

namespace Expr

/-- Trees of integer literals, unary minus and the given operators. -/
inductive IntegerTree (ops : List BinaryOp) : Expr → Prop where
  | literal {token : Token} {value : Int64} : IntegerTree ops (.int token value)
  | negated {token : Token} {operand : Expr} :
      IntegerTree ops operand → IntegerTree ops (.unary token .neg operand)
  | combined {token : Token} {op : BinaryOp} {left right : Expr} :
      op ∈ ops → IntegerTree ops left → IntegerTree ops right →
      IntegerTree ops (.binary token op left right)

def exactValue : Expr → Int
  | .int _ value => value.toInt
  | .unary _ _ operand => -operand.exactValue
  | .binary _ .add left right => left.exactValue + right.exactValue
  | .binary _ .sub left right => left.exactValue - right.exactValue
  | .binary _ .mul left right => left.exactValue * right.exactValue
  | _ => 0

def wrapped? : Expr → Option Int
  | .int _ value => some value.toInt
  | .unary _ _ operand => operand.wrapped?.map fun n => wrap (-n)
  | .binary _ op left right => do
      let a ← left.wrapped?
      let b ← right.wrapped?
      op.wrapped? a b
  | _ => none

/-- From left to right, the first operator of the tree that has no result is a division whose
divisor is zero. What stands to the left of it has a value. -/
inductive DividesByZero : Expr → Prop where
  | here {token : Token} {left right : Expr} {a : Int} :
      left.wrapped? = some a → right.wrapped? = some 0 →
      DividesByZero (.binary token .div left right)
  | operand {token : Token} {operand : Expr} :
      DividesByZero operand → DividesByZero (.unary token .neg operand)
  | left {token : Token} {op : BinaryOp} {left right : Expr} :
      DividesByZero left → DividesByZero (.binary token op left right)
  | right {token : Token} {op : BinaryOp} {left right : Expr} {a : Int} :
      left.wrapped? = some a → DividesByZero right → DividesByZero (.binary token op left right)

end Expr

/-! ## One operator -/

private theorem wrap_modEq (n : Int) : wrap n ≡ n [ZMOD 2 ^ 64] := Int.bmod_emod

private theorem eq_of_toInt_modEq {a b : Int64} (same : a.toInt ≡ b.toInt [ZMOD 2 ^ 64]) :
    a = b := by
  have low := a.le_toInt
  have high := a.toInt_lt
  have low' := b.le_toInt
  have high' := b.toInt_lt
  apply Int64.toInt_inj.mp
  simp only [Int.ModEq] at same
  omega

namespace BinaryOp

/-- The arithmetic operators compute what they should, on all operands. -/
theorem onIntegers_arithmetic {op : BinaryOp} (arithmetic : op ∈ [add, sub, mul, div])
    (a b : Int64) :
    (∃ w : Int64, op.wrapped? a.toInt b.toInt = some w.toInt ∧
      op.onIntegers a b = .ok (.int w)) ∨
    op = div ∧ b = 0 ∧ op.onIntegers a b = .error .divisionByZero := by
  cases op with
  | add => exact .inl ⟨a + b, by rw [Int64.toInt_add]; rfl, rfl⟩
  | sub => exact .inl ⟨a - b, by rw [Int64.toInt_sub]; rfl, rfl⟩
  | mul => exact .inl ⟨a * b, by rw [Int64.toInt_mul]; rfl, rfl⟩
  | div =>
      by_cases zero : b = 0
      · exact .inr ⟨rfl, zero, if_pos zero⟩
      · have nonzero : b.toInt ≠ 0 := fun same => zero (Int64.toInt_inj.mp same)
        refine .inl ⟨a / b, ?_, if_neg zero⟩
        rw [wrapped?, if_neg nonzero, Int64.toInt_div]
        rfl
  | lt | gt | eq | ne => exact absurd arithmetic (by decide)

private theorem onIntegers_comparison {op : BinaryOp} (comparison : op ∈ [lt, gt, eq, ne])
    (a b : Int64) : op.onIntegers a b = .ok (.bool (op.compares a.toInt b.toInt)) := by
  cases op with
  | add | sub | mul | div => exact absurd comparison (by decide)
  | lt => simp only [onIntegers, compares, Int64.lt_iff_toInt_lt]
  | gt => simp only [onIntegers, compares, Int64.lt_iff_toInt_lt, gt_iff_lt]
  | eq => simp only [onIntegers, compares, Int64.toInt_inj]
  | ne => simp only [onIntegers, compares, ne_eq, Int64.toInt_inj]

end BinaryOp

namespace Expr

/-! ## Whole trees -/

/-- A tree that divides by zero has no value. -/
theorem wrapped?_of_dividesByZero {expr : Expr} (divides : expr.DividesByZero) :
    expr.wrapped? = none := by
  induction divides with
  | here leftIs rightIs => simp [wrapped?, leftIs, rightIs, BinaryOp.wrapped?]
  | operand _ ih => simp [wrapped?, ih]
  | left _ ih => simp [wrapped?, ih]
  | right leftIs _ ih => simp [wrapped?, leftIs, ih]

inductive Computes (expr : Expr) : Prop where
  | value (w : Int64) : expr.wrapped? = some w.toInt →
      (∀ call env machine, expr.eval call env machine = (.ok (.int w), machine)) → Computes expr
  | failure : expr.DividesByZero →
      (∀ call env machine,
        expr.eval call env machine = (.error (.failed .divisionByZero), machine)) → Computes expr

/-- The operands of a binary operator are computed one after the other. If neither divides by zero,
the operator gets their wrapped values. -/
theorem operands_compute {token : Token} {op : BinaryOp} {left right : Expr}
    (computesLeft : left.Computes) (computesRight : right.Computes) :
    (∃ a b : Int64, left.wrapped? = some a.toInt ∧ right.wrapped? = some b.toInt ∧
      ∀ call env machine, (binary token op left right).eval call env machine =
        (Run.ofExcept (op.onIntegers a b)).interruptible machine) ∨
    (binary token op left right).DividesByZero ∧
      ∀ call env machine, (binary token op left right).eval call env machine =
        (.error (.failed .divisionByZero), machine) := by
  cases computesLeft with
  | failure divides fails =>
      refine .inr ⟨.left divides, fun call env machine => ?_⟩
      rw [eval, Run.bind_of_error _ (fails call env machine)]
  | value a leftIs evaluates =>
      cases computesRight with
      | failure divides fails =>
          refine .inr ⟨.right leftIs divides, fun call env machine => ?_⟩
          rw [eval, Run.bind_of_ok _ (evaluates call env machine),
            Run.bind_of_error _ (fails call env machine)]
      | value b rightIs evaluates' =>
          refine .inl ⟨a, b, leftIs, rightIs, fun call env machine => ?_⟩
          rw [eval, Run.bind_of_ok _ (evaluates call env machine),
            Run.bind_of_ok _ (evaluates' call env machine), BinaryOp.apply]

private theorem computes_binary {token : Token} {op : BinaryOp} {left right : Expr}
    (arithmetic : op ∈ [.add, .sub, .mul, .div]) (computesLeft : left.Computes)
    (computesRight : right.Computes) : (binary token op left right).Computes := by
  rcases operands_compute computesLeft computesRight with
    ⟨a, b, leftIs, rightIs, evaluates⟩ | ⟨divides, fails⟩
  · rcases op.onIntegers_arithmetic arithmetic a b with ⟨w, valueIs, result⟩ | ⟨rfl, rfl, result⟩
    · refine .value w ?_ fun call env machine => ?_
      · simp only [wrapped?, leftIs, rightIs, Option.bind_eq_bind, Option.bind_some, valueIs]
      · rw [evaluates, result]
        rfl
    · refine .failure (.here leftIs rightIs) fun call env machine => ?_
      rw [evaluates, result]
      rfl
  · exact .failure divides fails

/-- A tree over any operators of arithmetic computes its wrapped value, by induction on the tree. -/
theorem IntegerTree.computes {ops : List BinaryOp} {expr : Expr} (tree : expr.IntegerTree ops)
    (arithmetic : ops ⊆ [.add, .sub, .mul, .div]) : expr.Computes := by
  induction tree with
  | @literal token value => exact .value value rfl fun _ _ _ => rfl
  | @negated token operand _ ih =>
      cases ih with
      | value w valueIs evaluates =>
          refine .value (-w) ?_ fun call env machine => ?_
          · rw [wrapped?, valueIs, Option.map_some, Int64.toInt_neg]
            rfl
          · rw [eval, Run.bind_of_ok _ (evaluates call env machine)]
            rfl
      | failure divides fails =>
          refine .failure (.operand divides) fun call env machine => ?_
          rw [eval, Run.bind_of_error _ (fails call env machine)]
  | combined member _ _ computesLeft computesRight =>
      exact computes_binary (arithmetic member) computesLeft computesRight

/-- Without division, wrapping at each step gives a result congruent to the exact value. -/
theorem IntegerTree.wrapped?_modEq {expr : Expr} (tree : expr.IntegerTree [.add, .sub, .mul]) :
    ∃ n, expr.wrapped? = some n ∧ n ≡ expr.exactValue [ZMOD 2 ^ 64] := by
  induction tree with
  | @literal token value => exact ⟨value.toInt, rfl, rfl⟩
  | @negated token operand _ ih =>
      obtain ⟨n, valueIs, same⟩ := ih
      refine ⟨wrap (-n), by rw [wrapped?, valueIs, Option.map_some], ?_⟩
      exact (wrap_modEq _).trans same.neg
  | @combined token op left right member _ _ ihLeft ihRight =>
      obtain ⟨a, leftIs, sameLeft⟩ := ihLeft
      obtain ⟨b, rightIs, sameRight⟩ := ihRight
      simp only [wrapped?, leftIs, rightIs, Option.bind_eq_bind, Option.bind_some]
      cases op with
      | add => exact ⟨_, rfl, (wrap_modEq _).trans (sameLeft.add sameRight)⟩
      | sub => exact ⟨_, rfl, (wrap_modEq _).trans (sameLeft.sub sameRight)⟩
      | mul => exact ⟨_, rfl, (wrap_modEq _).trans (sameLeft.mul sameRight)⟩
      | div | lt | gt | eq | ne => exact absurd member (by decide)

/-- Integer expressions compute modulo `2 ^ 64`, at every size. A tree without division has the one
value that is congruent to its exact value. A tree with division fails exactly if the evaluation
from left to right comes to a divisor that is zero, and has its wrapped value otherwise.
Comparisons see the wrapped values. -/
theorem run_integerTree (limit : Nat) (env : Env) (machine : Machine) :
    (∀ expr : Expr, expr.IntegerTree [.add, .sub, .mul] →
      ∃ w : Int64, expr.run limit env machine = (.ok (.int w), machine) ∧
        w.toInt ≡ expr.exactValue [ZMOD 2 ^ 64] ∧
        ∀ other : Int64, other.toInt ≡ expr.exactValue [ZMOD 2 ^ 64] → other = w) ∧
    (∀ expr : Expr, expr.IntegerTree [.add, .sub, .mul, .div] →
      (expr.DividesByZero ∧
        expr.run limit env machine = (.error (.failed .divisionByZero), machine)) ∨
      (¬ expr.DividesByZero ∧ ∃ w : Int64, expr.wrapped? = some w.toInt ∧
        expr.run limit env machine = (.ok (.int w), machine))) ∧
    ∀ (token : Token) (op : BinaryOp) (left right : Expr), op ∈ [.lt, .gt, .eq, .ne] →
      left.IntegerTree [.add, .sub, .mul, .div] → right.IntegerTree [.add, .sub, .mul, .div] →
      ((binary token op left right).DividesByZero ∧
        (binary token op left right).run limit env machine =
          (.error (.failed .divisionByZero), machine)) ∨
      ∃ a b : Int, left.wrapped? = some a ∧ right.wrapped? = some b ∧
        (binary token op left right).run limit env machine =
          (.ok (.bool (op.compares a b)), machine) := by
  refine ⟨fun expr tree => ?_, fun expr tree => ?_, ?_⟩
  · obtain ⟨n, valueIs, same⟩ := tree.wrapped?_modEq
    cases tree.computes (by decide) with
    | value w valueIs' evaluates =>
        obtain rfl : n = w.toInt := Option.some.inj (valueIs.symm.trans valueIs')
        refine ⟨w, evaluates _ env machine, same, fun other same' => ?_⟩
        exact eq_of_toInt_modEq (same'.trans same.symm)
    | failure divides _ =>
        rw [wrapped?_of_dividesByZero divides] at valueIs
        cases valueIs
  · cases tree.computes (by decide) with
    | value w valueIs evaluates =>
        refine .inr ⟨fun divides => ?_, w, valueIs, evaluates _ env machine⟩
        rw [wrapped?_of_dividesByZero divides] at valueIs
        cases valueIs
    | failure divides fails => exact .inl ⟨divides, fails _ env machine⟩
  · intro token op left right comparison treeLeft treeRight
    rcases operands_compute (treeLeft.computes (by decide)) (treeRight.computes (by decide)) with
      ⟨a, b, leftIs, rightIs, evaluates⟩ | ⟨divides, fails⟩
    · refine .inr ⟨a.toInt, b.toInt, leftIs, rightIs, ?_⟩
      refine (evaluates _ env machine).trans ?_
      rw [op.onIntegers_comparison comparison]
      rfl
    · exact .inl ⟨divides, fails _ env machine⟩

/-- The tree `9223372036854775807 + 1`, which overflows. -/
def overflowingSum : Expr :=
  .binary ⟨.plus, "+"⟩ .add (.int ⟨.int, "9223372036854775807"⟩ 9223372036854775807)
    (.int ⟨.int, "1"⟩ 1)

def overMinusOne (tree : Expr) : Expr :=
  .binary ⟨.slash, "/"⟩ .div tree (.unary ⟨.minus, "-"⟩ .neg (.int ⟨.int, "1"⟩ 1))

/-- The tree `1 / ((9223372036854775807 + 1) * 2)`, whose divisor is zero after wrapping. -/
def wrappingDivisor : Expr :=
  .binary ⟨.slash, "/"⟩ .div (.int ⟨.int, "1"⟩ 1)
    (.binary ⟨.star, "*"⟩ .mul overflowingSum (.int ⟨.int, "2"⟩ 2))

/-- The sum and its quotient with `-1` are both the least integer, the divisor fails although its
exact value is not zero, and the sum is below zero. -/
theorem run_integerTree_overflowing :
    overflowingSum.IntegerTree [.add, .sub, .mul] ∧
      overflowingSum.run 256 ⟨0, []⟩ (.start (.empty none)) =
        (.ok (.int Int64.minValue), .start (.empty none)) ∧
      (overMinusOne overflowingSum).IntegerTree [.add, .sub, .mul, .div] ∧
      (overMinusOne overflowingSum).run 256 ⟨0, []⟩ (.start (.empty none)) =
        (.ok (.int Int64.minValue), .start (.empty none)) ∧
      wrappingDivisor.IntegerTree [.add, .sub, .mul, .div] ∧
      wrappingDivisor.run 256 ⟨0, []⟩ (.start (.empty none)) =
        (.error (.failed .divisionByZero), .start (.empty none)) ∧
      (binary ⟨.less, "<"⟩ .lt overflowingSum (.int ⟨.int, "0"⟩ 0)).run 256 ⟨0, []⟩
        (.start (.empty none)) = (.ok (.bool true), .start (.empty none)) := by
  have sum : overflowingSum.IntegerTree [.add, .sub, .mul] :=
    .combined (by decide) .literal .literal
  have sum' : overflowingSum.IntegerTree [.add, .sub, .mul, .div] :=
    .combined (by decide) .literal .literal
  have quotient : (overMinusOne overflowingSum).IntegerTree [.add, .sub, .mul, .div] :=
    .combined (by decide) sum' (.negated .literal)
  have divisor : wrappingDivisor.IntegerTree [.add, .sub, .mul, .div] :=
    .combined (by decide) .literal (.combined (by decide) sum' .literal)
  obtain ⟨whole, parts, comparisons⟩ := run_integerTree 256 ⟨0, []⟩ (.start (.empty none))
  refine ⟨sum, ?_, quotient, ?_, divisor, ?_, ?_⟩
  · obtain ⟨w, ran, _, unique⟩ := whole overflowingSum sum
    rw [ran, ← unique Int64.minValue (by decide)]
  · have valueIs : (overMinusOne overflowingSum).wrapped? = some Int64.minValue.toInt := by decide
    rcases parts (overMinusOne overflowingSum) quotient with ⟨divides, _⟩ | ⟨_, w, isValue, ran⟩
    · rw [wrapped?_of_dividesByZero divides] at valueIs
      cases valueIs
    · rw [ran, Int64.toInt_inj.mp (Option.some.inj (isValue.symm.trans valueIs))]
  · rcases parts wrappingDivisor divisor with ⟨_, ran⟩ | ⟨apart, _⟩
    · exact ran
    · exact absurd (.here rfl (by decide)) apart
  · rcases comparisons ⟨.less, "<"⟩ .lt _ (.int ⟨.int, "0"⟩ 0) (by decide) sum' .literal with
      ⟨divides, _⟩ | ⟨a, b, leftIs, rightIs, ran⟩
    · have valueIs : overflowingSum.wrapped? = some Int64.minValue.toInt := by decide
      cases divides with
      | left divides => cases (wrapped?_of_dividesByZero divides).symm.trans valueIs
      | right _ divides => cases divides
    · obtain rfl : a = Int64.minValue.toInt := Option.some.inj (leftIs.symm.trans (by decide))
      obtain rfl : b = 0 := Option.some.inj (rightIs.symm.trans (by decide))
      exact ran

end Expr

end Script
