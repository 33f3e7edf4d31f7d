import Script.Eval.Builtin
import Script.Eval.Operator

/-!
# Evaluation

Operands are evaluated from left to right, and the first interrupt ends the evaluation of
everything around it.

Evaluation recurses on the syntax tree and takes the meaning of calls as a parameter. The body of a
function is no part of the tree that calls it, so that calls recurse on something else: on the
number of calls that may still be nested. `Value.apply` refuses a call when that number is zero and
else evaluates the body with one less. Both recursions are structural, and together they make
evaluation a total function.
-/

set_option autoImplicit false

namespace Script

/-- The meaning of calls: what a callee does with its arguments. -/
abbrev Caller := Value → List Value → Run RuntimeError Value

/-- The value of an identifier: a binding, or else a built-in function. -/
def lookup (env : Env) (name : String) : Run Interrupt Value := fun machine =>
  match machine.get? env name with
  | some value => Run.settle value machine
  | none =>
      match Builtin.ofName? name with
      | some builtin => (.ok (.builtin builtin), machine)
      | none => (.error (.failed (.unbound name)), machine)

theorem lookup_of_local? {machine : Machine} {env : Env} {name : String} {value : Value}
    (found : machine.store.local? env.scope name = some value) :
    lookup env name machine = Run.settle value machine := by
  simp [lookup, Machine.get?, ScopeStore.find?, Env.chain, found]

mutual

def Expr.eval (call : Caller) (env : Env) : Expr → Run Interrupt Value
  | .ident token => lookup env token.text
  | .int _ value => pure (.int value)
  | .bool _ value => pure (.bool value)
  | .str token => .allocate fun ref => .str ref token.text
  | .unary _ op operand => do
      let value ← operand.eval call env
      (Run.ofExcept (op.apply value)).interruptible
  | .binary _ op left right => do
      let leftValue ← left.eval call env
      let rightValue ← right.eval call env
      (op.apply leftValue rightValue).interruptible
  | .conditional _ condition consequence none => do
      let decision ← condition.eval call env
      if decision.truthy then consequence.eval call env else pure .null
  | .conditional _ condition consequence (some alternative) => do
      let decision ← condition.eval call env
      if decision.truthy then consequence.eval call env else alternative.eval call env
  | .function _ parameters body => .allocate fun ref => .function ref ⟨parameters, body, env⟩
  | .call _ callee arguments => do
      let function ← callee.eval call env
      let values ← Expr.evalAll call env arguments
      let result ← (call function values).interruptible
      Run.settle result
  | .list _ elements => do
      let items ← Expr.evalAll call env elements
      .allocate fun ref => .list ref items
  | .map _ pairs => do
      let entries ← Expr.evalPairs call env [] pairs
      .allocate fun ref => .map ref entries
  | .index _ collection position => do
      let collectionValue ← collection.eval call env
      let positionValue ← position.eval call env
      let item ← (Run.ofExcept (collectionValue.index positionValue)).interruptible
      Run.settle item

def Expr.evalAll (call : Caller) (env : Env) : List Expr → Run Interrupt (List Value)
  | [] => pure []
  | expr :: rest => do
      let value ← expr.eval call env
      let values ← Expr.evalAll call env rest
      return value :: values

/-- The entries of a map literal, added to those that its earlier pairs gave. A key that cannot be
one fails before its value is evaluated. -/
def Expr.evalPairs (call : Caller) (env : Env) (entries : List (Key × Value)) :
    List (Expr × Expr) → Run Interrupt (List (Key × Value))
  | [] => pure entries
  | (key, value) :: rest => do
      let keyValue ← key.eval call env
      match keyValue.key? with
      | none => Run.fail (.unhashable keyValue.kind)
      | some key => do
          let value ← value.eval call env
          Expr.evalPairs call env (Assoc.insert Key.hash key value entries) rest

/-- The value of a block: that of its last statement, null when that has none. A block makes no
scope of its own. -/
def Block.eval (call : Caller) (env : Env) : Block → Run Interrupt Value
  | ⟨_, statements⟩ => do
      let result ← Stmt.evalAll call env none statements
      return result.getD .null

/-- The value of the last of some statements, `last` when there are none. -/
def Stmt.evalAll (call : Caller) (env : Env) (last : Option Value) :
    List Stmt → Run Interrupt (Option Value)
  | [] => pure last
  | stmt :: rest => do
      let result ← stmt.eval call env
      Stmt.evalAll call env result rest

/-- The value of a statement. A binding has none, and a `return` interrupts. -/
def Stmt.eval (call : Caller) (env : Env) : Stmt → Run Interrupt (Option Value)
  | .bind _ name value => do
      let bound ← value.eval call env
      Run.modify (·.set env name.text bound)
      return none
  | .ret _ value => do
      let result ← value.eval call env
      Run.throw (.returned result)
  | .expr _ expression => do
      let result ← expression.eval call env
      return some result

end

theorem Expr.eval_conditional (call : Caller) (env : Env) (token : Token) (condition : Expr)
    (consequence : Block) (alternative : Option Block) :
    (Expr.conditional token condition consequence alternative).eval call env =
      (do
        let decision ← condition.eval call env
        if decision.truthy then consequence.eval call env
        else
          match alternative with
          | none => pure .null
          | some block => block.eval call env) := by
  cases alternative <;> rw [Expr.eval]

/-- Statements that follow others go on from the value of those. -/
theorem Stmt.evalAll_append (call : Caller) (env : Env) (last : Option Value)
    (first second : List Stmt) :
    Stmt.evalAll call env last (first ++ second) =
      (Stmt.evalAll call env last first >>= fun result =>
        Stmt.evalAll call env result second) := by
  induction first generalizing last with
  | nil => simp [Stmt.evalAll]
  | cons stmt rest ih =>
      simp only [List.cons_append, Stmt.evalAll, bind_assoc]
      congr 1
      funext result
      exact ih result

/-- Evaluate the body of a function in a new scope for its parameters, inside the environment that
it was made in. A `return` ends here. -/
def Closure.enter (closure : Closure) (arguments : List Value) (call : Caller) :
    Run RuntimeError Value := fun machine =>
  let opened := machine.newScope closure.env (.ofArguments closure.parameters arguments)
  match (closure.body.eval call opened.1).catchReturn id opened.2.enterCall with
  | (result, machine) => (result, machine.leaveCall)

/-- Call a value with arguments, when `budget` calls may still be nested out of a limit of `limit`.
Only functions count: calling a built-in function needs no budget. The number of arguments is
checked before the budget. -/
def Value.apply (limit : Nat) : Nat → Caller
  | budget, .function _ closure, arguments =>
      if arguments.length ≠ closure.parameters.length then
        .throw (.wrongArgumentCount arguments.length closure.parameters.length)
      else
        match budget with
        | 0 => .throw (.callDepthExceeded limit)
        | budget + 1 => closure.enter arguments (Value.apply limit budget)
  | _, .builtin native, arguments => native.invoke arguments
  | _, callee, _ => .throw (.notCallable callee.kind)

namespace Value

variable {limit budget : Nat} {ref : Ref} {closure : Closure} {arguments : List Value}

theorem apply_of_miscounted (miscounted : arguments.length ≠ closure.parameters.length) :
    Value.apply limit budget (.function ref closure) arguments =
      .throw (.wrongArgumentCount arguments.length closure.parameters.length) := by
  rw [Value.apply.eq_def]
  exact if_pos miscounted

theorem apply_of_exhausted (fits : arguments.length = closure.parameters.length) :
    Value.apply limit 0 (.function ref closure) arguments =
      .throw (.callDepthExceeded limit) := by
  rw [Value.apply.eq_def]
  exact if_neg (not_not_intro fits)

theorem apply_of_allowed (fits : arguments.length = closure.parameters.length) :
    Value.apply limit (budget + 1) (.function ref closure) arguments =
      closure.enter arguments (Value.apply limit budget) := by
  rw [Value.apply.eq_def]
  exact if_neg (not_not_intro fits)

theorem apply_builtin (native : Builtin) :
    Value.apply limit budget (.builtin native) arguments = native.invoke arguments := by
  rw [Value.apply.eq_def]

end Value

end Script
