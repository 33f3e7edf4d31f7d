import Script.Eval.Basic
import Script.Syntax.Parser

/-!
# Running code

The entry points of evaluation. Each takes the limit on nested calls; the calls that are already
active count toward it.
-/

set_option autoImplicit false

namespace Script

def defaultCallLimit : Nat := 256

/-- Give calls their meaning: as many may still be nested as the limit leaves beside the active
ones. -/
def Run.withLimit {ε α : Type} (limit : Nat) (body : Caller → Run ε α) : Run ε α := fun machine =>
  body (Value.apply limit (limit - machine.depth)) machine

def Value.call (limit : Nat) (callee : Value) (arguments : List Value) : Run RuntimeError Value :=
  .withLimit limit fun call => call callee arguments

def Expr.run (limit : Nat) (env : Env) (expr : Expr) : Run Interrupt Value :=
  .withLimit limit fun call => expr.eval call env

def Block.run (limit : Nat) (env : Env) (block : Block) : Run Interrupt Value :=
  .withLimit limit fun call => block.eval call env

def Stmt.run (limit : Nat) (env : Env) (stmt : Stmt) : Run Interrupt (Option Value) :=
  .withLimit limit fun call => stmt.eval call env

/-- Evaluate a program: the value of its last statement, or of the first `return` that is reached
outside of functions. -/
def Program.run (limit : Nat) (env : Env) (program : Program) : Run RuntimeError (Option Value) :=
  .withLimit limit fun call => (Stmt.evalAll call env none program.statements).catchReturn some

/-! ## Statement by statement -/

/-- The statements of a block in a loop that holds the value so far. A statement without a value
puts null in its place. -/
def Block.evalLoop (call : Caller) (env : Env) : Value → List Stmt → Run Interrupt Value
  | value, [] => pure value
  | _, stmt :: rest => do
      match ← stmt.eval call env with
      | some next => Block.evalLoop call env next rest
      | none => Block.evalLoop call env .null rest

/-- The statements of a program in a loop that holds the result so far. A `return` ends it with the
value that it carries. -/
def Program.evalLoop (call : Caller) (env : Env) :
    Option Value → List Stmt → Run RuntimeError (Option Value)
  | result, [] => pure result
  | _, stmt :: rest => fun machine =>
      match stmt.eval call env machine with
      | (.ok next, machine) => Program.evalLoop call env next rest machine
      | (.error (.returned value), machine) => (.ok (some value), machine)
      | (.error (.failed cause), machine) => (.error cause, machine)

private theorem evalAll_getD_eq_loop (call : Caller) (env : Env) (last : Option Value)
    (statements : List Stmt) :
    (do
      let result ← Stmt.evalAll call env last statements
      return result.getD .null) =
      Block.evalLoop call env (last.getD .null) statements := by
  induction statements generalizing last with
  | nil => simp [Stmt.evalAll, Block.evalLoop]
  | cons stmt rest ih =>
      simp only [Stmt.evalAll, Block.evalLoop, bind_assoc]
      congr 1
      funext result
      rw [ih result]
      cases result <;> rfl

/-- A block is the loop over its statements that starts with null. -/
theorem Block.eval_eq_evalLoop (call : Caller) (env : Env) (block : Block) :
    block.eval call env = Block.evalLoop call env .null block.statements := by
  obtain ⟨token, statements⟩ := block
  rw [Block.eval]
  exact evalAll_getD_eq_loop call env none statements

private theorem catchReturn_evalAll_eq_loop (call : Caller) (env : Env) (last : Option Value)
    (statements : List Stmt) :
    (Stmt.evalAll call env last statements).catchReturn some =
      Program.evalLoop call env last statements := by
  induction statements generalizing last with
  | nil => rfl
  | cons stmt rest ih =>
      funext machine
      simp only [Stmt.evalAll, Program.evalLoop, Run.catchReturn, Run.bind_apply]
      -- the rest of the loop is entered only by a statement that ends without an interrupt
      cases stmt.eval call env machine with
      | mk outcome after =>
          cases outcome with
          | ok result => exact congrFun (ih result) after
          | error interrupt => cases interrupt <;> rfl

/-- A program is the loop over its statements that starts with no value. -/
theorem Program.run_eq_evalLoop (limit : Nat) (env : Env) (program : Program) :
    program.run limit env =
      .withLimit limit fun call => Program.evalLoop call env none program.statements := by
  simp only [Program.run, catchReturn_evalAll_eq_loop]

/-! ## Results as values -/

/-- The value of a run that may have been interrupted: the marker of the interrupt if it was. -/
def Run.outcome (run : Run Interrupt (Option Value)) (machine : Machine) :
    Option Value × Machine :=
  match run machine with
  | (.ok result, machine) => (result, machine)
  | (.error interrupt, machine) => (some interrupt.toValue, machine)

/-- The value of a program, a failure being the value that marks it. -/
def Program.evaluate (limit : Nat) (env : Env) (program : Program) (machine : Machine) :
    Option Value × Machine :=
  match program.run limit env machine with
  | (.ok result, machine) => (result, machine)
  | (.error cause, machine) => (some (.error cause), machine)

end Script
