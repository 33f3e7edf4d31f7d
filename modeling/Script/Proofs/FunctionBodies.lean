import Script.Proofs.CallDepth
import Script.Proofs.Concatenation

/-!
# Function bodies and programs

The statements of a program and those of a function body are run for different purposes: a program
may have no value, and a block always has one. A `return` ends both, and what it ends is a program
in one case and a call in the other. Calling a function without parameters is nevertheless the same
as running its body as a program, in a new scope and with one more call active.
-/

set_option autoImplicit false

namespace Script

def Value.parameterless (ref : Ref) (opening : Token) (stmts : List Stmt) (env : Env) : Value :=
  .function ref ⟨[], ⟨opening, stmts⟩, env⟩

/-- Stopping a `return` before or after a missing value has been replaced by null is the same. -/
theorem Run.catchReturn_getD (run : Run Interrupt (Option Value)) :
    Run.catchReturn id (do
      let result ← run
      return result.getD .null) =
    (do
      let result ← run.catchReturn some
      return result.getD .null) := by
  funext machine
  simp only [Run.catchReturn, Run.bind_apply]
  cases run machine with
  | mk outcome after =>
      cases outcome with
      | ok result => rfl
      | error interrupt => cases interrupt <;> rfl

/-- A body is run as a program, between counting the call and taking it off again. -/
theorem Closure.enter_parameterless (opening : Token) {stmts : List Stmt} {env scope : Env}
    {call : Caller} {machine opened after : Machine}
    {outcome : Except RuntimeError (Option Value)}
    (opens : machine.newScope env .empty = (scope, opened))
    (ended : (Stmt.evalAll call scope none stmts).catchReturn some opened.enterCall =
      (outcome, after)) :
    Closure.enter ⟨[], ⟨opening, stmts⟩, env⟩ [] call machine =
      (outcome.map (·.getD .null), after.leaveCall) := by
  have noArguments : Scope.ofArguments [] [] = .empty := rfl
  simp only [Closure.enter, noArguments, opens, Block.eval, Run.catchReturn_getD, Run.bind_apply,
    ended]
  cases outcome <;> rfl

/-- The limit leaves a called body as many further calls as a program that runs with that call
active. -/
theorem Value.call_parameterless_eq {limit : Nat} {machine opened after : Machine} {env scope : Env}
    {stmts : List Stmt} {outcome : Except RuntimeError (Option Value)}
    (allowed : machine.depth < limit) (opens : machine.newScope env .empty = (scope, opened))
    (ended : Program.run limit scope ⟨stmts⟩ opened.enterCall = (outcome, after))
    (ref : Ref) (opening : Token) :
    (parameterless ref opening stmts env).call limit [] machine =
      (outcome.map (·.getD .null), { after with depth := machine.depth }) := by
  have deeper : opened.enterCall.depth = machine.depth + 1 := by
    cases opens
    rfl
  obtain ⟨budget, more⟩ : ∃ budget, limit - machine.depth = budget + 1 :=
    Nat.exists_eq_succ_of_ne_zero (by omega)
  have same : limit - opened.enterCall.depth = budget := by omega
  have called : (parameterless ref opening stmts env).call limit [] machine =
      (outcome.map (·.getD .null), after.leaveCall) := by
    simp only [Program.run, Run.withLimit, same] at ended
    simp only [call, Run.withLimit, more, parameterless]
    rw [apply_of_allowed rfl, Closure.enter_parameterless opening opens ended]
  have left := Value.depth_call limit (parameterless ref opening stmts env) [] machine
  rw [called] at left
  rw [called, ← left]
  rfl

namespace Activity

/-- A `return` interrupts with the value of its expression. -/
theorem finish_of_ret {inner : Activity} {env : Env} {token : Token} {value : Expr}
    (runs : inner.task = .stmt env (.ret token value)) {result : Value} {after : Machine}
    (evaluates : value.eval (Value.apply inner.limit inner.budget) env inner.machine =
      (.ok result, after)) : inner.finish = (.error (.returned result), after) := by
  rw [finish, runs, Task.run, Run.map_eq_error_iff, Stmt.eval, Run.bind_of_ok _ evaluates]
  rfl

end Activity

/-- A `return` that is reached gives its value to the program. -/
theorem Program.run_of_ret_inside {limit : Nat} {env : Env} {stmts : List Stmt} {machine : Machine}
    {inner : Activity}
    (inside : (Activity.start limit (.stmts env none stmts) machine).Inside inner)
    {env' : Env} {token : Token} {value : Expr}
    (runs : inner.task = .stmt env' (.ret token value)) {result : Value} {after : Machine}
    (evaluates : value.eval (Value.apply inner.limit inner.budget) env' inner.machine =
      (.ok result, after)) :
    Program.run limit env ⟨stmts⟩ machine = (.ok (some result), after) := by
  have passed : inner.task.interruptedBy (.returned result) = .error (.returned result) := by
    rw [runs]
    rfl
  have ended := Activity.finish_of_interrupted_inside inside passed
    (Activity.finish_of_ret runs evaluates)
  exact run_of_execute_returned (Run.map_eq_error_iff.mp ended)

/-- Calling a function without parameters, with one more call allowed, does what running its body as
a program does in a new scope inside the environment of the function and with that call active. It
fails for the same cause, or it has the value of the program, null for a program without one. In
particular a `return` that is reached, at whatever depth in blocks and operands, gives its value to
both. -/
theorem Value.call_parameterless {limit : Nat} {machine opened : Machine} {env scope : Env}
    (allowed : machine.depth < limit) (opens : machine.newScope env .empty = (scope, opened))
    (ref : Ref) (opening : Token) (stmts : List Stmt) :
    (∃ outcome after, Program.run limit scope ⟨stmts⟩ opened.enterCall = (outcome, after) ∧
      (parameterless ref opening stmts env).call limit [] machine =
        (outcome.map (·.getD .null), { after with depth := machine.depth })) ∧
    ∀ (inner : Activity) (env' : Env) (token : Token) (value : Expr) (result : Value)
      (after : Machine),
      (Activity.start limit (.stmts scope none stmts) opened.enterCall).Inside inner →
      inner.task = .stmt env' (.ret token value) →
      value.eval (Value.apply inner.limit inner.budget) env' inner.machine = (.ok result, after) →
      Program.run limit scope ⟨stmts⟩ opened.enterCall = (.ok (some result), after) ∧
        (parameterless ref opening stmts env).call limit [] machine =
          (.ok result, { after with depth := machine.depth }) := by
  constructor
  · exact ⟨_, _, rfl, call_parameterless_eq allowed opens rfl ref opening⟩
  · intro inner env' token value result after inside runs evaluates
    have ended := Program.run_of_ret_inside inside runs evaluates
    exact ⟨ended, call_parameterless_eq allowed opens ended ref opening⟩

/-- Two calls are active, and the `return` stands in a block, which is an operand of a list that
would be bound. -/
theorem Value.call_parameterless_returning :
    let machine : Machine := .ofScopes #[.empty] 1 2
    let opened : Machine := .ofScopes #[.empty, .empty] 1 2
    machine.depth < 3 ∧
      machine.newScope ⟨0, []⟩ .empty = (⟨1, [0]⟩, opened) ∧
      Program.run 3 ⟨1, [0]⟩ Activity.returningProgram opened.enterCall =
        (.ok (some (.int 5)), opened.enterCall) ∧
      (parameterless 0 ⟨.openBrace, "\x7b"⟩ Activity.returningProgram.statements ⟨0, []⟩).call 3 []
        machine = (.ok (.int 5), opened) := by
  intro machine opened
  have allowed : machine.depth < 3 := by decide
  have opens : machine.newScope ⟨0, []⟩ .empty = (⟨1, [0]⟩, opened) := rfl
  have reached : (Activity.start 3 (.stmts ⟨1, [0]⟩ none Activity.returningProgram.statements)
      opened.enterCall).Inside
      ⟨3, 0, .stmt ⟨1, [0]⟩ (.ret ⟨.kwReturn, "return"⟩ (.int ⟨.int, "5"⟩ 5)),
        opened.enterCall⟩ :=
    .head ⟨trivial, .firstStmt⟩ <| .head ⟨trivial, .bound⟩ <| .head ⟨trivial, .elements⟩ <|
      .head ⟨trivial, .otherExprs rfl⟩ <| .head ⟨trivial, .firstExpr⟩ <|
        .head ⟨trivial, .consequence rfl rfl⟩ <| .head ⟨trivial, .body⟩ <|
          .single ⟨trivial, .firstStmt⟩
  have both := (call_parameterless allowed opens 0 ⟨.openBrace, "\x7b"⟩
    Activity.returningProgram.statements).2 _ _ _ _ (.int 5) opened.enterCall reached
      rfl rfl
  exact ⟨allowed, opens, both⟩

end Script
