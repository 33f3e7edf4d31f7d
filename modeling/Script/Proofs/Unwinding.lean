import Script.Proofs.Activity

/-!
# Interrupts unwind at once

A failure or a `return` in a piece of code ends everything around it in the same function call. The
code around it ends with the same interrupt and on the very machine that the piece left: nothing
else is evaluated, bound, called or wrapped on the way out. Only a program turns the `return` that
reaches its top level into its value.
-/

set_option autoImplicit false

namespace Script

def Task.interruptedBy : Task → Interrupt → Except Interrupt Outcome
  | .program _ _, .returned value => .ok (.last (some value))
  | _, interrupt => .error interrupt

/-- The task works on code. The others call a value, whose body is no part of the code. -/
def Task.IsCode : Task → Prop
  | .call _ _ => False
  | _ => True

namespace Activity

/-- The evaluation `outer` reaches the evaluation `inner` without entering the body of a function,
so that `inner` works on a piece of the code of `outer`. -/
def Inside : Activity → Activity → Prop :=
  Relation.ReflTransGen fun outer inner => outer.task.IsCode ∧ Part outer inner

/-- An interrupt passes from a piece of code to the code directly around it. -/
theorem Part.finish_of_error {outer inner : Activity} (part : Part outer inner)
    (isCode : outer.task.IsCode) {interrupt : Interrupt} {after : Machine}
    (interrupted : inner.finish = (.error interrupt, after)) :
    outer.finish = (outer.task.interruptedBy interrupt, after) := by
  cases part with
  | operand | left | callee | elements | pairs | collection =>
      have ended := Run.map_eq_error_iff.mp interrupted
      rw [finish, Task.run, Expr.eval]
      exact Run.map_bind_of_error _ _ ended
  | condition =>
      have ended := Run.map_eq_error_iff.mp interrupted
      rw [finish, Task.run, Expr.eval_conditional]
      exact Run.map_bind_of_error _ _ ended
  | right before | arguments before | position before =>
      have ended := Run.map_eq_error_iff.mp interrupted
      rw [finish, Task.run, Expr.eval]
      apply Run.map_eq_error_iff.mpr
      rw [Run.bind_of_ok _ before]
      exact Run.bind_of_error _ ended
  | consequence before decided | alternative before decided =>
      have ended := Run.map_eq_error_iff.mp interrupted
      rw [finish, Task.run, Expr.eval_conditional]
      apply Run.map_eq_error_iff.mpr
      rw [Run.bind_of_ok _ before, decided]
      exact ended
  | call calleeEnded argumentsEnded =>
      have ended := Run.map_eq_error_iff.mp interrupted
      rw [finish, Task.run, Expr.eval]
      apply Run.map_eq_error_iff.mpr
      rw [Run.bind_of_ok _ calleeEnded, Run.bind_of_ok _ argumentsEnded]
      exact Run.bind_of_error _ ended
  | firstExpr =>
      have ended := Run.map_eq_error_iff.mp interrupted
      rw [finish, Task.run, Expr.evalAll]
      exact Run.map_bind_of_error _ _ ended
  | otherExprs before =>
      have ended := Run.map_eq_error_iff.mp interrupted
      rw [finish, Task.run, Expr.evalAll]
      apply Run.map_eq_error_iff.mpr
      rw [Run.bind_of_ok _ before]
      exact Run.bind_of_error _ ended
  | key =>
      have ended := Run.map_eq_error_iff.mp interrupted
      rw [finish, Task.run, Expr.evalPairs]
      exact Run.map_bind_of_error _ _ ended
  | value keyEnded isKey =>
      have ended := Run.map_eq_error_iff.mp interrupted
      rw [finish, Task.run, Expr.evalPairs]
      apply Run.map_eq_error_iff.mpr
      rw [Run.bind_of_ok _ keyEnded, isKey]
      exact Run.bind_of_error _ ended
  | otherPairs keyEnded isKey valueEnded =>
      have ended := Run.map_eq_error_iff.mp interrupted
      rw [finish, Task.run, Expr.evalPairs]
      apply Run.map_eq_error_iff.mpr
      rw [Run.bind_of_ok _ keyEnded, isKey]
      exact (Run.bind_of_ok _ valueEnded).trans ended
  | body =>
      have ended := Run.map_eq_error_iff.mp interrupted
      rw [finish, Task.run, Block.eval]
      exact Run.map_bind_of_error _ _ ended
  | firstStmt =>
      have ended := Run.map_eq_error_iff.mp interrupted
      rw [finish, Task.run, Stmt.evalAll]
      exact Run.map_bind_of_error _ _ ended
  | otherStmts before =>
      have ended := Run.map_eq_error_iff.mp interrupted
      rw [finish, Task.run, Stmt.evalAll]
      apply Run.map_eq_error_iff.mpr
      exact (Run.bind_of_ok _ before).trans ended
  | bound | returned | plain =>
      have ended := Run.map_eq_error_iff.mp interrupted
      rw [finish, Task.run, Stmt.eval]
      exact Run.map_bind_of_error _ _ ended
  | entered => cases isCode
  | statements =>
      have ended := Run.map_eq_error_iff.mp interrupted
      rw [finish, Task.run, map_eq_pure_bind, Run.bind_apply]
      unfold Run.interruptible Run.mapError Run.catchReturn
      rw [ended]
      cases interrupt <;> rfl

/-- An interrupt that a task passes on passes through all the code around it that is evaluated in
the same function call. -/
theorem finish_of_interrupted_inside {outer inner : Activity} (inside : outer.Inside inner)
    {interrupt : Interrupt} {after : Machine}
    (passed : inner.task.interruptedBy interrupt = .error interrupt)
    (interrupted : inner.finish = (.error interrupt, after)) :
    outer.finish = (outer.task.interruptedBy interrupt, after) := by
  induction inside using Relation.ReflTransGen.head_induction_on with
  | refl => rw [interrupted, passed]
  | head step _ ih =>
      obtain ⟨isCode, part⟩ := step
      apply part.finish_of_error isCode
      rw [ih]
      -- nothing has a program as its part
      cases part <;> rfl

/-- An interrupt passes from an expression to all the code around it that is evaluated in the same
function call: the whole ends with the same interrupt, or a program with the value that was
returned, on the machine that the expression left. -/
theorem finish_of_error_inside {outer inner : Activity} (inside : outer.Inside inner) {env : Env}
    {code : Expr} (evaluates : inner.task = .expr env code) {interrupt : Interrupt}
    {after : Machine} (interrupted : inner.finish = (.error interrupt, after)) :
    outer.finish = (outer.task.interruptedBy interrupt, after) := by
  apply finish_of_interrupted_inside inside _ interrupted
  rw [evaluates]
  rfl

def returningCondition : Expr :=
  .conditional ⟨.kwIf, "if"⟩ (.bool ⟨.kwTrue, "true"⟩ true)
    ⟨⟨.openBrace, "\x7b"⟩, [.ret ⟨.kwReturn, "return"⟩ (.int ⟨.int, "5"⟩ 5)]⟩ none

def returningProgram : Program :=
  ⟨[.bind ⟨.kwLet, "let"⟩ ⟨.ident, "x"⟩ (.list ⟨.openBracket, "["⟩
    [.int ⟨.int, "1"⟩ 1, returningCondition,
      .call ⟨.openParen, "("⟩ (.ident ⟨.ident, "puts"⟩) [.int ⟨.int, "2"⟩ 2]])]⟩

/-- The list is not made, `x` is not bound and nothing is written. -/
theorem finish_of_error_inside_return :
    let condition := start 256 (.expr ⟨0, []⟩ returningCondition) (.ofScopes #[.empty])
    let program := start 256 (.program ⟨0, []⟩ returningProgram) (.ofScopes #[.empty])
    Inside program condition ∧
      condition.finish = (.error (.returned (.int 5)), .ofScopes #[.empty]) ∧
      program.finish = (.ok (.last (some (.int 5))), .ofScopes #[.empty]) := by
  intro condition program
  have inside : Inside program condition :=
    .head ⟨trivial, .statements⟩ <| .head ⟨trivial, .firstStmt⟩ <| .head ⟨trivial, .bound⟩ <|
      .head ⟨trivial, .elements⟩ <| .head ⟨trivial, .otherExprs rfl⟩ <|
        .single ⟨trivial, .firstExpr⟩
  have interrupted : condition.finish = (.error (.returned (.int 5)), .ofScopes #[.empty]) := rfl
  exact ⟨inside, interrupted, finish_of_error_inside inside rfl interrupted⟩

end Activity

end Script
