import Script.Proofs.Effects
import Script.Proofs.Unwinding

/-!
# The rules of evaluation

Evaluation as a relation, given by rules: how a task ends follows from how its parts end. The rules
know no budget. A call looks at the number of active calls and refuses when the limit is reached,
and otherwise evaluates the body that it finds in the function. Nothing in the rules rules out that
a task has no ending; a derivation is finite, so that a task has an ending only if its evaluation
comes to an end.
-/

set_option autoImplicit false

namespace Script

def Outcome.caught (ofValue : Value → Outcome) :
    Except Interrupt Outcome → Except Interrupt Outcome
  | .error (.returned carried) => .ok (ofValue carried)
  | result => result

/-- `Evaluates limit task machine result after`: on `machine`, with at most `limit` calls active at
a time, the task ends with `result` and leaves the machine `after`. -/
inductive Evaluates (limit : Nat) :
    Task → Machine → Except Interrupt Outcome → Machine → Prop where
  -- Expressions without parts.
  | ident {env token machine result after} :
      (Outcome.value <$> lookup env token.text) machine = (result, after) →
      Evaluates limit (.expr env (.ident token)) machine result after
  | int {env token n machine} :
      Evaluates limit (.expr env (.int token n)) machine (.ok (.value (.int n))) machine
  | bool {env token b machine} :
      Evaluates limit (.expr env (.bool token b)) machine (.ok (.value (.bool b))) machine
  | str {env token machine} :
      Evaluates limit (.expr env (.str token)) machine
        (.ok (.value (.str machine.nextRef token.text)))
        { machine with nextRef := machine.nextRef + 1 }
  | function {env token parameters body machine} :
      Evaluates limit (.expr env (.function token parameters body)) machine
        (.ok (.value (.function machine.nextRef ⟨parameters, body, env⟩)))
        { machine with nextRef := machine.nextRef + 1 }
  -- Operators.
  | unary {env token op operand machine value middle result after} :
      Evaluates limit (.expr env operand) machine (.ok (.value value)) middle →
      (Outcome.value <$> (Run.ofExcept (op.apply value)).interruptible) middle = (result, after) →
      Evaluates limit (.expr env (.unary token op operand)) machine result after
  | operandInterrupted {env token op operand machine interrupt after} :
      Evaluates limit (.expr env operand) machine (.error interrupt) after →
      Evaluates limit (.expr env (.unary token op operand)) machine (.error interrupt) after
  | binary {env token op left right machine leftValue middle rightValue middle' result after} :
      Evaluates limit (.expr env left) machine (.ok (.value leftValue)) middle →
      Evaluates limit (.expr env right) middle (.ok (.value rightValue)) middle' →
      (Outcome.value <$> (op.apply leftValue rightValue).interruptible) middle' =
        (result, after) →
      Evaluates limit (.expr env (.binary token op left right)) machine result after
  | leftInterrupted {env token op left right machine interrupt after} :
      Evaluates limit (.expr env left) machine (.error interrupt) after →
      Evaluates limit (.expr env (.binary token op left right)) machine (.error interrupt) after
  | rightInterrupted {env token op left right machine leftValue middle interrupt after} :
      Evaluates limit (.expr env left) machine (.ok (.value leftValue)) middle →
      Evaluates limit (.expr env right) middle (.error interrupt) after →
      Evaluates limit (.expr env (.binary token op left right)) machine (.error interrupt) after
  -- Conditions.
  | consequence {env token condition consequence alternative machine decision middle result
      after} :
      Evaluates limit (.expr env condition) machine (.ok (.value decision)) middle →
      decision.truthy = true →
      Evaluates limit (.block env consequence) middle result after →
      Evaluates limit (.expr env (.conditional token condition consequence alternative)) machine
        result after
  | alternative {env token condition consequence alternative machine decision middle result
      after} :
      Evaluates limit (.expr env condition) machine (.ok (.value decision)) middle →
      decision.truthy = false →
      Evaluates limit (.block env alternative) middle result after →
      Evaluates limit (.expr env (.conditional token condition consequence (some alternative)))
        machine result after
  | noAlternative {env token condition consequence machine decision after} :
      Evaluates limit (.expr env condition) machine (.ok (.value decision)) after →
      decision.truthy = false →
      Evaluates limit (.expr env (.conditional token condition consequence none)) machine
        (.ok (.value .null)) after
  | conditionInterrupted {env token condition consequence alternative machine interrupt after} :
      Evaluates limit (.expr env condition) machine (.error interrupt) after →
      Evaluates limit (.expr env (.conditional token condition consequence alternative)) machine
        (.error interrupt) after
  -- Call expressions.
  | call {env token callee arguments machine function middle values middle' value middle'' result
      after} :
      Evaluates limit (.expr env callee) machine (.ok (.value function)) middle →
      Evaluates limit (.exprs env arguments) middle (.ok (.values values)) middle' →
      Evaluates limit (.call function values) middle' (.ok (.value value)) middle'' →
      (Outcome.value <$> Run.settle value) middle'' = (result, after) →
      Evaluates limit (.expr env (.call token callee arguments)) machine result after
  | calleeInterrupted {env token callee arguments machine interrupt after} :
      Evaluates limit (.expr env callee) machine (.error interrupt) after →
      Evaluates limit (.expr env (.call token callee arguments)) machine (.error interrupt) after
  | argumentsInterrupted {env token callee arguments machine function middle interrupt after} :
      Evaluates limit (.expr env callee) machine (.ok (.value function)) middle →
      Evaluates limit (.exprs env arguments) middle (.error interrupt) after →
      Evaluates limit (.expr env (.call token callee arguments)) machine (.error interrupt) after
  | callFailed {env token callee arguments machine function middle values middle' interrupt
      after} :
      Evaluates limit (.expr env callee) machine (.ok (.value function)) middle →
      Evaluates limit (.exprs env arguments) middle (.ok (.values values)) middle' →
      Evaluates limit (.call function values) middle' (.error interrupt) after →
      Evaluates limit (.expr env (.call token callee arguments)) machine (.error interrupt) after
  -- Lists, maps and their items.
  | list {env token elements machine items after} :
      Evaluates limit (.exprs env elements) machine (.ok (.values items)) after →
      Evaluates limit (.expr env (.list token elements)) machine
        (.ok (.value (.list after.nextRef items))) { after with nextRef := after.nextRef + 1 }
  | elementsInterrupted {env token elements machine interrupt after} :
      Evaluates limit (.exprs env elements) machine (.error interrupt) after →
      Evaluates limit (.expr env (.list token elements)) machine (.error interrupt) after
  | map {env token pairs machine entries after} :
      Evaluates limit (.pairs env [] pairs) machine (.ok (.entries entries)) after →
      Evaluates limit (.expr env (.map token pairs)) machine
        (.ok (.value (.map after.nextRef entries))) { after with nextRef := after.nextRef + 1 }
  | pairsInterrupted {env token pairs machine interrupt after} :
      Evaluates limit (.pairs env [] pairs) machine (.error interrupt) after →
      Evaluates limit (.expr env (.map token pairs)) machine (.error interrupt) after
  | index {env token collection position machine collectionValue middle positionValue middle'
      result after} :
      Evaluates limit (.expr env collection) machine (.ok (.value collectionValue)) middle →
      Evaluates limit (.expr env position) middle (.ok (.value positionValue)) middle' →
      (Outcome.value <$> ((Run.ofExcept (collectionValue.index positionValue)).interruptible >>=
        Run.settle)) middle' = (result, after) →
      Evaluates limit (.expr env (.index token collection position)) machine result after
  | collectionInterrupted {env token collection position machine interrupt after} :
      Evaluates limit (.expr env collection) machine (.error interrupt) after →
      Evaluates limit (.expr env (.index token collection position)) machine (.error interrupt)
        after
  | positionInterrupted {env token collection position machine collectionValue middle interrupt
      after} :
      Evaluates limit (.expr env collection) machine (.ok (.value collectionValue)) middle →
      Evaluates limit (.expr env position) middle (.error interrupt) after →
      Evaluates limit (.expr env (.index token collection position)) machine (.error interrupt)
        after
  | noExprs {env machine} : Evaluates limit (.exprs env []) machine (.ok (.values [])) machine
  | exprs {env expr rest machine value middle values after} :
      Evaluates limit (.expr env expr) machine (.ok (.value value)) middle →
      Evaluates limit (.exprs env rest) middle (.ok (.values values)) after →
      Evaluates limit (.exprs env (expr :: rest)) machine (.ok (.values (value :: values))) after
  | firstExprInterrupted {env expr rest machine interrupt after} :
      Evaluates limit (.expr env expr) machine (.error interrupt) after →
      Evaluates limit (.exprs env (expr :: rest)) machine (.error interrupt) after
  | otherExprsInterrupted {env expr rest machine value middle interrupt after} :
      Evaluates limit (.expr env expr) machine (.ok (.value value)) middle →
      Evaluates limit (.exprs env rest) middle (.error interrupt) after →
      Evaluates limit (.exprs env (expr :: rest)) machine (.error interrupt) after
  | noPairs {env entries machine} :
      Evaluates limit (.pairs env entries []) machine (.ok (.entries entries)) machine
  | pairs {env entries key value rest machine keyValue middle key' result' middle' result after} :
      Evaluates limit (.expr env key) machine (.ok (.value keyValue)) middle →
      keyValue.key? = some key' →
      Evaluates limit (.expr env value) middle (.ok (.value result')) middle' →
      Evaluates limit (.pairs env (Assoc.insert Key.hash key' result' entries) rest) middle'
        result after →
      Evaluates limit (.pairs env entries ((key, value) :: rest)) machine result after
  | keyInterrupted {env entries key value rest machine interrupt after} :
      Evaluates limit (.expr env key) machine (.error interrupt) after →
      Evaluates limit (.pairs env entries ((key, value) :: rest)) machine (.error interrupt) after
  | unhashable {env entries key value rest machine keyValue after} :
      Evaluates limit (.expr env key) machine (.ok (.value keyValue)) after →
      keyValue.key? = none →
      Evaluates limit (.pairs env entries ((key, value) :: rest)) machine
        (.error (.failed (.unhashable keyValue.kind))) after
  | valueInterrupted {env entries key value rest machine keyValue middle key' interrupt after} :
      Evaluates limit (.expr env key) machine (.ok (.value keyValue)) middle →
      keyValue.key? = some key' →
      Evaluates limit (.expr env value) middle (.error interrupt) after →
      Evaluates limit (.pairs env entries ((key, value) :: rest)) machine (.error interrupt) after
  -- Blocks and statements.
  | block {env token statements machine last after} :
      Evaluates limit (.stmts env none statements) machine (.ok (.last last)) after →
      Evaluates limit (.block env ⟨token, statements⟩) machine (.ok (.value (last.getD .null)))
        after
  | blockInterrupted {env token statements machine interrupt after} :
      Evaluates limit (.stmts env none statements) machine (.error interrupt) after →
      Evaluates limit (.block env ⟨token, statements⟩) machine (.error interrupt) after
  | noStmts {env last machine} :
      Evaluates limit (.stmts env last []) machine (.ok (.last last)) machine
  | stmts {env last stmt rest machine value middle result after} :
      Evaluates limit (.stmt env stmt) machine (.ok (.last value)) middle →
      Evaluates limit (.stmts env value rest) middle result after →
      Evaluates limit (.stmts env last (stmt :: rest)) machine result after
  | firstStmtInterrupted {env last stmt rest machine interrupt after} :
      Evaluates limit (.stmt env stmt) machine (.error interrupt) after →
      Evaluates limit (.stmts env last (stmt :: rest)) machine (.error interrupt) after
  | bind {env token name value machine bound after} :
      Evaluates limit (.expr env value) machine (.ok (.value bound)) after →
      Evaluates limit (.stmt env (.bind token name value)) machine (.ok (.last none))
        (after.set env name.text bound)
  | bindInterrupted {env token name value machine interrupt after} :
      Evaluates limit (.expr env value) machine (.error interrupt) after →
      Evaluates limit (.stmt env (.bind token name value)) machine (.error interrupt) after
  | ret {env token value machine result after} :
      Evaluates limit (.expr env value) machine (.ok (.value result)) after →
      Evaluates limit (.stmt env (.ret token value)) machine (.error (.returned result)) after
  | retInterrupted {env token value machine interrupt after} :
      Evaluates limit (.expr env value) machine (.error interrupt) after →
      Evaluates limit (.stmt env (.ret token value)) machine (.error interrupt) after
  | expr {env token expression machine value after} :
      Evaluates limit (.expr env expression) machine (.ok (.value value)) after →
      Evaluates limit (.stmt env (.expr token expression)) machine (.ok (.last (some value))) after
  | exprInterrupted {env token expression machine interrupt after} :
      Evaluates limit (.expr env expression) machine (.error interrupt) after →
      Evaluates limit (.stmt env (.expr token expression)) machine (.error interrupt) after
  -- Calls.
  | wrongArgumentCount {ref closure arguments machine} :
      arguments.length ≠ closure.parameters.length →
      Evaluates limit (.call (.function ref closure) arguments) machine
        (.error (.failed (.wrongArgumentCount arguments.length closure.parameters.length))) machine
  | tooDeep {ref closure arguments machine} :
      arguments.length = closure.parameters.length →
      limit ≤ machine.depth →
      Evaluates limit (.call (.function ref closure) arguments) machine
        (.error (.failed (.callDepthExceeded limit))) machine
  | entered {ref closure arguments machine opened result after} :
      arguments.length = closure.parameters.length →
      machine.depth < limit →
      machine.newScope closure.env (.ofArguments closure.parameters arguments) = opened →
      Evaluates limit (.block opened.1 closure.body) opened.2.enterCall result after →
      Evaluates limit (.call (.function ref closure) arguments) machine
        (Outcome.caught .value result) after.leaveCall
  | native {native arguments machine result after} :
      (Outcome.value <$> (native.invoke arguments).interruptible) machine = (result, after) →
      Evaluates limit (.call (.builtin native) arguments) machine result after
  | notCallable {callee arguments machine} :
      callee.kind ≠ .function → callee.kind ≠ .builtin →
      Evaluates limit (.call callee arguments) machine
        (.error (.failed (.notCallable callee.kind))) machine
  -- Programs.
  | program {env program machine result after} :
      Evaluates limit (.stmts env none program.statements) machine result after →
      Evaluates limit (.program env program) machine
        (Outcome.caught (fun value => .last (some value)) result) after

/-! ## The rules agree with the evaluator -/

namespace Run

variable {ε α β : Type}

theorem map_of_ok (f : α → β) {run : Run ε α} {machine after : Machine} {result : α}
    (ended : run machine = (.ok result, after)) :
    (f <$> run) machine = (.ok (f result), after) := by
  rw [map_eq_pure_bind, bind_of_ok _ ended]
  rfl

theorem eq_ok_of_map {f : α → β} (injective : ∀ {a b}, f a = f b → a = b) {run : Run ε α}
    {machine after : Machine} {result : α} (ended : (f <$> run) machine = (.ok (f result), after)) :
    run machine = (.ok result, after) := by
  rw [map_eq_pure_bind, bind_apply] at ended
  cases done : run machine with
  | mk outcome left =>
      rw [done] at ended
      cases outcome with
      | error exception => cases ended
      | ok found =>
          obtain ⟨same, rfl⟩ := Prod.mk.inj ended
          rw [injective (Except.ok.inj same)]

/-- A run that is only renamed ends with an exception, or with the renamed result. -/
theorem map_ends (f : α → β) (run : Run ε α) (machine : Machine) :
    (∃ exception after, (f <$> run) machine = (.error exception, after)) ∨
      ∃ result after, run machine = (.ok result, after) ∧
        (f <$> run) machine = (.ok (f result), after) := by
  cases ended : run machine with
  | mk outcome after =>
      cases outcome with
      | error exception => exact .inl ⟨exception, after, map_eq_error_iff.mpr ended⟩
      | ok result => exact .inr ⟨result, after, rfl, map_of_ok f ended⟩

end Run

/-- Catching a `return` only changes what the run ends with. -/
theorem Run.map_catchReturn {α : Type} (f : α → Outcome) (ofValue : Value → α)
    {run : Run Interrupt α} {machine after : Machine} {result : Except Interrupt Outcome}
    (ended : (f <$> run) machine = (result, after)) :
    (f <$> (run.catchReturn ofValue).interruptible) machine =
      (Outcome.caught (fun value => f (ofValue value)) result, after) := by
  rw [map_eq_pure_bind, Run.bind_apply] at ended ⊢
  unfold Run.interruptible Run.mapError Run.catchReturn
  cases done : run machine with
  | mk outcome left =>
      rw [done] at ended
      cases outcome with
      | ok value =>
          cases ended
          rfl
      | error interrupt =>
          cases ended
          cases interrupt <;> rfl

/-- A call ends as its body does, with the `return` caught and the call no longer active. -/
theorem Closure.map_enter {closure : Closure} {arguments : List Value} {call : Caller}
    {machine after : Machine} {result : Except Interrupt Outcome} {opened : Env × Machine}
    (opens : machine.newScope closure.env (.ofArguments closure.parameters arguments) = opened)
    (ended : (Outcome.value <$> closure.body.eval call opened.1) opened.2.enterCall =
      (result, after)) :
    (Outcome.value <$> (closure.enter arguments call).interruptible) machine =
      (Outcome.caught .value result, after.leaveCall) := by
  have caught := Run.map_catchReturn Outcome.value id ended
  have entered : closure.enter arguments call machine =
      (((closure.body.eval call opened.1).catchReturn id opened.2.enterCall).1,
        ((closure.body.eval call opened.1).catchReturn id opened.2.enterCall).2.leaveCall) := by
    rw [← opens]
    rfl
  rw [map_eq_pure_bind, Run.bind_apply] at caught ⊢
  unfold Run.interruptible Run.mapError at caught ⊢
  rw [entered]
  cases done : (closure.body.eval call opened.1).catchReturn id opened.2.enterCall with
  | mk outcome left =>
      rw [done] at caught
      cases outcome with
      | ok value =>
          obtain ⟨same, rfl⟩ := Prod.mk.inj caught
          exact congrArg (·, left.leaveCall) same
      | error cause =>
          obtain ⟨same, rfl⟩ := Prod.mk.inj caught
          exact congrArg (·, left.leaveCall) same

/-- A task leaves as many calls active as it found. -/
theorem Task.depth_of_run {limit budget : Nat} {task : Task} {machine after : Machine}
    {result : Except Interrupt Outcome} (ended : task.run limit budget machine = (result, after)) :
    after.depth = machine.depth := by
  have framed := task.run_framed limit budget machine
  rw [ended] at framed
  exact framed.depth_eq

open Activity in
/-- What the rules derive is what the evaluator computes. -/
theorem Evaluates.run_eq {limit : Nat} {task : Task} {machine after : Machine}
    {result : Except Interrupt Outcome} (evaluates : Evaluates limit task machine result after) :
    task.run limit (limit - machine.depth) machine = (result, after) := by
  induction evaluates with
  | ident found =>
      rw [Task.run, Expr.eval]
      exact found
  | int | bool | str | function => rfl
  | unary _ applied operandIH =>
      have operandEnded := Run.eq_ok_of_map Outcome.value.inj operandIH
      rw [Task.run, Expr.eval, map_bind, Run.bind_of_ok _ operandEnded]
      exact applied
  | operandInterrupted _ operandIH => exact Part.finish_of_error .operand trivial operandIH
  | binary _ _ applied leftIH rightIH =>
      rw [Task.depth_of_run leftIH] at rightIH
      have leftEnded := Run.eq_ok_of_map Outcome.value.inj leftIH
      have rightEnded := Run.eq_ok_of_map Outcome.value.inj rightIH
      rw [Task.run, Expr.eval, map_bind, Run.bind_of_ok _ leftEnded, map_bind,
        Run.bind_of_ok _ rightEnded]
      exact applied
  | leftInterrupted _ leftIH => exact Part.finish_of_error .left trivial leftIH
  | rightInterrupted _ _ leftIH rightIH =>
      rw [Task.depth_of_run leftIH] at rightIH
      have leftEnded := Run.eq_ok_of_map Outcome.value.inj leftIH
      exact Part.finish_of_error (.right leftEnded) trivial rightIH
  | consequence _ decided _ conditionIH branchIH =>
      rw [Task.depth_of_run conditionIH] at branchIH
      have conditionEnded := Run.eq_ok_of_map Outcome.value.inj conditionIH
      rw [Task.run, Expr.eval_conditional, map_bind, Run.bind_of_ok _ conditionEnded, decided]
      exact branchIH
  | alternative _ decided _ conditionIH branchIH =>
      rw [Task.depth_of_run conditionIH] at branchIH
      have conditionEnded := Run.eq_ok_of_map Outcome.value.inj conditionIH
      rw [Task.run, Expr.eval_conditional, map_bind, Run.bind_of_ok _ conditionEnded, decided]
      exact branchIH
  | noAlternative _ decided conditionIH =>
      have conditionEnded := Run.eq_ok_of_map Outcome.value.inj conditionIH
      rw [Task.run, Expr.eval_conditional, map_bind, Run.bind_of_ok _ conditionEnded, decided]
      rfl
  | conditionInterrupted _ conditionIH => exact Part.finish_of_error .condition trivial conditionIH
  | call _ _ _ settled calleeIH argumentsIH callIH =>
      rw [Task.depth_of_run argumentsIH, Task.depth_of_run calleeIH] at callIH
      rw [Task.depth_of_run calleeIH] at argumentsIH
      have calleeEnded := Run.eq_ok_of_map Outcome.value.inj calleeIH
      have argumentsEnded := Run.eq_ok_of_map Outcome.values.inj argumentsIH
      have callEnded := Run.eq_ok_of_map Outcome.value.inj callIH
      rw [Task.run, Expr.eval, map_bind, Run.bind_of_ok _ calleeEnded, map_bind,
        Run.bind_of_ok _ argumentsEnded, map_bind, Run.bind_of_ok _ callEnded]
      exact settled
  | calleeInterrupted _ calleeIH => exact Part.finish_of_error .callee trivial calleeIH
  | argumentsInterrupted _ _ calleeIH argumentsIH =>
      rw [Task.depth_of_run calleeIH] at argumentsIH
      have calleeEnded := Run.eq_ok_of_map Outcome.value.inj calleeIH
      exact Part.finish_of_error (.arguments calleeEnded) trivial argumentsIH
  | callFailed _ _ _ calleeIH argumentsIH callIH =>
      rw [Task.depth_of_run argumentsIH, Task.depth_of_run calleeIH] at callIH
      rw [Task.depth_of_run calleeIH] at argumentsIH
      have calleeEnded := Run.eq_ok_of_map Outcome.value.inj calleeIH
      have argumentsEnded := Run.eq_ok_of_map Outcome.values.inj argumentsIH
      exact Part.finish_of_error (.call calleeEnded argumentsEnded) trivial callIH
  | list _ elementsIH =>
      have elementsEnded := Run.eq_ok_of_map Outcome.values.inj elementsIH
      rw [Task.run, Expr.eval, map_bind, Run.bind_of_ok _ elementsEnded]
      rfl
  | elementsInterrupted _ elementsIH => exact Part.finish_of_error .elements trivial elementsIH
  | map _ pairsIH =>
      have pairsEnded := Run.eq_ok_of_map Outcome.entries.inj pairsIH
      rw [Task.run, Expr.eval, map_bind, Run.bind_of_ok _ pairsEnded]
      rfl
  | pairsInterrupted _ pairsIH => exact Part.finish_of_error .pairs trivial pairsIH
  | index _ _ settled collectionIH positionIH =>
      rw [Task.depth_of_run collectionIH] at positionIH
      have collectionEnded := Run.eq_ok_of_map Outcome.value.inj collectionIH
      have positionEnded := Run.eq_ok_of_map Outcome.value.inj positionIH
      rw [Task.run, Expr.eval, map_bind, Run.bind_of_ok _ collectionEnded, map_bind,
        Run.bind_of_ok _ positionEnded]
      exact settled
  | collectionInterrupted _ collectionIH =>
      exact Part.finish_of_error .collection trivial collectionIH
  | positionInterrupted _ _ collectionIH positionIH =>
      rw [Task.depth_of_run collectionIH] at positionIH
      have collectionEnded := Run.eq_ok_of_map Outcome.value.inj collectionIH
      exact Part.finish_of_error (.position collectionEnded) trivial positionIH
  | noExprs | noPairs | noStmts => rfl
  | exprs _ _ firstIH restIH =>
      rw [Task.depth_of_run firstIH] at restIH
      have firstEnded := Run.eq_ok_of_map Outcome.value.inj firstIH
      have restEnded := Run.eq_ok_of_map Outcome.values.inj restIH
      rw [Task.run, Expr.evalAll, map_bind, Run.bind_of_ok _ firstEnded, map_bind,
        Run.bind_of_ok _ restEnded]
      rfl
  | firstExprInterrupted _ firstIH => exact Part.finish_of_error .firstExpr trivial firstIH
  | otherExprsInterrupted _ _ firstIH restIH =>
      rw [Task.depth_of_run firstIH] at restIH
      have firstEnded := Run.eq_ok_of_map Outcome.value.inj firstIH
      exact Part.finish_of_error (.otherExprs firstEnded) trivial restIH
  | pairs _ isKey _ _ keyIH valueIH restIH =>
      rw [Task.depth_of_run valueIH, Task.depth_of_run keyIH] at restIH
      rw [Task.depth_of_run keyIH] at valueIH
      have keyEnded := Run.eq_ok_of_map Outcome.value.inj keyIH
      have valueEnded := Run.eq_ok_of_map Outcome.value.inj valueIH
      rw [Task.run, Expr.evalPairs, map_bind, Run.bind_of_ok _ keyEnded, isKey]
      simp only [map_bind]
      rw [Run.bind_of_ok _ valueEnded]
      exact restIH
  | keyInterrupted _ keyIH => exact Part.finish_of_error .key trivial keyIH
  | unhashable _ noKey keyIH =>
      have keyEnded := Run.eq_ok_of_map Outcome.value.inj keyIH
      rw [Task.run, Expr.evalPairs, map_bind, Run.bind_of_ok _ keyEnded, noKey]
      rfl
  | valueInterrupted _ isKey _ keyIH valueIH =>
      rw [Task.depth_of_run keyIH] at valueIH
      have keyEnded := Run.eq_ok_of_map Outcome.value.inj keyIH
      exact Part.finish_of_error (.value keyEnded isKey) trivial valueIH
  | block _ statementsIH =>
      have statementsEnded := Run.eq_ok_of_map Outcome.last.inj statementsIH
      rw [Task.run, Block.eval, map_bind, Run.bind_of_ok _ statementsEnded]
      rfl
  | blockInterrupted _ statementsIH => exact Part.finish_of_error .body trivial statementsIH
  | stmts _ _ firstIH restIH =>
      rw [Task.depth_of_run firstIH] at restIH
      have firstEnded := Run.eq_ok_of_map Outcome.last.inj firstIH
      rw [Task.run, Stmt.evalAll, map_bind, Run.bind_of_ok _ firstEnded]
      exact restIH
  | firstStmtInterrupted _ firstIH => exact Part.finish_of_error .firstStmt trivial firstIH
  | bind _ valueIH | ret _ valueIH | expr _ valueIH =>
      have valueEnded := Run.eq_ok_of_map Outcome.value.inj valueIH
      rw [Task.run, Stmt.eval, map_bind, Run.bind_of_ok _ valueEnded]
      rfl
  | bindInterrupted _ valueIH => exact Part.finish_of_error .bound trivial valueIH
  | retInterrupted _ valueIH => exact Part.finish_of_error .returned trivial valueIH
  | exprInterrupted _ valueIH => exact Part.finish_of_error .plain trivial valueIH
  | @wrongArgumentCount ref closure arguments machine miscounted =>
      rw [Task.run, Value.apply.eq_def]
      simp only [if_pos miscounted]
      rfl
  | @tooDeep ref closure arguments machine counted exhausted =>
      rw [Task.run, Nat.sub_eq_zero_of_le exhausted, Value.apply.eq_def]
      simp only [if_neg (not_not_intro counted)]
      rfl
  | @entered ref closure arguments machine opened result after counted allowed opens _ bodyIH =>
      obtain ⟨budget, more⟩ : ∃ budget, limit - machine.depth = budget + 1 :=
        Nat.exists_eq_succ_of_ne_zero (Nat.sub_ne_zero_of_lt allowed)
      have entered : opened.2.enterCall.depth = machine.depth + 1 := by
        rw [← opens]
        rfl
      have less : limit - opened.2.enterCall.depth = budget := by omega
      rw [Task.run, more, Value.apply.eq_def]
      simp only [if_neg (not_not_intro counted)]
      rw [less] at bodyIH
      exact Closure.map_enter opens bodyIH
  | native invoked =>
      rw [Task.run, Value.apply.eq_def]
      exact invoked
  | @notCallable callee arguments machine noFunction noBuiltin =>
      rw [Task.run, Value.apply.eq_def]
      cases callee with
      | function ref closure => exact absurd rfl noFunction
      | builtin native => exact absurd rfl noBuiltin
      | _ => rfl
  | program _ statementsIH => exact Run.map_catchReturn Outcome.last some statementsIH

end Script
