import Mathlib.Logic.ExistsUnique
import Script.Proofs.EvaluationRules

/-!
# Evaluation ends

The parts of a task work on smaller pieces of its code with as many calls active, up to the body of
a function. That body can be anything, larger than the code that calls it and equal to it, but one
more call is active in it and the limit leaves room for that. So the number of calls that may still
be nested and then the size of the code decrease lexicographically, and every task has an ending.
-/

set_option autoImplicit false

namespace Script

/-- The size of the code that a task works on. A call has none: the body of the callee is not
looked at before the call is entered. -/
noncomputable def Task.size : Task → Nat
  | .expr _ code => sizeOf code
  | .exprs _ codes => sizeOf codes
  | .pairs _ _ codes => sizeOf codes
  | .block _ code => sizeOf code
  | .stmts _ _ codes => sizeOf codes
  | .stmt _ code => sizeOf code
  | .call _ _ => 0
  | .program _ code => sizeOf code

private theorem Expr.depth_of_eval {limit budget : Nat} {env : Env} {expr : Expr}
    {machine after : Machine} {value : Value}
    (ended : expr.eval (Value.apply limit budget) env machine = (.ok value, after)) :
    after.depth = machine.depth :=
  @Task.depth_of_run limit budget (.expr env expr) _ _ _ (Run.map_of_ok Outcome.value ended)

private theorem Expr.depth_of_evalAll {limit budget : Nat} {env : Env} {exprs : List Expr}
    {machine after : Machine} {values : List Value}
    (ended : Expr.evalAll (Value.apply limit budget) env exprs machine = (.ok values, after)) :
    after.depth = machine.depth :=
  @Task.depth_of_run limit budget (.exprs env exprs) _ _ _ (Run.map_of_ok Outcome.values ended)

private theorem Stmt.depth_of_eval {limit budget : Nat} {env : Env} {stmt : Stmt}
    {machine after : Machine} {result : Option Value}
    (ended : stmt.eval (Value.apply limit budget) env machine = (.ok result, after)) :
    after.depth = machine.depth :=
  @Task.depth_of_run limit budget (.stmt env stmt) _ _ _ (Run.map_of_ok Outcome.last ended)

namespace Activity

/-- What the ending of an activity is bounded by: the number of calls that may still be nested, and
then the size of the code. -/
noncomputable def rank (activity : Activity) : Nat × Nat :=
  (activity.limit - activity.machine.depth, activity.task.size)

def Counted (activity : Activity) : Prop :=
  activity.budget = activity.limit - activity.machine.depth

/-- The code of a part is smaller, up to the body of a function. -/
theorem Part.size_lt {outer inner : Activity} (part : Part outer inner)
    (isCode : outer.task.IsCode) : inner.task.size < outer.task.size := by
  cases part with
  | entered => cases isCode
  | @statements _ _ _ program =>
      cases program
      simp only [Task.size, Program.mk.sizeOf_spec]
      omega
  | _ =>
      simp only [Task.size, Expr.unary.sizeOf_spec, Expr.binary.sizeOf_spec,
        Expr.conditional.sizeOf_spec, Expr.call.sizeOf_spec, Expr.list.sizeOf_spec,
        Expr.map.sizeOf_spec, Expr.index.sizeOf_spec, Option.some.sizeOf_spec,
        List.cons.sizeOf_spec, Prod.mk.sizeOf_spec, Block.mk.sizeOf_spec, Stmt.bind.sizeOf_spec,
        Stmt.ret.sizeOf_spec, Stmt.expr.sizeOf_spec]
      omega

/-- A part is started with as many calls active as the whole, up to the body of a function, in
which one more is active and one less may be nested. -/
theorem Part.depth_eq {outer inner : Activity} (part : Part outer inner) :
    outer.task.IsCode ∧ inner.machine.depth = outer.machine.depth ∧ inner.budget = outer.budget ∨
      inner.machine.depth = outer.machine.depth + 1 ∧ outer.budget = inner.budget + 1 := by
  cases part with
  | entered _ opens =>
      subst opens
      exact .inr ⟨rfl, rfl⟩
  | right ended | consequence ended _ | alternative ended _ | arguments ended | position ended
  | otherExprs ended | value ended _ => exact .inl ⟨trivial, Expr.depth_of_eval ended, rfl⟩
  | call calleeEnded argumentsEnded =>
      have same := Expr.depth_of_evalAll argumentsEnded
      exact .inl ⟨trivial, same.trans (Expr.depth_of_eval calleeEnded), rfl⟩
  | otherPairs keyEnded _ valueEnded =>
      have same := Expr.depth_of_eval valueEnded
      exact .inl ⟨trivial, same.trans (Expr.depth_of_eval keyEnded), rfl⟩
  | otherStmts ended => exact .inl ⟨trivial, Stmt.depth_of_eval ended, rfl⟩
  | _ => exact .inl ⟨trivial, rfl, rfl⟩

theorem Part.limit_eq {outer inner : Activity} (part : Part outer inner) :
    inner.limit = outer.limit := by
  cases part <;> rfl

private theorem Part.counted {outer inner : Activity} (part : Part outer inner)
    (counted : outer.Counted) : inner.Counted := by
  unfold Counted at counted ⊢
  rw [part.limit_eq]
  rcases part.depth_eq with ⟨_, sameDepth, sameBudget⟩ | ⟨deeper, lower⟩
  · rw [sameBudget, sameDepth, counted]
  · omega

private theorem Part.rank_lt {outer inner : Activity} (part : Part outer inner)
    (counted : outer.Counted) : Prod.Lex (· < ·) (· < ·) inner.rank outer.rank := by
  unfold Counted at counted
  unfold rank
  rw [part.limit_eq]
  rcases part.depth_eq with ⟨isCode, sameDepth, _⟩ | ⟨deeper, lower⟩
  · rw [sameDepth]
    exact .right _ (part.size_lt isCode)
  · exact .left _ _ (by omega)

/-- Budgets account for the active calls at everything evaluated on the way. -/
theorem Within.counted {outer inner : Activity} (within : Within outer inner)
    (counted : outer.Counted) : inner.Counted := by
  induction within with
  | refl => exact counted
  | tail _ part ih => exact part.counted ih

end Activity

/-! ## Every task has an ending -/

/-- Wherever `depth` calls are active, the rules derive an ending of the task. -/
def EndsAt (limit depth : Nat) (task : Task) : Prop :=
  ∀ machine : Machine, machine.depth = depth →
    ∃ result after, Evaluates limit task machine result after

section

variable {limit depth : Nat} {env : Env}

/-- A task whose outcomes have one form ends with an interrupt, or with an outcome of that form and
as many active calls as before. -/
theorem EndsAt.split {α : Type} {task : Task} {form : α → Outcome} {run : Nat → Run Interrupt α}
    (ends : EndsAt limit depth task) (isRun : ∀ budget, task.run limit budget = form <$> run budget)
    {machine : Machine} (here : machine.depth = depth) :
    (∃ interrupt after, Evaluates limit task machine (.error interrupt) after) ∨
      ∃ value after, Evaluates limit task machine (.ok (form value)) after ∧
        after.depth = depth := by
  obtain ⟨result, after, evaluates⟩ := ends machine here
  have ended := evaluates.run_eq
  have sameDepth := (Task.depth_of_run ended).trans here
  rw [isRun] at ended
  rcases Run.map_ends form (run _) machine with ⟨interrupt, _, failed⟩ | ⟨value, _, _, done⟩
  · rw [failed] at ended
    cases ended
    exact .inl ⟨interrupt, after, evaluates⟩
  · rw [done] at ended
    cases ended
    exact .inr ⟨value, after, evaluates, sameDepth⟩

private theorem endsAt_unary {token : Token} {op : UnaryOp} {operand : Expr}
    (operandEnds : EndsAt limit depth (.expr env operand)) :
    EndsAt limit depth (.expr env (.unary token op operand)) := by
  intro machine here
  rcases operandEnds.split (fun _ => rfl) here with ⟨_, _, interrupted⟩ | ⟨_, _, evaluated, _⟩
  · exact ⟨_, _, .operandInterrupted interrupted⟩
  · exact ⟨_, _, .unary evaluated rfl⟩

private theorem endsAt_binary {token : Token} {op : BinaryOp} {left right : Expr}
    (leftEnds : EndsAt limit depth (.expr env left))
    (rightEnds : EndsAt limit depth (.expr env right)) :
    EndsAt limit depth (.expr env (.binary token op left right)) := by
  intro machine here
  rcases leftEnds.split (fun _ => rfl) here with ⟨_, _, interrupted⟩ | ⟨_, _, evaluated, there⟩
  · exact ⟨_, _, .leftInterrupted interrupted⟩
  · rcases rightEnds.split (fun _ => rfl) there with ⟨_, _, interrupted⟩ | ⟨_, _, evaluated', _⟩
    · exact ⟨_, _, .rightInterrupted evaluated interrupted⟩
    · exact ⟨_, _, .binary evaluated evaluated' rfl⟩

private theorem endsAt_conditional {token : Token} {condition : Expr} {consequence : Block}
    {alternative : Option Block} (conditionEnds : EndsAt limit depth (.expr env condition))
    (consequenceEnds : EndsAt limit depth (.block env consequence))
    (alternativeEnds : ∀ block ∈ alternative, EndsAt limit depth (.block env block)) :
    EndsAt limit depth (.expr env (.conditional token condition consequence alternative)) := by
  intro machine here
  rcases conditionEnds.split (fun _ => rfl) here with
    ⟨_, _, interrupted⟩ | ⟨decision, _, evaluated, there⟩
  · exact ⟨_, _, .conditionInterrupted interrupted⟩
  · cases decided : decision.truthy with
    | true =>
        obtain ⟨_, _, branch⟩ := consequenceEnds _ there
        exact ⟨_, _, .consequence evaluated decided branch⟩
    | false =>
        cases alternative with
        | none => exact ⟨_, _, .noAlternative evaluated decided⟩
        | some block =>
            obtain ⟨_, _, branch⟩ := alternativeEnds block rfl _ there
            exact ⟨_, _, .alternative evaluated decided branch⟩

private theorem endsAt_call {token : Token} {callee : Expr} {arguments : List Expr}
    (calleeEnds : EndsAt limit depth (.expr env callee))
    (argumentsEnd : EndsAt limit depth (.exprs env arguments))
    (callsEnd : ∀ function values, EndsAt limit depth (.call function values)) :
    EndsAt limit depth (.expr env (.call token callee arguments)) := by
  intro machine here
  rcases calleeEnds.split (fun _ => rfl) here with
    ⟨_, _, interrupted⟩ | ⟨function, _, evaluated, there⟩
  · exact ⟨_, _, .calleeInterrupted interrupted⟩
  · rcases argumentsEnd.split (fun _ => rfl) there with
      ⟨_, _, interrupted⟩ | ⟨values, _, evaluated', there'⟩
    · exact ⟨_, _, .argumentsInterrupted evaluated interrupted⟩
    · rcases (callsEnd function values).split (fun _ => rfl) there' with
        ⟨_, _, failed⟩ | ⟨_, _, called, _⟩
      · exact ⟨_, _, .callFailed evaluated evaluated' failed⟩
      · exact ⟨_, _, .call evaluated evaluated' called rfl⟩

private theorem endsAt_list {token : Token} {elements : List Expr}
    (elementsEnd : EndsAt limit depth (.exprs env elements)) :
    EndsAt limit depth (.expr env (.list token elements)) := by
  intro machine here
  rcases elementsEnd.split (fun _ => rfl) here with ⟨_, _, interrupted⟩ | ⟨_, _, evaluated, _⟩
  · exact ⟨_, _, .elementsInterrupted interrupted⟩
  · exact ⟨_, _, .list evaluated⟩

private theorem endsAt_map {token : Token} {pairs : List (Expr × Expr)}
    (pairsEnd : EndsAt limit depth (.pairs env [] pairs)) :
    EndsAt limit depth (.expr env (.map token pairs)) := by
  intro machine here
  rcases pairsEnd.split (fun _ => rfl) here with ⟨_, _, interrupted⟩ | ⟨_, _, evaluated, _⟩
  · exact ⟨_, _, .pairsInterrupted interrupted⟩
  · exact ⟨_, _, .map evaluated⟩

private theorem endsAt_index {token : Token} {collection position : Expr}
    (collectionEnds : EndsAt limit depth (.expr env collection))
    (positionEnds : EndsAt limit depth (.expr env position)) :
    EndsAt limit depth (.expr env (.index token collection position)) := by
  intro machine here
  rcases collectionEnds.split (fun _ => rfl) here with
    ⟨_, _, interrupted⟩ | ⟨_, _, evaluated, there⟩
  · exact ⟨_, _, .collectionInterrupted interrupted⟩
  · rcases positionEnds.split (fun _ => rfl) there with
      ⟨_, _, interrupted⟩ | ⟨_, _, evaluated', _⟩
    · exact ⟨_, _, .positionInterrupted evaluated interrupted⟩
    · exact ⟨_, _, .index evaluated evaluated' rfl⟩

private theorem endsAt_exprs {expr : Expr} {rest : List Expr}
    (firstEnds : EndsAt limit depth (.expr env expr))
    (restEnds : EndsAt limit depth (.exprs env rest)) :
    EndsAt limit depth (.exprs env (expr :: rest)) := by
  intro machine here
  rcases firstEnds.split (fun _ => rfl) here with ⟨_, _, interrupted⟩ | ⟨_, _, evaluated, there⟩
  · exact ⟨_, _, .firstExprInterrupted interrupted⟩
  · rcases restEnds.split (fun _ => rfl) there with ⟨_, _, interrupted⟩ | ⟨_, _, evaluated', _⟩
    · exact ⟨_, _, .otherExprsInterrupted evaluated interrupted⟩
    · exact ⟨_, _, .exprs evaluated evaluated'⟩

private theorem endsAt_pairs {key value : Expr} {rest : List (Expr × Expr)}
    {entries : List (Key × Value)} (keyEnds : EndsAt limit depth (.expr env key))
    (valueEnds : EndsAt limit depth (.expr env value))
    (restEnds : ∀ entries, EndsAt limit depth (.pairs env entries rest)) :
    EndsAt limit depth (.pairs env entries ((key, value) :: rest)) := by
  intro machine here
  rcases keyEnds.split (fun _ => rfl) here with
    ⟨_, _, interrupted⟩ | ⟨keyValue, _, evaluated, there⟩
  · exact ⟨_, _, .keyInterrupted interrupted⟩
  · cases isKey : keyValue.key? with
    | none => exact ⟨_, _, .unhashable evaluated isKey⟩
    | some key' =>
        rcases valueEnds.split (fun _ => rfl) there with
          ⟨_, _, interrupted⟩ | ⟨_, _, evaluated', there'⟩
        · exact ⟨_, _, .valueInterrupted evaluated isKey interrupted⟩
        · obtain ⟨_, _, more⟩ := restEnds _ _ there'
          exact ⟨_, _, .pairs evaluated isKey evaluated' more⟩

private theorem endsAt_block {token : Token} {statements : List Stmt}
    (statementsEnd : EndsAt limit depth (.stmts env none statements)) :
    EndsAt limit depth (.block env ⟨token, statements⟩) := by
  intro machine here
  rcases statementsEnd.split (fun _ => rfl) here with
    ⟨_, _, interrupted⟩ | ⟨_, _, evaluated, _⟩
  · exact ⟨_, _, .blockInterrupted interrupted⟩
  · exact ⟨_, _, .block evaluated⟩

private theorem endsAt_stmts {stmt : Stmt} {rest : List Stmt} {last : Option Value}
    (firstEnds : EndsAt limit depth (.stmt env stmt))
    (restEnds : ∀ value, EndsAt limit depth (.stmts env value rest)) :
    EndsAt limit depth (.stmts env last (stmt :: rest)) := by
  intro machine here
  rcases firstEnds.split (fun _ => rfl) here with
    ⟨_, _, interrupted⟩ | ⟨value, _, evaluated, there⟩
  · exact ⟨_, _, .firstStmtInterrupted interrupted⟩
  · obtain ⟨_, _, more⟩ := restEnds value _ there
    exact ⟨_, _, .stmts evaluated more⟩

private theorem endsAt_bind {token name : Token} {value : Expr}
    (valueEnds : EndsAt limit depth (.expr env value)) :
    EndsAt limit depth (.stmt env (.bind token name value)) := by
  intro machine here
  rcases valueEnds.split (fun _ => rfl) here with ⟨_, _, interrupted⟩ | ⟨_, _, evaluated, _⟩
  · exact ⟨_, _, .bindInterrupted interrupted⟩
  · exact ⟨_, _, .bind evaluated⟩

private theorem endsAt_ret {token : Token} {value : Expr}
    (valueEnds : EndsAt limit depth (.expr env value)) :
    EndsAt limit depth (.stmt env (.ret token value)) := by
  intro machine here
  rcases valueEnds.split (fun _ => rfl) here with ⟨_, _, interrupted⟩ | ⟨_, _, evaluated, _⟩
  · exact ⟨_, _, .retInterrupted interrupted⟩
  · exact ⟨_, _, .ret evaluated⟩

private theorem endsAt_expr {token : Token} {expression : Expr}
    (valueEnds : EndsAt limit depth (.expr env expression)) :
    EndsAt limit depth (.stmt env (.expr token expression)) := by
  intro machine here
  rcases valueEnds.split (fun _ => rfl) here with ⟨_, _, interrupted⟩ | ⟨_, _, evaluated, _⟩
  · exact ⟨_, _, .exprInterrupted interrupted⟩
  · exact ⟨_, _, .expr evaluated⟩

end

mutual

/-- An expression ends if calls do, by recursion on the tree. -/
theorem Expr.endsAt {limit depth : Nat}
    (callsEnd : ∀ function values, EndsAt limit depth (.call function values)) (env : Env) :
    (expr : Expr) → EndsAt limit depth (.expr env expr)
  | .ident _ => fun _ _ => ⟨_, _, .ident rfl⟩
  | .int _ _ => fun _ _ => ⟨_, _, .int⟩
  | .bool _ _ => fun _ _ => ⟨_, _, .bool⟩
  | .str _ => fun _ _ => ⟨_, _, .str⟩
  | .unary _ _ operand => endsAt_unary (operand.endsAt callsEnd env)
  | .binary _ _ left right => endsAt_binary (left.endsAt callsEnd env) (right.endsAt callsEnd env)
  | .conditional _ condition consequence none =>
      endsAt_conditional (condition.endsAt callsEnd env) (consequence.endsAt callsEnd env) nofun
  | .conditional _ condition consequence (some alternative) =>
      endsAt_conditional (condition.endsAt callsEnd env) (consequence.endsAt callsEnd env) (by
        rintro _ ⟨⟩
        exact alternative.endsAt callsEnd env)
  | .function _ _ _ => fun _ _ => ⟨_, _, .function⟩
  | .call _ callee arguments =>
      endsAt_call (callee.endsAt callsEnd env) (Expr.allEndAt callsEnd env arguments) callsEnd
  | .list _ elements => endsAt_list (Expr.allEndAt callsEnd env elements)
  | .map _ pairs => endsAt_map (Expr.pairsEndAt callsEnd env pairs [])
  | .index _ collection position =>
      endsAt_index (collection.endsAt callsEnd env) (position.endsAt callsEnd env)

theorem Expr.allEndAt {limit depth : Nat}
    (callsEnd : ∀ function values, EndsAt limit depth (.call function values)) (env : Env) :
    (exprs : List Expr) → EndsAt limit depth (.exprs env exprs)
  | [] => fun _ _ => ⟨_, _, .noExprs⟩
  | expr :: rest => endsAt_exprs (expr.endsAt callsEnd env) (Expr.allEndAt callsEnd env rest)

theorem Expr.pairsEndAt {limit depth : Nat}
    (callsEnd : ∀ function values, EndsAt limit depth (.call function values)) (env : Env) :
    (pairs : List (Expr × Expr)) → ∀ entries, EndsAt limit depth (.pairs env entries pairs)
  | [] => fun _ _ _ => ⟨_, _, .noPairs⟩
  | (key, value) :: rest => fun _ =>
      endsAt_pairs (key.endsAt callsEnd env) (value.endsAt callsEnd env)
        (Expr.pairsEndAt callsEnd env rest)

theorem Block.endsAt {limit depth : Nat}
    (callsEnd : ∀ function values, EndsAt limit depth (.call function values)) (env : Env) :
    (block : Block) → EndsAt limit depth (.block env block)
  | ⟨_, statements⟩ => endsAt_block (Stmt.allEndAt callsEnd env statements none)

theorem Stmt.allEndAt {limit depth : Nat}
    (callsEnd : ∀ function values, EndsAt limit depth (.call function values)) (env : Env) :
    (stmts : List Stmt) → ∀ last, EndsAt limit depth (.stmts env last stmts)
  | [] => fun _ _ _ => ⟨_, _, .noStmts⟩
  | stmt :: rest => fun _ =>
      endsAt_stmts (stmt.endsAt callsEnd env) (Stmt.allEndAt callsEnd env rest)

theorem Stmt.endsAt {limit depth : Nat}
    (callsEnd : ∀ function values, EndsAt limit depth (.call function values)) (env : Env) :
    (stmt : Stmt) → EndsAt limit depth (.stmt env stmt)
  | .bind _ _ value => endsAt_bind (value.endsAt callsEnd env)
  | .ret _ value => endsAt_ret (value.endsAt callsEnd env)
  | .expr _ expression => endsAt_expr (expression.endsAt callsEnd env)

end

/-- A call is refused, or its body ends, since fewer calls may be nested in it. -/
theorem Value.callEndsAt (limit depth : Nat) (callee : Value) (arguments : List Value) :
    EndsAt limit depth (.call callee arguments) := by
  intro machine here
  cases callee with
  | function ref closure =>
      by_cases counted : arguments.length = closure.parameters.length
      · by_cases allowed : machine.depth < limit
        · have callsEnd := Value.callEndsAt limit (depth + 1)
          have deeper : (machine.newScope closure.env (.ofArguments closure.parameters
              arguments)).2.enterCall.depth = depth + 1 := congrArg (· + 1) here
          obtain ⟨_, _, body⟩ := closure.body.endsAt callsEnd _ _ deeper
          exact ⟨_, _, .entered counted allowed rfl body⟩
        · exact ⟨_, _, .tooDeep counted (Nat.le_of_not_lt allowed)⟩
      · exact ⟨_, _, .wrongArgumentCount counted⟩
  | builtin native => exact ⟨_, _, .native rfl⟩
  | _ => exact ⟨_, _, .notCallable nofun nofun⟩
termination_by limit - depth

private theorem Task.endsAt (limit depth : Nat) (task : Task) : EndsAt limit depth task := by
  have callsEnd := Value.callEndsAt limit depth
  cases task with
  | expr env code => exact code.endsAt callsEnd env
  | exprs env codes => exact Expr.allEndAt callsEnd env codes
  | pairs env entries codes => exact Expr.pairsEndAt callsEnd env codes entries
  | block env code => exact code.endsAt callsEnd env
  | stmts env last codes => exact Stmt.allEndAt callsEnd env codes last
  | stmt env code => exact code.endsAt callsEnd env
  | call callee arguments => exact callsEnd callee arguments
  | program env code =>
      intro machine here
      obtain ⟨_, _, body⟩ := Stmt.allEndAt callsEnd env code.statements none machine here
      exact ⟨_, _, .program body⟩

/-- Evaluation ends, whatever the code, the machine, the limit and the number of active calls: a
task has exactly one ending by the rules, which is the one that the evaluator computes. Every
evaluation that is started on the way has less calls left to nest than the one that starts it, or as
many and less code. -/
theorem Activity.start_ends (limit : Nat) (task : Task) (machine : Machine) :
    (∃! ending : Except Interrupt Outcome × Machine,
        Evaluates limit task machine ending.1 ending.2) ∧
      Evaluates limit task machine (start limit task machine).finish.1
        (start limit task machine).finish.2 ∧
      ∀ outer inner, Within (start limit task machine) outer → Part outer inner →
        Prod.Lex (· < ·) (· < ·) inner.rank outer.rank := by
  obtain ⟨result, after, evaluates⟩ := task.endsAt limit machine.depth machine rfl
  have ended : (start limit task machine).finish = (result, after) := evaluates.run_eq
  refine ⟨⟨(result, after), evaluates, ?_⟩, ?_, ?_⟩
  · intro ending other
    exact other.run_eq.symm.trans ended
  · rw [ended]
    exact evaluates
  · intro outer inner within part
    exact part.rank_lt (Within.counted within rfl)

def Value.selfApplying : Value :=
  .function 0 ⟨[⟨.ident, "f"⟩], ⟨⟨.openBrace, "\x7b"⟩, [.expr ⟨.ident, "f"⟩
    (.call ⟨.openParen, "("⟩ (.ident ⟨.ident, "f"⟩) [.ident ⟨.ident, "f"⟩])]⟩, ⟨0, []⟩⟩

-- Called with itself, the function ends at the limit.
example : (Value.call 3 .selfApplying [.selfApplying] (.ofScopes #[.empty] 1)).1 =
    .error (.callDepthExceeded 3) := by
  rfl

end Script
