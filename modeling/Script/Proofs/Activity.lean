import Mathlib.Logic.Relation
import Script.Eval.Program

/-!
# What a run consists of

Evaluating a piece of code evaluates parts of it, and calls run the bodies of functions that are no
part of it. An activity is one such evaluation with the machine that it starts on, and `Part` lists
the activities that an activity starts itself. The machines that a run passes through are those on
which its activities start and those that they leave: only binding a name, opening the scope of a
call, counting a call, making a value and writing happen in between, each as the first or the last
thing that an activity does.
-/

set_option autoImplicit false

namespace Script

inductive Task where
  | expr (env : Env) (expr : Expr)
  | exprs (env : Env) (exprs : List Expr)
  | pairs (env : Env) (entries : List (Key × Value)) (pairs : List (Expr × Expr))
  | block (env : Env) (block : Block)
  | stmts (env : Env) (last : Option Value) (stmts : List Stmt)
  | stmt (env : Env) (stmt : Stmt)
  | call (callee : Value) (arguments : List Value)
  | program (env : Env) (program : Program)

inductive Outcome where
  | value (value : Value)
  | values (values : List Value)
  | entries (entries : List (Key × Value))
  | last (value : Option Value)

def Task.run (limit budget : Nat) : Task → Run Interrupt Outcome
  | .expr env code => Outcome.value <$> code.eval (Value.apply limit budget) env
  | .exprs env codes => Outcome.values <$> Expr.evalAll (Value.apply limit budget) env codes
  | .pairs env entries codes =>
      Outcome.entries <$> Expr.evalPairs (Value.apply limit budget) env entries codes
  | .block env code => Outcome.value <$> code.eval (Value.apply limit budget) env
  | .stmts env value codes =>
      Outcome.last <$> Stmt.evalAll (Value.apply limit budget) env value codes
  | .stmt env code => Outcome.last <$> code.eval (Value.apply limit budget) env
  | .call callee arguments =>
      Outcome.value <$> (Value.apply limit budget callee arguments).interruptible
  | .program env code =>
      Outcome.last <$> ((Stmt.evalAll (Value.apply limit budget) env none
        code.statements).catchReturn some).interruptible

/-- The result has one property, or the exception another. -/
def Run.Ends {ε α : Type} (good : α → Prop) (bad : ε → Prop) : Except ε α → Prop
  | .ok result => good result
  | .error exception => bad exception

structure Activity where
  limit : Nat
  budget : Nat
  task : Task
  machine : Machine

namespace Activity

def finish (activity : Activity) : Except Interrupt Outcome × Machine :=
  activity.task.run activity.limit activity.budget activity.machine

/-- A task that runs for itself: the calls that are already active count toward the limit. -/
def start (limit : Nat) (task : Task) (machine : Machine) : Activity :=
  ⟨limit, limit - machine.depth, task, machine⟩

/-- The activities that an activity starts. Those after the first presuppose that the earlier ones
ended with a result, and start on the machine that these left. -/
inductive Part : Activity → Activity → Prop where
  | operand {limit budget env token op operand machine} :
      Part ⟨limit, budget, .expr env (.unary token op operand), machine⟩
        ⟨limit, budget, .expr env operand, machine⟩
  | left {limit budget env token op left right machine} :
      Part ⟨limit, budget, .expr env (.binary token op left right), machine⟩
        ⟨limit, budget, .expr env left, machine⟩
  | right {limit budget env token op left right machine value after} :
      left.eval (Value.apply limit budget) env machine = (.ok value, after) →
      Part ⟨limit, budget, .expr env (.binary token op left right), machine⟩
        ⟨limit, budget, .expr env right, after⟩
  | condition {limit budget env token condition consequence alternative machine} :
      Part ⟨limit, budget, .expr env (.conditional token condition consequence alternative),
          machine⟩
        ⟨limit, budget, .expr env condition, machine⟩
  | consequence {limit budget env token condition consequence alternative machine value after} :
      condition.eval (Value.apply limit budget) env machine = (.ok value, after) →
      value.truthy = true →
      Part ⟨limit, budget, .expr env (.conditional token condition consequence alternative),
          machine⟩
        ⟨limit, budget, .block env consequence, after⟩
  | alternative {limit budget env token condition consequence alternative machine value after} :
      condition.eval (Value.apply limit budget) env machine = (.ok value, after) →
      value.truthy = false →
      Part ⟨limit, budget, .expr env (.conditional token condition consequence (some alternative)),
          machine⟩
        ⟨limit, budget, .block env alternative, after⟩
  | callee {limit budget env token callee arguments machine} :
      Part ⟨limit, budget, .expr env (.call token callee arguments), machine⟩
        ⟨limit, budget, .expr env callee, machine⟩
  | arguments {limit budget env token callee arguments machine function after} :
      callee.eval (Value.apply limit budget) env machine = (.ok function, after) →
      Part ⟨limit, budget, .expr env (.call token callee arguments), machine⟩
        ⟨limit, budget, .exprs env arguments, after⟩
  | call {limit budget env token callee arguments machine function after values after'} :
      callee.eval (Value.apply limit budget) env machine = (.ok function, after) →
      Expr.evalAll (Value.apply limit budget) env arguments after = (.ok values, after') →
      Part ⟨limit, budget, .expr env (.call token callee arguments), machine⟩
        ⟨limit, budget, .call function values, after'⟩
  | elements {limit budget env token elements machine} :
      Part ⟨limit, budget, .expr env (.list token elements), machine⟩
        ⟨limit, budget, .exprs env elements, machine⟩
  | pairs {limit budget env token pairs machine} :
      Part ⟨limit, budget, .expr env (.map token pairs), machine⟩
        ⟨limit, budget, .pairs env [] pairs, machine⟩
  | collection {limit budget env token collection position machine} :
      Part ⟨limit, budget, .expr env (.index token collection position), machine⟩
        ⟨limit, budget, .expr env collection, machine⟩
  | position {limit budget env token collection position machine value after} :
      collection.eval (Value.apply limit budget) env machine = (.ok value, after) →
      Part ⟨limit, budget, .expr env (.index token collection position), machine⟩
        ⟨limit, budget, .expr env position, after⟩
  | firstExpr {limit budget env expr rest machine} :
      Part ⟨limit, budget, .exprs env (expr :: rest), machine⟩
        ⟨limit, budget, .expr env expr, machine⟩
  | otherExprs {limit budget env expr rest machine value after} :
      expr.eval (Value.apply limit budget) env machine = (.ok value, after) →
      Part ⟨limit, budget, .exprs env (expr :: rest), machine⟩
        ⟨limit, budget, .exprs env rest, after⟩
  | key {limit budget env entries key value rest machine} :
      Part ⟨limit, budget, .pairs env entries ((key, value) :: rest), machine⟩
        ⟨limit, budget, .expr env key, machine⟩
  | value {limit budget env entries key value rest machine keyValue key' after} :
      key.eval (Value.apply limit budget) env machine = (.ok keyValue, after) →
      keyValue.key? = some key' →
      Part ⟨limit, budget, .pairs env entries ((key, value) :: rest), machine⟩
        ⟨limit, budget, .expr env value, after⟩
  | otherPairs {limit budget env entries key value rest machine keyValue key' after result after'} :
      key.eval (Value.apply limit budget) env machine = (.ok keyValue, after) →
      keyValue.key? = some key' →
      value.eval (Value.apply limit budget) env after = (.ok result, after') →
      Part ⟨limit, budget, .pairs env entries ((key, value) :: rest), machine⟩
        ⟨limit, budget, .pairs env (Assoc.insert Key.hash key' result entries) rest, after'⟩
  | body {limit budget env token statements machine} :
      Part ⟨limit, budget, .block env ⟨token, statements⟩, machine⟩
        ⟨limit, budget, .stmts env none statements, machine⟩
  | firstStmt {limit budget env last stmt rest machine} :
      Part ⟨limit, budget, .stmts env last (stmt :: rest), machine⟩
        ⟨limit, budget, .stmt env stmt, machine⟩
  | otherStmts {limit budget env last stmt rest machine result after} :
      stmt.eval (Value.apply limit budget) env machine = (.ok result, after) →
      Part ⟨limit, budget, .stmts env last (stmt :: rest), machine⟩
        ⟨limit, budget, .stmts env result rest, after⟩
  | bound {limit budget env token name value machine} :
      Part ⟨limit, budget, .stmt env (.bind token name value), machine⟩
        ⟨limit, budget, .expr env value, machine⟩
  | returned {limit budget env token value machine} :
      Part ⟨limit, budget, .stmt env (.ret token value), machine⟩
        ⟨limit, budget, .expr env value, machine⟩
  | plain {limit budget env token expression machine} :
      Part ⟨limit, budget, .stmt env (.expr token expression), machine⟩
        ⟨limit, budget, .expr env expression, machine⟩
  | entered {limit budget ref closure arguments machine opened} :
      arguments.length = closure.parameters.length →
      machine.newScope closure.env (.ofArguments closure.parameters arguments) = opened →
      Part ⟨limit, budget + 1, .call (.function ref closure) arguments, machine⟩
        ⟨limit, budget, .block opened.1 closure.body, opened.2.enterCall⟩
  | statements {limit budget env program machine} :
      Part ⟨limit, budget, .program env program, machine⟩
        ⟨limit, budget, .stmts env none program.statements, machine⟩

/-- One activity is a part of the other, or a part of a part, and so on. -/
abbrev Within : Activity → Activity → Prop := Relation.ReflTransGen Part

end Activity

/-! ## Sessions

Tasks that run one after the other on the same machine, each with its own limit. A task that fails
does not end the session. -/

abbrev Session : Type := List (Nat × Task)

def Session.after (machine : Machine) : Session → Machine
  | [] => machine
  | (limit, task) :: rest => Session.after (Activity.start limit task machine).finish.2 rest

/-- The activity belongs to one of the tasks of the session. -/
def Session.Reaches (session : Session) (machine : Machine) (activity : Activity) : Prop :=
  ∃ (earlier later : Session) (limit : Nat) (task : Task),
    session = earlier ++ (limit, task) :: later ∧
      Activity.Within (Activity.start limit task (Session.after machine earlier)) activity

end Script
