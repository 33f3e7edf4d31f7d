import Script.Proofs.EvaluationRules

/-!
# What is made is new

A run is a tree: an activity starts others, one after the other, and its place in the run is given
by the numbers of the parts that lead to it. Identities are given out in increasing order. What one
part of an activity is given therefore comes before all that a later part is given, and what an
activity makes as the last thing that it does comes after all that its parts made. So no two places
of a run make values with the same identity.
-/

set_option autoImplicit false

namespace Script

/-! ## The tree of a run -/

def Run.followedBy {ε α : Type} (run : Run ε α) (machine : Machine)
    (next : α → Machine → List Activity) : List Activity :=
  match run machine with
  | (.ok result, after) => next result after
  | (.error _, _) => []

namespace Activity

def parts : Activity → List Activity
  | ⟨limit, budget, .expr env (.unary _ _ operand), machine⟩ =>
      [⟨limit, budget, .expr env operand, machine⟩]
  | ⟨limit, budget, .expr env (.binary _ _ left right), machine⟩ =>
      ⟨limit, budget, .expr env left, machine⟩ ::
        (left.eval (Value.apply limit budget) env).followedBy machine fun _ after =>
          [⟨limit, budget, .expr env right, after⟩]
  | ⟨limit, budget, .expr env (.conditional _ condition consequence alternative), machine⟩ =>
      ⟨limit, budget, .expr env condition, machine⟩ ::
        (condition.eval (Value.apply limit budget) env).followedBy machine fun decision after =>
          if decision.truthy then [⟨limit, budget, .block env consequence, after⟩]
          else alternative.toList.map fun block => ⟨limit, budget, .block env block, after⟩
  | ⟨limit, budget, .expr env (.call _ callee arguments), machine⟩ =>
      ⟨limit, budget, .expr env callee, machine⟩ ::
        (callee.eval (Value.apply limit budget) env).followedBy machine fun function after =>
          ⟨limit, budget, .exprs env arguments, after⟩ ::
            (Expr.evalAll (Value.apply limit budget) env arguments).followedBy after
              fun values after' => [⟨limit, budget, .call function values, after'⟩]
  | ⟨limit, budget, .expr env (.list _ elements), machine⟩ =>
      [⟨limit, budget, .exprs env elements, machine⟩]
  | ⟨limit, budget, .expr env (.map _ pairs), machine⟩ =>
      [⟨limit, budget, .pairs env [] pairs, machine⟩]
  | ⟨limit, budget, .expr env (.index _ collection position), machine⟩ =>
      ⟨limit, budget, .expr env collection, machine⟩ ::
        (collection.eval (Value.apply limit budget) env).followedBy machine fun _ after =>
          [⟨limit, budget, .expr env position, after⟩]
  | ⟨limit, budget, .exprs env (expr :: rest), machine⟩ =>
      ⟨limit, budget, .expr env expr, machine⟩ ::
        (expr.eval (Value.apply limit budget) env).followedBy machine fun _ after =>
          [⟨limit, budget, .exprs env rest, after⟩]
  | ⟨limit, budget, .pairs env entries ((key, value) :: rest), machine⟩ =>
      ⟨limit, budget, .expr env key, machine⟩ ::
        (key.eval (Value.apply limit budget) env).followedBy machine fun keyValue after =>
          match keyValue.key? with
          | none => []
          | some key' =>
              ⟨limit, budget, .expr env value, after⟩ ::
                (value.eval (Value.apply limit budget) env).followedBy after fun result after' =>
                  [⟨limit, budget, .pairs env (Assoc.insert Key.hash key' result entries) rest,
                    after'⟩]
  | ⟨limit, budget, .block env ⟨_, statements⟩, machine⟩ =>
      [⟨limit, budget, .stmts env none statements, machine⟩]
  | ⟨limit, budget, .stmts env _ (stmt :: rest), machine⟩ =>
      ⟨limit, budget, .stmt env stmt, machine⟩ ::
        (stmt.eval (Value.apply limit budget) env).followedBy machine fun result after =>
          [⟨limit, budget, .stmts env result rest, after⟩]
  | ⟨limit, budget, .stmt env (.bind _ _ value), machine⟩
  | ⟨limit, budget, .stmt env (.ret _ value), machine⟩
  | ⟨limit, budget, .stmt env (.expr _ value), machine⟩ =>
      [⟨limit, budget, .expr env value, machine⟩]
  | ⟨limit, budget + 1, .call (.function _ closure) arguments, machine⟩ =>
      if arguments.length = closure.parameters.length then
        let opened := machine.newScope closure.env (.ofArguments closure.parameters arguments)
        [⟨limit, budget, .block opened.1 closure.body, opened.2.enterCall⟩]
      else []
  | ⟨limit, budget, .program env program, machine⟩ =>
      [⟨limit, budget, .stmts env none program.statements, machine⟩]
  | _ => []

def at? (activity : Activity) : List Nat → Option Activity
  | [] => some activity
  | number :: place => activity.parts[number]?.bind (·.at? place)

end Activity

/-! ## Identities are given out in increasing order -/

/-- Nothing takes back an identity that was given out. -/
theorem Machine.nextRef_bound :
    EffectBound fun _ (before after : Machine) => before.nextRef ≤ after.nextRef where
  refl _ machine := Nat.le_refl machine.nextRef
  trans := Nat.le_trans
  weaken _ le := le
  allocate machine := Nat.le_succ machine.nextRef
  write _ machine := Nat.le_refl machine.nextRef
  bind _ _ _ machine := Nat.le_refl machine.nextRef
  call le := le

/-- The run gives back no identity. -/
abbrev Run.Counts {ε α : Type} (run : Run ε α) : Prop :=
  run.Bounded fun before after => before.nextRef ≤ after.nextRef

namespace Activity

theorem nextRef_le (activity : Activity) :
    activity.machine.nextRef ≤ activity.finish.2.nextRef :=
  activity.task.run_bounded Machine.nextRef_bound activity.limit activity.budget activity.machine

/-- The activities run one after the other, the first not before `first` was the next identity and
the last until `last` is. -/
def Chained : Nat → List Activity → Nat → Prop
  | first, [], last => first ≤ last
  | first, activity :: rest, last =>
      first ≤ activity.machine.nextRef ∧ Chained activity.finish.2.nextRef rest last

namespace Chained

variable {first last : Nat} {activities : List Activity}

theorem le (chained : Chained first activities last) : first ≤ last := by
  induction activities generalizing first with
  | nil => exact chained
  | cons activity rest ih =>
      calc
        first ≤ activity.machine.nextRef := chained.1
        _ ≤ activity.finish.2.nextRef := activity.nextRef_le
        _ ≤ last := ih chained.2

variable {ε α β : Type} {run : Run ε α} {next : α → Run ε β} {machine : Machine}
  {limit budget : Nat} {task : Task}

/-- A task that does the first of two runs, and what the second consists of. -/
theorem bind {later : α → Machine → List Activity}
    (ends : (task.run limit budget machine).2 = (run machine).2)
    (follow : ∀ result after,
      Chained after.nextRef (later result after) (next result after).2.nextRef) :
    Chained machine.nextRef (⟨limit, budget, task, machine⟩ :: run.followedBy machine later)
      ((run >>= next) machine).2.nextRef := by
  refine ⟨Nat.le_refl _, ?_⟩
  rw [finish, ends, Run.bind_apply, Run.followedBy]
  cases run machine with
  | mk outcome after =>
      cases outcome with
      | ok result => exact follow result after
      | error exception => exact Nat.le_refl _

/-- A task that does the first of two runs, when the second starts no activities. -/
theorem only (ends : (task.run limit budget machine).2 = (run machine).2)
    (counts : ∀ result, (next result).Counts) :
    Chained machine.nextRef [⟨limit, budget, task, machine⟩]
      ((run >>= next) machine).2.nextRef := by
  refine ⟨Nat.le_refl _, ?_⟩
  rw [finish, ends, Run.bind_apply, Chained]
  cases run machine with
  | mk outcome after =>
      cases outcome with
      | ok result => exact counts result after
      | error exception => exact Nat.le_refl _

/-- A task that does the whole run. -/
theorem whole (ends : (task.run limit budget machine).2 = (run machine).2) :
    Chained machine.nextRef [⟨limit, budget, task, machine⟩] (run machine).2.nextRef :=
  ⟨Nat.le_refl _, Nat.le_of_eq (congrArg Machine.nextRef ends)⟩

end Chained

section Order

variable (limit budget : Nat) (env : Env) (machine : Machine)

end Order

end Activity

namespace Activity

namespace Chained

variable {first last : Nat} {activities : List Activity} {number number' : Nat}
  {part part' inner inner' : Activity} {place place' : List Nat} {ref : Ref}

end Chained

end Activity

/-! ## Sessions -/

namespace Session

def activities (machine : Machine) : Session → List Activity
  | [] => []
  | (limit, task) :: rest =>
      .start limit task machine :: activities (Activity.start limit task machine).finish.2 rest

/-- The activity at a place of a session: the number of a task, and a place in its run. -/
def at? (machine : Machine) (session : Session) : List Nat → Option Activity
  | [] => none
  | number :: place => (activities machine session)[number]?.bind (·.at? place)

end Session

end Script
