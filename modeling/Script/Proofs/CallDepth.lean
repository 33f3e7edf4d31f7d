import Script.Proofs.Termination

/-!
# Counting calls

A call of a function is active while the body of the function runs, in whatever way the body ends.
So the number of active calls at any point of a run is the number at its start, and one more for
each function whose body the evaluation has entered and not left. A built-in function has no body:
calling it is neither counted nor refused.
-/

set_option autoImplicit false

namespace Script

namespace Activity

/-- The evaluation `inner` takes place within `outer`, inside the bodies of `calls` functions that
were called since. -/
inductive Nests (outer : Activity) : Nat → Activity → Prop where
  | refl : Nests outer 0 outer
  | code {calls : Nat} {middle inner : Activity} :
      Nests outer calls middle → middle.task.IsCode → Part middle inner → Nests outer calls inner
  | body {calls : Nat} {middle inner : Activity} :
      Nests outer calls middle → ¬ middle.task.IsCode → Part middle inner →
      Nests outer (calls + 1) inner

/-- The limit on nested calls refuses the call: nothing is evaluated and nothing changes. -/
def Refused (activity : Activity) : Prop :=
  activity.finish = (.error (.failed (.callDepthExceeded activity.limit)), activity.machine) ∧
    ∀ inner, ¬ Part activity inner

/-- Every call that an evaluation makes is over when the evaluation ends. -/
theorem depth_finish (activity : Activity) :
    activity.finish.2.depth = activity.machine.depth :=
  Task.depth_of_run rfl

/-! ## One step -/

private theorem Part.depth_of_isCode {outer inner : Activity} (part : Part outer inner)
    (isCode : outer.task.IsCode) : inner.machine.depth = outer.machine.depth := by
  rcases part.depth_eq with ⟨_, same, _⟩ | ⟨_, lower⟩
  · exact same
  · cases part with
    | entered => cases isCode
    | _ => exact absurd lower (Nat.ne_of_lt (Nat.lt_succ_self _))

/-- The body of a function runs with one more active call than the call of it started with. -/
theorem Part.depth_of_call {outer inner : Activity} (part : Part outer inner)
    (isCall : ¬ outer.task.IsCode) : inner.machine.depth = outer.machine.depth + 1 := by
  rcases part.depth_eq with ⟨isCode, _, _⟩ | ⟨deeper, _⟩
  · exact absurd isCode isCall
  · exact deeper

private theorem Part.depth_le_limit {outer inner : Activity} (part : Part outer inner)
    (counted : outer.Counted) (allowed : outer.machine.depth ≤ outer.limit) :
    inner.machine.depth ≤ inner.limit := by
  unfold Counted at counted
  rw [part.limit_eq]
  rcases part.depth_eq with ⟨_, same, _⟩ | ⟨deeper, lower⟩
  · rw [same]
    exact allowed
  · omega

/-! ## Whole runs -/

private theorem Nests.within {outer inner : Activity} {calls : Nat}
    (nests : outer.Nests calls inner) :
    Within outer inner := by
  induction nests with
  | refl => exact .refl
  | code _ _ part ih => exact ih.tail part
  | body _ _ part ih => exact ih.tail part

private theorem Within.exists_nests {outer inner : Activity} (within : Within outer inner) :
    ∃ calls, outer.Nests calls inner := by
  induction within with
  | refl => exact ⟨0, .refl⟩
  | @tail middle inner _ part ih =>
      obtain ⟨calls, nests⟩ := ih
      by_cases isCode : middle.task.IsCode
      · exact ⟨calls, nests.code isCode part⟩
      · exact ⟨calls + 1, nests.body isCode part⟩

private theorem Nests.depth_eq {outer inner : Activity} {calls : Nat}
    (nests : outer.Nests calls inner) :
    inner.machine.depth = outer.machine.depth + calls := by
  induction nests with
  | refl => rfl
  | code _ isCode part ih => rw [part.depth_of_isCode isCode, ih]
  | body _ isCall part ih => rw [part.depth_of_call isCall, ih, Nat.add_assoc]

/-- The limit on calls is never exceeded on the way, since the budget is what it leaves beside the
active calls. -/
theorem Within.depth_le_limit {outer inner : Activity} (within : Within outer inner)
    (counted : outer.Counted) (allowed : outer.machine.depth ≤ outer.limit) :
    inner.machine.depth ≤ inner.limit := by
  induction within with
  | refl => exact allowed
  | tail within part ih => exact part.depth_le_limit (Within.counted within counted) ih

private theorem Within.limit_eq {outer inner : Activity} (within : Within outer inner) :
    inner.limit = outer.limit := by
  induction within with
  | refl => rfl
  | tail _ part ih => rw [part.limit_eq, ih]

/-! ## Refusal -/

/-- A function that gets as many arguments as it has parameters is entered, unless as many calls
are active as the limit allows. -/
theorem Counted.refused_iff {activity : Activity} (counted : activity.Counted) {ref : Ref}
    {closure : Closure} {arguments : List Value}
    (isCall : activity.task = .call (.function ref closure) arguments)
    (fits : arguments.length = closure.parameters.length) :
    activity.Refused ↔ activity.limit ≤ activity.machine.depth := by
  obtain ⟨limit, budget, task, machine⟩ := activity
  subst isCall
  change budget = limit - machine.depth at counted
  constructor
  · intro refused
    apply Nat.le_of_not_lt
    intro allowed
    change machine.depth < limit at allowed
    obtain ⟨less, more⟩ : ∃ less, budget = less + 1 :=
      Nat.exists_eq_succ_of_ne_zero (by omega)
    subst more
    exact refused.2 _ (.entered fits rfl)
  · intro exhausted
    have none : budget = 0 := counted.trans (Nat.sub_eq_zero_of_le exhausted)
    subst none
    constructor
    · rw [finish, Task.run, Value.apply_of_exhausted fits]
      rfl
    · intro inner part
      cases part

end Activity

private theorem Run.Ends.bind {ε α β : Type} {good : α → Prop} {good' : β → Prop} {bad : ε → Prop}
    {result : Except ε α} {next : α → Except ε β} (first : Ends good bad result)
    (second : ∀ value, good value → Ends good' bad (next value)) :
    Ends good' bad (result >>= next) := by
  cases result with
  | ok value => exact second value first
  | error exception => exact first

namespace Builtin

def SparesDepth (cause : RuntimeError) : Prop := ∀ limit, cause ≠ .callDepthExceeded limit

private theorem onlyArgument_sparesDepth (arguments : List Value) :
    Run.Ends (fun _ => True) SparesDepth (onlyArgument arguments) := by
  unfold onlyArgument
  split
  · trivial
  · exact fun _ => nofun

private theorem listItems_sparesDepth (native : Builtin) (argument : Value) :
    Run.Ends (fun _ => True) SparesDepth (native.listItems argument) := by
  unfold listItems
  split
  · trivial
  · exact fun _ => nofun

private theorem onlyList_sparesDepth (native : Builtin) (arguments : List Value) :
    Run.Ends (fun _ => True) SparesDepth (native.onlyList arguments) :=
  (onlyArgument_sparesDepth arguments).bind fun argument _ => native.listItems_sparesDepth argument

private theorem length_sparesDepth (argument : Value) :
    Run.Ends (fun _ => True) SparesDepth (length argument) := by
  unfold length
  split
  · trivial
  · trivial
  · exact fun _ => nofun

private theorem invoke_sparesDepth (native : Builtin) (arguments : List Value)
    (machine : Machine) :
    Run.Ends (fun _ => True) SparesDepth (native.invoke arguments machine).1 := by
  unfold invoke
  split
  · exact (onlyList_sparesDepth _ _).bind fun _ _ => trivial
  · exact (onlyList_sparesDepth _ _).bind fun _ _ => trivial
  · have listed := onlyList_sparesDepth .tail arguments
    cases read : onlyList .tail arguments with
    | ok items => cases items <;> trivial
    | error cause =>
        rw [read] at listed
        exact listed
  · next list value =>
    have listed := listItems_sparesDepth .push list
    cases read : listItems .push list with
    | ok items => trivial
    | error cause =>
        rw [read] at listed
        exact listed
  · exact fun _ => nofun
  · exact (onlyArgument_sparesDepth _).bind fun argument _ => length_sparesDepth argument
  · rw [Run.bind_apply]
    unfold Run.mapError
    cases writeLines arguments machine with
    | mk written after =>
        cases written with
        | ok _ => trivial
        | error _ => exact fun _ => nofun

end Builtin

/-! ## Entry points -/

theorem Value.depth_call (limit : Nat) (callee : Value) (arguments : List Value)
    (machine : Machine) : (callee.call limit arguments machine).2.depth = machine.depth :=
  (Machine.framed_effectBound.bounded_apply limit (limit - machine.depth) callee arguments
    machine).depth_eq

theorem Program.depth_evaluate (limit : Nat) (env : Env) (program : Program) (machine : Machine) :
    (program.evaluate limit env machine).2.depth = machine.depth := by
  have statements := Machine.framed_effectBound.bounded_stmts limit (limit - machine.depth) env
    program.statements
  have kept : (program.run limit env machine).2.depth = machine.depth :=
    (statements.catchReturn some machine).depth_eq
  unfold Program.evaluate
  cases ended : program.run limit env machine with
  | mk outcome after =>
      rw [ended] at kept
      cases outcome with
      | ok result => exact kept
      | error cause => exact kept

namespace Activity

structure CountsCalls (activity : Activity) : Prop where
  /-- However an evaluation on the way ends, as many calls are active after it as before it, which
  is at least as many as at the start and no more than the limit allows. -/
  bounded : ∀ inner, Within activity inner →
    inner.finish.2.depth = inner.machine.depth ∧
      activity.machine.depth ≤ inner.machine.depth ∧ inner.machine.depth ≤ activity.limit
  /-- Entering the body of a function counts the call, and leaving it takes it off again. -/
  stepwise : ∀ call body, Within activity call → ¬ call.task.IsCode → Part call body →
    body.machine.depth = call.machine.depth + 1 ∧ body.finish.2.depth = call.finish.2.depth + 1
  /-- What is counted are the functions whose bodies the evaluation is inside of. -/
  active : ∀ calls inner, activity.Nests calls inner →
    inner.machine.depth = activity.machine.depth + calls
  /-- A call of a function with as many arguments as parameters is refused exactly when as many
  calls are active as the limit allows. -/
  refused : ∀ calls inner ref closure arguments, activity.Nests calls inner →
    inner.task = .call (.function ref closure) arguments →
    arguments.length = closure.parameters.length →
    (inner.Refused ↔ activity.machine.depth + calls = activity.limit)
  /-- A call of a built-in function enters no body and is not refused. -/
  natives : ∀ inner native arguments, Within activity inner →
    inner.task = .call (.builtin native) arguments →
    (∀ part, ¬ Part inner part) ∧
      ∀ limit, inner.finish.1 ≠ .error (.failed (.callDepthExceeded limit))

private theorem finish_native_sparesDepth {activity : Activity} {native : Builtin}
    {arguments : List Value}
    (isCall : activity.task = .call (.builtin native) arguments) (limit : Nat) :
    activity.finish.1 ≠ .error (.failed (.callDepthExceeded limit)) := by
  obtain ⟨limit', budget, task, machine⟩ := activity
  subst isCall
  have spared := native.invoke_sparesDepth arguments machine
  intro refused
  rw [finish, Task.run, Value.apply_builtin] at refused
  have failed := congrArg Prod.fst (Run.map_eq_error_iff.mp (Prod.ext refused rfl : _ = (_, _)))
  unfold Run.interruptible Run.mapError at failed
  cases ended : native.invoke arguments machine with
  | mk outcome after =>
      rw [ended] at spared failed
      cases outcome with
      | ok value => cases failed
      | error cause =>
          cases failed
          exact spared limit rfl

/-- Calls are counted in every run that starts with no more of them active than the limit
allows. -/
theorem start_countsCalls {limit : Nat} {machine : Machine} (allowed : machine.depth ≤ limit) :
    (∀ task, (start limit task machine).CountsCalls) ∧
      (∀ env program, (Program.evaluate limit env program machine).2.depth = machine.depth) ∧
      ∀ callee arguments,
        (Value.call limit callee arguments machine).2.depth = machine.depth := by
  refine ⟨fun task => ?_, fun env program => program.depth_evaluate limit env machine,
    fun callee arguments => callee.depth_call limit arguments machine⟩
  have counted : (start limit task machine).Counted := rfl
  constructor
  case bounded =>
    intro inner within
    obtain ⟨calls, nests⟩ := Within.exists_nests within
    have atMost := Within.depth_le_limit within counted allowed
    rw [Within.limit_eq within] at atMost
    exact ⟨inner.depth_finish, nests.depth_eq ▸ Nat.le_add_right _ _, atMost⟩
  case stepwise =>
    intro call body _ isCall part
    have deeper := part.depth_of_call isCall
    rw [body.depth_finish, call.depth_finish]
    exact ⟨deeper, deeper⟩
  case active =>
    intro calls inner nests
    exact nests.depth_eq
  case refused =>
    intro calls inner ref closure arguments nests isCall fits
    have atMost := Within.depth_le_limit nests.within counted allowed
    rw [(Within.counted nests.within counted).refused_iff isCall fits, ← nests.depth_eq]
    rw [Within.limit_eq nests.within] at atMost ⊢
    omega
  case natives =>
    intro inner native arguments _ isCall
    constructor
    · intro part isPart
      cases isPart <;> cases isCall
    · exact finish_native_sparesDepth isCall

/-- With two calls active and room for one more, the function is entered and the call in its body is
refused. -/
theorem start_countsCalls_selfApplying :
    let machine : Machine := .ofScopes #[.empty] 1 2
    machine.depth ≤ 3 ∧
      ∃ inner, (start 3 (.call .selfApplying [.selfApplying]) machine).Nests 1 inner ∧
        inner.Refused := by
  intro machine
  have allowed : machine.depth ≤ 3 := by decide
  have counts := (start_countsCalls allowed).1 (.call .selfApplying [.selfApplying])
  have entered : (start 3 (.call .selfApplying [.selfApplying]) machine).Nests 1 _ :=
    .body .refl id (.entered rfl rfl)
  have nests := ((entered.code trivial .body).code trivial .firstStmt).code trivial .plain
  have called := nests.code trivial (.call rfl rfl)
  exact ⟨allowed, _, called, (counts.refused 1 _ _ _ _ called rfl rfl).mpr rfl⟩

end Activity

end Script
