import Script.Proofs.DataInvariants

/-!
# Markers stay out of the data

A value is clean when no marker of a `return` or of a failure occurs in it. Evaluation on a machine
whose bindings are clean keeps them clean, passes clean arguments and gives clean results: a
`return` on its way unwinds as an interrupt, a failure as another, and neither is turned back into
a value before the function or program that it ends.
-/

set_option autoImplicit false

namespace Script

/-! ## Data without markers -/

/-- A value in which no `returned` and no `error` occurs at any depth. -/
inductive Value.Clean : Value → Prop where
  | null : Clean .null
  | bool (b : Bool) : Clean (.bool b)
  | int (n : Int64) : Clean (.int n)
  | str (ref : Ref) (text : String) : Clean (.str ref text)
  | list (ref : Ref) {items : List Value} :
      (∀ item ∈ items, Clean item) → Clean (.list ref items)
  | map (ref : Ref) {entries : List (Key × Value)} :
      (∀ entry ∈ entries, Clean entry.2) → Clean (.map ref entries)
  | function (ref : Ref) (closure : Closure) : Clean (.function ref closure)
  | builtin (native : Builtin) : Clean (.builtin native)

theorem Value.Clean.part {value part : Value} (clean : value.Clean)
    (isPart : value.HasPart part) : part.Clean := by
  cases isPart with
  | item member =>
      cases clean with
      | list _ items => exact items _ member
  | entry member =>
      cases clean with
      | map _ entries => exact entries _ member
  | returned => cases clean

def Scope.Clean (scope : Scope) : Prop := ∀ binding ∈ scope.bindings, binding.2.Clean

def Machine.Clean (machine : Machine) : Prop :=
  ∀ scope ∈ machine.store.scopes, scope.Clean

namespace Assoc

variable {κ δ α : Type} [DecidableEq δ] {digest : κ → δ} {good : α → Prop}

theorem forall_insert {key : κ} {value : α} {entries : List (κ × α)}
    (all : ∀ entry ∈ entries, good entry.2) (holds : good value) :
    ∀ entry ∈ insert digest key value entries, good entry.2 := by
  induction entries with
  | nil => simpa [insert] using holds
  | cons first rest ih =>
      obtain ⟨key', value'⟩ := first
      obtain ⟨holdsFirst, holdsRest⟩ := List.forall_mem_cons.mp all
      rw [insert]
      split
      · exact List.forall_mem_cons.mpr ⟨holds, holdsRest⟩
      · exact List.forall_mem_cons.mpr ⟨holdsFirst, ih holdsRest⟩

theorem find?_of_forall {target : δ} {value : α} {entries : List (κ × α)}
    (all : ∀ entry ∈ entries, good entry.2) (found : find? digest target entries = some value) :
    good value := by
  induction entries with
  | nil => cases found
  | cons first rest ih =>
      obtain ⟨key', value'⟩ := first
      obtain ⟨holdsFirst, holdsRest⟩ := List.forall_mem_cons.mp all
      rw [find?] at found
      split at found
      · cases found
        exact holdsFirst
      · exact ih holdsRest found

end Assoc

private theorem Scope.ofArguments_clean {parameters : List Token} {arguments : List Value}
    (clean : ∀ argument ∈ arguments, argument.Clean) :
    (Scope.ofArguments parameters arguments).Clean := by
  have pairs : ∀ pair ∈ parameters.zip arguments, pair.2.Clean := fun pair member =>
    clean pair.2 (List.of_mem_zip member).2
  have start : Scope.empty.Clean := fun _ member => absurd member List.not_mem_nil
  unfold Scope.ofArguments
  generalize Scope.empty = scope at start
  generalize parameters.zip arguments = bindings at pairs
  induction bindings generalizing scope with
  | nil => exact start
  | cons pair rest ih =>
      obtain ⟨cleanPair, cleanRest⟩ := List.forall_mem_cons.mp pairs
      exact ih _ (Assoc.forall_insert start cleanPair) cleanRest

namespace Machine

theorem Clean.set {machine : Machine} {value : Value} (clean : machine.Clean) (env : Env)
    (name : String) (cleanValue : value.Clean) : (machine.set env name value).Clean := by
  intro scope member
  obtain ⟨index, inside, rfl⟩ := Array.mem_iff_getElem.mp member
  have old : index < machine.store.scopes.size := by
    simpa [Machine.set, ScopeStore.set] using inside
  have cleanOld : machine.store.scopes[index].Clean := clean _ (Array.getElem_mem old)
  simp only [Machine.set, ScopeStore.set, Array.getElem_modify]
  split
  · exact Assoc.forall_insert cleanOld cleanValue
  · exact cleanOld

theorem Clean.newScope {machine : Machine} {scope : Scope} (clean : machine.Clean) (env : Env)
    (cleanScope : scope.Clean) : (machine.newScope env scope).2.Clean := by
  intro other member
  rcases Array.mem_push.mp member with old | rfl
  · exact clean other old
  · exact cleanScope

theorem Clean.get? {machine : Machine} {env : Env} {name : String} {value : Value}
    (clean : machine.Clean) (found : machine.get? env name = some value) : value.Clean := by
  obtain ⟨id, _, bound⟩ := List.exists_of_findSome?_eq_some found
  obtain ⟨scope, present, holds⟩ := Option.bind_eq_some_iff.mp bound
  exact Assoc.find?_of_forall (clean scope (Array.mem_of_getElem? present)) holds

end Machine

def DataInvariant.clean : DataInvariant where
  World := Unit
  grows _ _ := True
  opens _ _ := True
  value _ := Value.Clean
  env _ _ := True
  machine _ := Machine.Clean
  grows_refl _ := trivial
  grows_trans _ _ := trivial
  value_grow _ := id
  env_grow _ := id
  atom isAtom := by cases isAtom <;> constructor
  part := Value.Clean.part
  get? := Machine.Clean.get?
  set name clean _ cleanValue := clean.set _ name cleanValue
  make {_ _ made} clean isNew parts := by
    refine ⟨(), trivial, ?_, clean⟩
    cases made with
    | str ref text => exact .str ref text
    | list ref items => exact .list ref fun _ member => parts _ (.item member)
    | map ref entries => exact .map ref fun _ member => parts _ (.entry member)
    | function ref closure => exact .function ref closure
    | _ => cases isNew
  write _ := id
  enter env _ clean cleanArguments :=
    ⟨(), trivial, trivial, clean.newScope env (Scope.ofArguments_clean cleanArguments)⟩
  leave _ _ clean := ⟨(), trivial, clean, fun _ => id⟩

theorem DataInvariant.clean_steady : DataInvariant.clean.Steady := fun _ => trivial

/-- Every function is clean, and nothing else can be called. -/
theorem Value.apply_of_not_clean {callee : Value} (unclean : ¬ callee.Clean) (limit budget : Nat)
    (arguments : List Value) :
    Value.apply limit budget callee arguments = .throw (.notCallable callee.kind) := by
  cases callee with
  | function ref closure => exact absurd (.function ref closure) unclean
  | builtin native => exact absurd (.builtin native) unclean
  | _ => rw [Value.apply.eq_def]

/-! ## Whole runs -/

def Task.Clean : Task → Prop
  | .call _ arguments => ∀ argument ∈ arguments, argument.Clean
  | .pairs _ entries _ => ∀ entry ∈ entries, entry.2.Clean
  | .stmts _ last _ => ∀ value, last = some value → value.Clean
  | _ => True

def Outcome.Clean : Outcome → Prop
  | .value result => result.Clean
  | .values results => ∀ value ∈ results, value.Clean
  | .entries results => ∀ entry ∈ results, entry.2.Clean
  | .last result => ∀ value, result = some value → value.Clean

/-- Whether a `return` can pass through the task: it does not pass a call or a program. -/
def Task.unwinds : Task → Bool
  | .call _ _ | .program _ _ => false
  | _ => true

def Task.Passes (task : Task) : Interrupt → Prop
  | .failed _ => True
  | .returned value => task.unwinds = true ∧ value.Clean

private theorem Task.clean_of_inputs {task : Task} (inputs : ∀ value ∈ task.inputs, value.Clean) :
    task.Clean := by
  cases task with
  | call callee arguments => exact (List.forall_mem_cons.mp inputs).2
  | pairs env entries codes => exact List.forall_mem_map.mp inputs
  | stmts env last codes =>
      exact fun value isLast => inputs value (Option.mem_toList.mpr isLast)
  | _ => trivial

/-- The values that a task is given are clean, unless it calls what is not. -/
theorem Task.Clean.inputs {task : Task} (clean : task.Clean) :
    (∀ value ∈ task.inputs, value.Clean) ∨
      ∃ callee arguments, task = .call callee arguments ∧ ¬ callee.Clean := by
  cases task with
  | call callee arguments =>
      by_cases cleanCallee : callee.Clean
      · exact .inl (List.forall_mem_cons.mpr ⟨cleanCallee, clean⟩)
      · exact .inr ⟨callee, arguments, rfl, cleanCallee⟩
  | pairs env entries codes => exact .inl (List.forall_mem_map.mpr clean)
  | stmts env last codes =>
      exact .inl fun value member => clean value (Option.mem_toList.mp member)
  | _ => exact .inl nofun

private theorem Outcome.clean_of_contents {outcome : Outcome}
    (contents : ∀ value ∈ outcome.contents, value.Clean) : outcome.Clean := by
  cases outcome with
  | value result => exact contents result List.mem_cons_self
  | values results => exact contents
  | entries results => exact List.forall_mem_map.mp contents
  | last result => exact fun value isLast => contents value (Option.mem_toList.mpr isLast)

section Interruptible

variable {α β : Type} {run : Run RuntimeError α} {machine : Machine}

private theorem Run.interruptible_ne_returned (value : Value) :
    (run.interruptible machine).1 ≠ .error (.returned value) := by
  unfold Run.interruptible Run.mapError
  cases run machine with
  | mk ending after => cases ending <;> nofun

theorem Run.map_interruptible_of_ok {f : α → β} {result : α}
    (ended : (run machine).1 = .ok result) :
    ((f <$> run.interruptible) machine).1 = .ok (f result) := by
  rw [map_eq_pure_bind, Run.bind_apply]
  unfold Run.interruptible Run.mapError
  cases ran : run machine with
  | mk ending after =>
      rw [ran] at ended
      cases ended
      rfl

end Interruptible

namespace Activity

def Clean (activity : Activity) : Prop := activity.machine.Clean ∧ activity.task.Clean

def EndsClean (activity : Activity) : Prop :=
  activity.finish.2.Clean ∧ Run.Ends Outcome.Clean activity.task.Passes activity.finish.1

/-- No `return` comes out of a call or a program. -/
theorem unwinds_of_returned {activity : Activity} {value : Value}
    (ended : activity.finish.1 = .error (.returned value)) : activity.task.unwinds = true := by
  obtain ⟨limit, budget, task, machine⟩ := activity
  cases task with
  | call _ _ | program _ _ =>
      have interrupted := Run.map_eq_error_iff.mp (Prod.ext ended rfl : _ = (_, _))
      exact absurd (congrArg Prod.fst interrupted) (Run.interruptible_ne_returned value)
  | _ => rfl

private theorem ends_of_endValues {activity : Activity}
    (clean : ∀ value ∈ endValues activity.finish.1, value.Clean) :
    Run.Ends Outcome.Clean activity.task.Passes activity.finish.1 := by
  cases ended : activity.finish.1 with
  | ok outcome =>
      rw [ended] at clean
      exact Outcome.clean_of_contents clean
  | error interrupt =>
      cases interrupt with
      | failed cause => trivial
      | returned value =>
          rw [ended] at clean
          exact ⟨unwinds_of_returned ended, clean value List.mem_cons_self⟩

/-- An activity that is given no marker ends with none and leaves none behind. -/
theorem Clean.endsClean {activity : Activity} (clean : activity.Clean) : activity.EndsClean := by
  obtain ⟨cleanMachine, cleanTask⟩ := clean
  rcases cleanTask.inputs with inputs | ⟨callee, arguments, isCall, unclean⟩
  · obtain ⟨_, _, cleanAfter, cleanValues⟩ :=
      DataInvariant.clean_steady.finish () activity cleanMachine (fun _ _ => trivial) inputs
    exact ⟨cleanAfter, ends_of_endValues cleanValues⟩
  · have refused : activity.finish =
        (.error (.failed (.notCallable callee.kind)), activity.machine) := by
      rw [finish, isCall, Task.run, Value.apply_of_not_clean unclean]
      rfl
    rw [EndsClean, refused]
    exact ⟨cleanMachine, trivial⟩

private theorem Within.clean {outer inner : Activity} (within : Within outer inner)
    (clean : outer.Clean) : inner.Clean := by
  rcases clean.2.inputs with inputs | ⟨callee, arguments, isCall, unclean⟩
  · obtain ⟨_, _, cleanMachine, _, cleanInputs⟩ :=
      DataInvariant.clean_steady.within () within clean.1 (fun _ _ => trivial) inputs
    exact ⟨cleanMachine, Task.clean_of_inputs cleanInputs⟩
  · -- a call of what is no function has no parts
    rcases within.cases_head with rfl | ⟨_, part, _⟩
    · exact clean
    · cases part <;> cases isCall
      exact absurd (.function _ _) unclean

end Activity

private theorem Session.after_clean {machine : Machine} {session : Session} (clean : machine.Clean)
    (given : ∀ entry ∈ session, entry.2.Clean) : (Session.after machine session).Clean := by
  induction session generalizing machine with
  | nil => exact clean
  | cons entry rest ih =>
      obtain ⟨limit, task⟩ := entry
      obtain ⟨cleanTask, cleanRest⟩ := List.forall_mem_cons.mp given
      have started : (Activity.start limit task machine).Clean := ⟨clean, cleanTask⟩
      exact ih started.endsClean.1 cleanRest

/-- The value of a program is no marker: a `return` outside of functions is unwrapped. -/
theorem Program.clean_of_run {limit : Nat} {env : Env} {program : Program} {machine : Machine}
    {value : Value} (clean : machine.Clean)
    (ended : (program.run limit env machine).1 = .ok (some value)) : value.Clean := by
  have started : (Activity.start limit (.program env program) machine).Clean := ⟨clean, trivial⟩
  have finished : (Activity.start limit (.program env program) machine).finish.1 =
      .ok (.last (some value)) := Run.map_interruptible_of_ok ended
  have ends := started.endsClean.2
  rw [finished] at ends
  exact ends value rfl

private theorem Value.clean_of_call {limit : Nat} {callee : Value} {arguments : List Value}
    {machine : Machine} {value : Value} (clean : machine.Clean)
    (cleanArguments : ∀ argument ∈ arguments, argument.Clean)
    (ended : (callee.call limit arguments machine).1 = .ok value) : value.Clean := by
  have started : (Activity.start limit (.call callee arguments) machine).Clean :=
    ⟨clean, cleanArguments⟩
  have finished : (Activity.start limit (.call callee arguments) machine).finish.1 =
      .ok (.value value) := Run.map_interruptible_of_ok ended
  have ends := started.endsClean.2
  rw [finished] at ends
  exact ends

/-- On a clean machine only a failure evaluates to the marker of a failure. -/
theorem Program.evaluate_eq_error_iff {machine : Machine} (clean : machine.Clean) (limit : Nat)
    (env : Env) (program : Program) (cause : RuntimeError) :
    (program.evaluate limit env machine).1 = some (.error cause) ↔
      (program.run limit env machine).1 = .error cause := by
  unfold Program.evaluate
  cases ended : program.run limit env machine with
  | mk outcome after =>
      cases outcome with
      | error cause' => simp
      | ok result =>
          constructor
          · intro isError
            have ran : (program.run limit env machine).1 = .ok (some (.error cause)) := by
              rw [ended]
              exact congrArg Except.ok isError
            cases Program.clean_of_run clean ran
          · intro isError
            cases isError

/-- No marker is ever stored or passed on in a session that starts on the machine. -/
structure Session.MarkerFree (session : Session) (machine : Machine) : Prop where
  /-- Every activity of the session starts and ends on clean machines, with clean values and
  outcomes. A `return` that passes it carries a clean value and passes no call and no program. -/
  activities : ∀ activity, session.Reaches machine activity →
    activity.Clean ∧ activity.EndsClean
  /-- A program that runs next ends with a clean value, if it ends with one. -/
  programs : ∀ limit env program value,
    (Program.run limit env program (session.after machine)).1 = .ok (some value) → value.Clean
  /-- So does a call with clean arguments. -/
  calls : ∀ limit callee arguments value, (∀ argument ∈ arguments, argument.Clean) →
    (Value.call limit callee arguments (session.after machine)).1 = .ok value → value.Clean
  /-- Evaluating a program gives the marker of a failure exactly when running it failed. -/
  failures : ∀ limit env program cause,
    (Program.evaluate limit env program (session.after machine)).1 = some (.error cause) ↔
      (Program.run limit env program (session.after machine)).1 = .error cause

/-- Markers never get into the data: whatever runs on a clean machine, with clean values given to
it, meets no marker. -/
theorem Session.markerFree_of_clean {machine : Machine} {session : Session}
    (clean : machine.Clean) (given : ∀ entry ∈ session, entry.2.Clean) :
    session.MarkerFree machine where
  activities := by
    rintro activity ⟨earlier, later, limit, task, rfl, within⟩
    obtain ⟨givenEarlier, givenLater⟩ := List.forall_mem_append.mp given
    have started : (Activity.start limit task (Session.after machine earlier)).Clean :=
      ⟨Session.after_clean clean givenEarlier, (List.forall_mem_cons.mp givenLater).1⟩
    have cleanActivity := Activity.Within.clean within started
    exact ⟨cleanActivity, cleanActivity.endsClean⟩
  programs _ _ _ _ := Program.clean_of_run (Session.after_clean clean given)
  calls _ _ _ _ := Value.clean_of_call (Session.after_clean clean given)
  failures limit env program :=
    program.evaluate_eq_error_iff (Session.after_clean clean given) limit env

def listMachine : Machine := .ofScopes #[⟨[("x", .list 0 [.int 1])]⟩] 1

def returnSession : Session :=
  [(256, .program ⟨0, []⟩ ⟨[.ret ⟨.kwReturn, "return"⟩ (.ident ⟨.ident, "x"⟩)]⟩),
    (256, .call (.builtin .push) [.list 0 [.int 1], .null])]

theorem Session.markerFree_of_clean_return :
    listMachine.Clean ∧ (∀ entry ∈ returnSession, entry.2.Clean) ∧
      returnSession.MarkerFree listMachine := by
  have cleanList : Value.Clean (.list 0 [.int 1]) := by
    refine .list 0 fun item member => ?_
    rw [List.mem_singleton.mp member]
    exact .int 1
  have clean : listMachine.Clean := by
    simpa [Machine.Clean, Scope.Clean, listMachine, Machine.ofScopes] using cleanList
  have given : ∀ entry ∈ returnSession, entry.2.Clean := by
    simpa [returnSession, Task.Clean] using ⟨cleanList, Value.Clean.null⟩
  exact ⟨clean, given, Session.markerFree_of_clean clean given⟩

end Script
