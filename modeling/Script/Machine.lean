import Script.Scope
import Script.Value.Printer

/-!
# Running

A machine is everything that evaluation can change, the scopes, the next free identity, the output
and the number of calls that are active, together with the arrangement of maps, which never changes.
A run takes a machine to a machine and ends with a result or an exception; the machine is kept in
both cases.
-/

set_option autoImplicit false

namespace Script

structure Machine where
  store : ScopeStore
  nextRef : Ref
  sink : Sink
  depth : Nat
  arrangement : Arrangement

namespace Machine

/-- The state before anything has run: no scopes, and no call active. -/
def start (sink : Sink) (arrangement : Arrangement := .byInsertion) : Machine :=
  ⟨.empty, 0, sink, 0, arrangement⟩

/-- A state with these scopes, an output without a limit and maps in the order of insertion. -/
def ofScopes (scopes : Array Scope) (nextRef : Ref := 0) (depth : Nat := 0) : Machine :=
  ⟨⟨scopes⟩, nextRef, .empty none, depth, .byInsertion⟩

def newGlobal : Machine → Env × Machine
  | ⟨store, nextRef, sink, depth, arrangement⟩ =>
      let added := store.add .empty
      (⟨added.1, []⟩, ⟨added.2, nextRef, sink, depth, arrangement⟩)

def newScope (env : Env) (scope : Scope) : Machine → Env × Machine
  | ⟨store, nextRef, sink, depth, arrangement⟩ =>
      let added := store.add scope
      (env.nest added.1, ⟨added.2, nextRef, sink, depth, arrangement⟩)

def set (env : Env) (name : String) (value : Value) : Machine → Machine
  | ⟨store, nextRef, sink, depth, arrangement⟩ =>
      ⟨store.set env.scope name value, nextRef, sink, depth, arrangement⟩

/-- The value of a name in an environment. Built-in functions are not consulted. -/
def get? (machine : Machine) (env : Env) (name : String) : Option Value :=
  machine.store.find? env name

/-- The display of an environment: the names that its nearest scope binds, which are identifiers
and need no escapes, and whether there is a scope around it. Values are left out because a function
can hold the very environment that it is bound in. -/
def describe (machine : Machine) (env : Env) : String :=
  let names := (machine.store.names env.scope).map fun name => "\"" ++ name ++ "\""
  "Environment \x7b names: [" ++ Text.join ", " names ++ "], has_outer: " ++
    Text.boolean (!env.outer.isEmpty) ++ " \x7d"

def enterCall (machine : Machine) : Machine := { machine with depth := machine.depth + 1 }

def leaveCall (machine : Machine) : Machine := { machine with depth := machine.depth - 1 }

end Machine

def Run (ε α : Type) : Type := Machine → Except ε α × Machine

namespace Run

variable {ε ε' α β : Type}

@[inline]
protected def pure (result : α) : Run ε α := fun machine => (.ok result, machine)

/-- Two runs, one after the other. An exception in the first ends both. -/
@[inline]
protected def bind (run : Run ε α) (next : α → Run ε β) : Run ε β := fun machine =>
  match run machine with
  | (.ok result, machine) => next result machine
  | (.error exception, machine) => (.error exception, machine)

instance : Monad (Run ε) where
  pure := Run.pure
  bind := Run.bind

@[inline]
def throw (exception : ε) : Run ε α := fun machine => (.error exception, machine)

@[inline]
def ofExcept (result : Except ε α) : Run ε α := fun machine => (result, machine)

@[inline]
def mapError (rename : ε → ε') (run : Run ε α) : Run ε' α := fun machine =>
  match run machine with
  | (.ok result, machine) => (.ok result, machine)
  | (.error exception, machine) => (.error (rename exception), machine)

@[inline]
def modify (change : Machine → Machine) : Run ε Unit := fun machine => (.ok (), change machine)

/-- Make a value with an identity of its own. -/
@[inline]
def allocate (make : Ref → Value) : Run ε Value
  | ⟨store, nextRef, sink, depth, arrangement⟩ =>
      (.ok (make nextRef), ⟨store, nextRef + 1, sink, depth, arrangement⟩)

def write (text : String) : Run StreamError Unit
  | ⟨store, nextRef, sink, depth, arrangement⟩ =>
      match sink.write text with
      | (result, sink) => (result, ⟨store, nextRef, sink, depth, arrangement⟩)

/-- Write a value as it is displayed, on a line of its own. -/
def writeLine (value : Value) : Run StreamError Unit := fun machine =>
  write (value.render machine.arrangement ++ "\n") machine

theorem pure_apply (result : α) (machine : Machine) :
    (pure result : Run ε α) machine = (.ok result, machine) := rfl

theorem bind_apply (run : Run ε α) (next : α → Run ε β) (machine : Machine) :
    (run >>= next) machine =
      match run machine with
      | (.ok result, machine) => next result machine
      | (.error exception, machine) => (.error exception, machine) := rfl

theorem bind_of_ok {run : Run ε α} (next : α → Run ε β) {machine after : Machine} {result : α}
    (ended : run machine = (.ok result, after)) : (run >>= next) machine = next result after := by
  rw [bind_apply, ended]

theorem bind_of_error {run : Run ε α} (next : α → Run ε β) {machine after : Machine}
    {exception : ε} (ended : run machine = (.error exception, after)) :
    (run >>= next) machine = (.error exception, after) := by
  rw [bind_apply, ended]

end Run

instance (ε : Type) : LawfulMonad (Run ε) :=
  LawfulMonad.mk' (Run ε)
    (by
      intro α run
      funext machine
      change Run.bind run Run.pure machine = run machine
      unfold Run.bind Run.pure
      cases run machine with
      | mk result after => cases result <;> rfl)
    (by
      intro α β result next
      rfl)
    (by
      intro α β γ run next last
      funext machine
      change Run.bind (Run.bind run next) last machine =
        Run.bind run (fun result => Run.bind (next result) last) machine
      unfold Run.bind
      cases run machine with
      | mk result after => cases result <;> rfl)

/-- Why the evaluation of a piece of code ends early: a failure, or a `return` on its way to the
function or program that it returns from. -/
inductive Interrupt where
  | failed (cause : RuntimeError)
  | returned (value : Value)

namespace Interrupt

def toValue : Interrupt → Value
  | failed cause => .error cause
  | returned value => .returned value

end Interrupt

namespace Run

variable {ε α β : Type}

@[inline]
def fail (cause : RuntimeError) : Run Interrupt α := throw (.failed cause)

/-- Let failures pass as interrupts. -/
@[inline]
def interruptible (run : Run RuntimeError α) : Run Interrupt α := run.mapError .failed

/-- Stop a `return` here: the returned value is the result. -/
@[inline]
def catchReturn (ofValue : Value → α) (run : Run Interrupt α) : Run RuntimeError α :=
  fun machine =>
    match run machine with
    | (.ok result, machine) => (.ok result, machine)
    | (.error (.returned value), machine) => (.ok (ofValue value), machine)
    | (.error (.failed cause), machine) => (.error cause, machine)

/-- Use a value as the result of an expression. The marker of a `return` resumes that `return`. -/
@[inline]
def settle : Value → Run Interrupt Value
  | .returned value => throw (.returned value)
  | value => pure value

theorem map_eq_error_iff {run : Run ε α} {f : α → β} {machine after : Machine} {exception : ε} :
    (f <$> run) machine = (.error exception, after) ↔
      run machine = (.error exception, after) := by
  rw [map_eq_pure_bind, bind_apply]
  cases run machine with
  | mk outcome left => cases outcome <;> simp [pure_apply]

/-- An exception in a run ends what follows on the run, whatever is made of the result. -/
theorem map_bind_of_error {γ : Type} {run : Run ε α} (next : α → Run ε β) (f : β → γ)
    {machine after : Machine} {exception : ε} (ended : run machine = (.error exception, after)) :
    (f <$> (run >>= next)) machine = (.error exception, after) :=
  map_eq_error_iff.mpr (bind_of_error next ended)

end Run

end Script
