import Script.Proofs.Correspondence

/-!
# States that a host can reach

A host makes scopes and values, binds and looks up names, and runs code and calls. It holds the
environments and values that it got in this way and can use no others. A state is reachable when
such steps lead to it, and so is the state at the start of any activity within a run.

What evaluation keeps true of a machine and of the values at hand is a simulation of runs by
themselves. If the steps that only a host can make keep it as well, it holds in every reachable
state.
-/

set_option autoImplicit false

namespace Script

/-- Values that can be made from environments and values at hand, with a new identity. -/
inductive Value.MadeFrom (envs : List Env) (values : List Value) (ref : Ref) : Value → Prop where
  | null : MadeFrom envs values ref .null
  | bool (b : Bool) : MadeFrom envs values ref (.bool b)
  | int (n : Int64) : MadeFrom envs values ref (.int n)
  | str (text : String) : MadeFrom envs values ref (.str ref text)
  | list {items : List Value} :
      (∀ item ∈ items, item ∈ values) → MadeFrom envs values ref (.list ref items)
  | map {entries : List (Key × Value)} :
      (∀ entry ∈ entries, entry.2 ∈ values) → MadeFrom envs values ref (.map ref entries)
  | function {closure : Closure} :
      closure.env ∈ envs → MadeFrom envs values ref (.function ref closure)
  | builtin (native : Builtin) : MadeFrom envs values ref (.builtin native)
  | returned {value : Value} : value ∈ values → MadeFrom envs values ref (.returned value)
  | error (cause : RuntimeError) : MadeFrom envs values ref (.error cause)

structure Host where
  machine : Machine
  envs : List Env
  values : List Value

namespace Host

inductive Step : Host → Host → Prop where
  /-- Go on with another output, and with another number of calls that count as active. -/
  | context {machine envs values} (sink : Sink) (depth : Nat) :
      Step ⟨machine, envs, values⟩
        ⟨{ machine with sink := sink, depth := depth }, envs, values⟩
  | newGlobal {machine envs values} :
      Step ⟨machine, envs, values⟩ ⟨machine.newGlobal.2, machine.newGlobal.1 :: envs, values⟩
  | newScope {machine envs values env} : env ∈ envs →
      Step ⟨machine, envs, values⟩
        ⟨(machine.newScope env .empty).2, (machine.newScope env .empty).1 :: envs, values⟩
  | enclosing {machine envs values env outer} : env ∈ envs → env.enclosing? = some outer →
      Step ⟨machine, envs, values⟩ ⟨machine, outer :: envs, values⟩
  | captured {machine envs values ref closure} : .function ref closure ∈ values →
      Step ⟨machine, envs, values⟩ ⟨machine, closure.env :: envs, values⟩
  | set {machine envs values env value} (name : String) : env ∈ envs → value ∈ values →
      Step ⟨machine, envs, values⟩ ⟨machine.set env name value, envs, values⟩
  | get {machine envs values env name value} : env ∈ envs → machine.get? env name = some value →
      Step ⟨machine, envs, values⟩ ⟨machine, envs, value :: values⟩
  | make {machine envs values value} : Value.MadeFrom envs values machine.nextRef value →
      Step ⟨machine, envs, values⟩
        ⟨{ machine with nextRef := machine.nextRef + 1 }, envs, value :: values⟩
  | part {machine envs values value part} : value ∈ values → value.HasPart part →
      Step ⟨machine, envs, values⟩ ⟨machine, envs, part :: values⟩
  /-- Run a task up to the start of an activity. -/
  | reach {machine envs values task inner} (limit : Nat) : (∀ env ∈ task.env?, env ∈ envs) →
      (∀ value ∈ task.inputs, value ∈ values) →
      (Activity.start limit task machine).Within inner →
      Step ⟨machine, envs, values⟩
        ⟨inner.machine, inner.task.env?.toList ++ envs, inner.task.inputs ++ values⟩
  /-- Run a task to its end. -/
  | finish {machine envs values task} (limit : Nat) : (∀ env ∈ task.env?, env ∈ envs) →
      (∀ value ∈ task.inputs, value ∈ values) →
      Step ⟨machine, envs, values⟩
        ⟨(Activity.start limit task machine).finish.2, envs,
          Activity.endValues (Activity.start limit task machine).finish.1 ++ values⟩

/-- Steps lead to the state from a machine on which nothing has run, and without anything held. -/
def Reachable (host : Host) : Prop :=
  ∃ sink arrangement, Relation.ReflTransGen Step ⟨.start sink arrangement, [], []⟩ host

end Host

/-! ## Invariants of reachable states -/

namespace Simulation

variable {S : Simulation} {world : S.World}

variable (S) in
/-- The simulation of runs by themselves is kept by what only a host does. -/
structure Hosting : Prop where
  steady : S.Steady
  start (sink : Sink) (arrangement : Arrangement) :
    ∃ world, S.machines world (.start sink arrangement) (.start sink arrangement)
  context {world : S.World} {machine : Machine} (sink : Sink) (depth : Nat) :
    S.machines world machine machine →
    S.machines world { machine with sink := sink, depth := depth }
      { machine with sink := sink, depth := depth }
  newGlobal {world : S.World} {machine : Machine} :
    S.machines world machine machine →
    ∃ world', S.grows world world' ∧ S.envs world' machine.newGlobal.1 machine.newGlobal.1 ∧
      S.machines world' machine.newGlobal.2 machine.newGlobal.2
  newScope {world : S.World} {machine : Machine} {env : Env} :
    S.machines world machine machine → S.envs world env env →
    ∃ world', S.grows world world' ∧
      S.envs world' (machine.newScope env .empty).1 (machine.newScope env .empty).1 ∧
      S.machines world' (machine.newScope env .empty).2 (machine.newScope env .empty).2
  enclosing {world : S.World} {env outer : Env} :
    S.envs world env env → env.enclosing? = some outer → S.envs world outer outer
  captured {world : S.World} {ref : Ref} {closure : Closure} :
    S.values world (.function ref closure) (.function ref closure) →
    S.envs world closure.env closure.env
  make {world : S.World} {machine : Machine} {envs : List Env} {values : List Value}
    {value : Value} :
    S.machines world machine machine → Value.MadeFrom envs values machine.nextRef value →
    (∀ env ∈ envs, S.envs world env env) → (∀ value ∈ values, S.values world value value) →
    ∃ world', S.grows world world' ∧ S.values world' value value ∧
      S.machines world' { machine with nextRef := machine.nextRef + 1 }
        { machine with nextRef := machine.nextRef + 1 }

variable (S) in
structure Covers (world : S.World) (host : Host) : Prop where
  machine : S.machines world host.machine host.machine
  envs : ∀ env ∈ host.envs, S.envs world env env
  values : ∀ value ∈ host.values, S.values world value value

private theorem hasPart_self {value part : Value} (isPart : value.HasPart part)
    (same : S.values world value value) : S.values world part part := by
  cases isPart with
  | item member =>
      cases S.alike same with
      | atom isAtom => cases isAtom
      | list _ _ items => exact List.forall₂_same.mp items _ member
  | entry member =>
      cases S.alike same with
      | atom isAtom => cases isAtom
      | map _ _ entries =>
          obtain ⟨_, sameValue⟩ := List.forall₂_same.mp entries _ member
          exact sameValue
  | returned =>
      cases S.alike same with
      | atom isAtom => cases isAtom
      | returned inner => exact inner

namespace Covers

variable {machine after : Machine} {envs : List Env} {values : List Value}

/-- What the host holds stays covered when the world grows. -/
theorem grow {world' : S.World} (covers : S.Covers world ⟨machine, envs, values⟩)
    (grown : S.grows world world') (related : S.machines world' after after) :
    S.Covers world' ⟨after, envs, values⟩ where
  machine := related
  envs env member := S.envs_grow grown (covers.envs env member)
  values value member := S.values_grow grown (covers.values value member)

theorem addEnv {env : Env} (covers : S.Covers world ⟨machine, envs, values⟩)
    (sameEnv : S.envs world env env) : S.Covers world ⟨machine, env :: envs, values⟩ where
  machine := covers.machine
  envs := List.forall_mem_cons.mpr ⟨sameEnv, covers.envs⟩
  values := covers.values

theorem addValues {added : List Value} (covers : S.Covers world ⟨machine, envs, values⟩)
    (same : ∀ value ∈ added, S.values world value value) :
    S.Covers world ⟨machine, envs, added ++ values⟩ where
  machine := covers.machine
  envs := covers.envs
  values := List.forall_mem_append.mpr ⟨same, covers.values⟩

private theorem tasks_self {task : Task} (covers : S.Covers world ⟨machine, envs, values⟩)
    (envHeld : ∀ env ∈ task.env?, env ∈ envs) (held : ∀ value ∈ task.inputs, value ∈ values) :
    S.tasks world task task :=
  Simulation.tasks_self (fun env isEnv => covers.envs env (envHeld env isEnv))
    fun value member => covers.values value (held value member)

/-- One step of a host. -/
theorem step {host host' : Host} (covers : S.Covers world host) (hosting : S.Hosting)
    (step : host.Step host') : ∃ world', S.grows world world' ∧ S.Covers world' host' := by
  have atOnce {host'' : Host} (covers' : S.Covers world host'') :
      ∃ world', S.grows world world' ∧ S.Covers world' host'' :=
    ⟨world, S.grows_refl world, covers'⟩
  cases step with
  | context sink depth =>
      exact atOnce ⟨hosting.context sink depth covers.machine, covers.envs, covers.values⟩
  | newGlobal =>
      obtain ⟨world', grown, sameEnv, related⟩ := hosting.newGlobal covers.machine
      exact ⟨world', grown, (covers.grow grown related).addEnv sameEnv⟩
  | newScope member =>
      obtain ⟨world', grown, sameEnv, related⟩ :=
        hosting.newScope covers.machine (covers.envs _ member)
      exact ⟨world', grown, (covers.grow grown related).addEnv sameEnv⟩
  | enclosing member isOuter =>
      exact atOnce (covers.addEnv (hosting.enclosing (covers.envs _ member) isOuter))
  | captured member => exact atOnce (covers.addEnv (hosting.captured (covers.values _ member)))
  | set name memberEnv member =>
      have related := S.set name covers.machine (covers.envs _ memberEnv) (covers.values _ member)
      exact atOnce ⟨related, covers.envs, covers.values⟩
  | @get _ _ _ env name value member found =>
      have same := S.get? name covers.machine (covers.envs _ member)
      rw [found] at same
      cases same with
      | some same => exact atOnce (covers.addValues (List.forall_mem_singleton.mpr same))
  | make made =>
      obtain ⟨world', grown, same, related⟩ :=
        hosting.make covers.machine made covers.envs covers.values
      exact ⟨world', grown,
        (covers.grow grown related).addValues (List.forall_mem_singleton.mpr same)⟩
  | part member isPart =>
      have same := hasPart_self isPart (covers.values _ member)
      exact atOnce (covers.addValues (List.forall_mem_singleton.mpr same))
  | reach limit envHeld held within =>
      obtain ⟨world', grown, related, same⟩ :=
        within_self hosting.steady within covers.machine (covers.tasks_self envHeld held)
      have grownCovers := (covers.grow grown related).addValues (values_of_tasks same)
      refine ⟨world', grown, related, List.forall_mem_append.mpr ⟨?_, grownCovers.envs⟩,
        grownCovers.values⟩
      exact fun env member => env_of_tasks same env (Option.mem_toList.mp member)
  | finish limit envHeld held =>
      obtain ⟨world', grown, related, same⟩ := finish_self hosting.steady
        (.start limit _ _) covers.machine (covers.tasks_self envHeld held)
      exact ⟨world', grown, (covers.grow grown related).addValues same⟩

/-- By induction on the steps, each of which lets the world grow. -/
theorem steps {host host' : Host} (covers : S.Covers world host) (hosting : S.Hosting)
    (steps : Relation.ReflTransGen Host.Step host host') :
    ∃ world', S.grows world world' ∧ S.Covers world' host' := by
  induction steps with
  | refl => exact ⟨world, S.grows_refl world, covers⟩
  | tail _ step ih =>
      obtain ⟨world', grown, covers'⟩ := ih
      obtain ⟨world'', grown', covers''⟩ := covers'.step hosting step
      exact ⟨world'', S.grows_trans grown grown', covers''⟩

end Covers

end Simulation

/-- An invariant that evaluation keeps, and that what only a host does keeps too, holds of every
reachable state. -/
theorem Host.Reachable.covered {S : Simulation} {host : Host} (reachable : host.Reachable)
    (hosting : S.Hosting) : ∃ world, S.Covers world host := by
  obtain ⟨sink, arrangement, steps⟩ := reachable
  obtain ⟨world, related⟩ := hosting.start sink arrangement
  have covers : S.Covers world ⟨.start sink arrangement, [], []⟩ := ⟨related, nofun, nofun⟩
  obtain ⟨world', _, covers'⟩ := covers.steps hosting steps
  exact ⟨world', covers'⟩

/-! ## Correspondences of runs with themselves -/

namespace Correspondence

variable (C : Correspondence) {world : C.World}

structure Hosting : Prop where
  start (sink : Sink) (arrangement : Arrangement) :
    ∃ world, C.machines world (.start sink arrangement) (.start sink arrangement)
  context {world : C.World} {machine : Machine} (sink : Sink) (depth : Nat) :
    C.machines world machine machine →
    C.machines world { machine with sink := sink, depth := depth }
      { machine with sink := sink, depth := depth }
  newGlobal {world : C.World} {machine : Machine} :
    C.machines world machine machine →
    ∃ world', C.grows world world' ∧ C.envs world' machine.newGlobal.1 machine.newGlobal.1 ∧
      C.machines world' machine.newGlobal.2 machine.newGlobal.2
  enclosing {world : C.World} {env outer : Env} :
    C.envs world env env → env.enclosing? = some outer → C.envs world outer outer

variable {C}

/-- A value that is made corresponds to itself when what it is made from does. -/
theorem made_self {envs : List Env} {values : List Value} {ref : Ref} {value : Value}
    (made : Value.MadeFrom envs values ref value) (sameRef : C.refs world ref ref)
    (sameEnvs : ∀ env ∈ envs, C.envs world env env)
    (same : ∀ value ∈ values, C.simulation.values world value value) :
    C.simulation.values world value value := by
  cases made with
  | null => exact .null
  | bool b => exact .bool b
  | int n => exact .int n
  | str text => exact .str text sameRef
  | list member =>
      exact .list sameRef (List.forall₂_same.mpr fun item here => same item (member item here))
  | map member =>
      exact .map sameRef (forall₂_entries_same fun entry here => same entry.2 (member entry here))
  | function member => exact .function _ _ sameRef (sameEnvs _ member)
  | builtin native => exact .builtin native
  | returned member => exact .returned (same _ member)
  | error cause => exact .error cause

theorem Hosting.simulation (hosting : C.Hosting) : C.simulation.Hosting where
  steady := C.steady
  start := hosting.start
  context := hosting.context
  newGlobal := hosting.newGlobal
  newScope related sameEnv := by
    -- a scope without bindings is made as that of a call without arguments
    obtain ⟨world', grown, sameInner, related'⟩ := C.enter [] related sameEnv .nil
    exact ⟨world', grown, sameInner, C.leave related'⟩
  enclosing := hosting.enclosing
  captured same := by
    cases same with
    | function _ _ _ sameEnv => exact sameEnv
  make related made sameEnvs same := by
    obtain ⟨world', grown, sameRef, related'⟩ := C.allocate related
    have grownEnvs := fun env member => C.envs_grow grown (sameEnvs env member)
    have grownValues := fun value member => C.simulation.values_grow grown (same value member)
    exact ⟨world', grown, made_self made sameRef grownEnvs grownValues, related'⟩

end Correspondence

end Script
