import Script.Proofs.DataInvariants

/-!
# What evaluation can do to the machine

Evaluation changes the machine in five ways only: it makes values, writes, binds names in the
nearest scope, opens the scope of a call, and counts calls. A relation between machines that allows
these and is a preorder therefore bounds every evaluation. The relation may depend on the scope in
which names can be bound. A call runs in a scope of its own, so that no scope of its caller is among
those that it can bind names in.
-/

set_option autoImplicit false

namespace Script

/-- A bound on what runs do. `effect (some scope)` bounds the runs that may bind names in `scope`,
`effect none` those that bind names in no scope that they were started with. -/
structure EffectBound (effect : Option ScopeId → Machine → Machine → Prop) : Prop where
  refl (scope : Option ScopeId) (machine : Machine) : effect scope machine machine
  trans {scope : Option ScopeId} {before middle after : Machine} :
    effect scope before middle → effect scope middle after → effect scope before after
  weaken {before after : Machine} (scope : ScopeId) :
    effect none before after → effect (some scope) before after
  allocate (machine : Machine) :
    effect none machine { machine with nextRef := machine.nextRef + 1 }
  write (text : String) (machine : Machine) : effect none machine (Run.write text machine).2
  bind (env : Env) (name : String) (value : Value) (machine : Machine) :
    effect (some env.scope) machine (machine.set env name value)
  call {machine after : Machine} {env : Env} {scope : Scope} :
    effect (some machine.store.scopes.size) (machine.newScope env scope).2.enterCall after →
      effect none machine after.leaveCall

def Run.Bounded {ε α : Type} (effect : Machine → Machine → Prop) (run : Run ε α) : Prop :=
  ∀ machine, effect machine (run machine).2

namespace Run.Bounded

variable {ε ε' α : Type} {effect : Machine → Machine → Prop}

theorem mapError {run : Run ε α} (bounded : run.Bounded effect) (rename : ε → ε') :
    (run.mapError rename).Bounded effect := by
  intro machine
  have allowed := bounded machine
  unfold Run.mapError
  cases ended : run machine with
  | mk outcome after =>
      rw [ended] at allowed
      cases outcome with
      | ok result => exact allowed
      | error exception => exact allowed

theorem catchReturn {run : Run Interrupt α} (bounded : run.Bounded effect)
    (ofValue : Value → α) : (run.catchReturn ofValue).Bounded effect := by
  intro machine
  have allowed := bounded machine
  unfold Run.catchReturn
  cases ended : run machine with
  | mk outcome after =>
      rw [ended] at allowed
      cases outcome with
      | ok result => exact allowed
      | error interrupt =>
          cases interrupt with
          | failed cause => exact allowed
          | returned value => exact allowed

end Run.Bounded

namespace EffectBound

variable {ε α β : Type} {effect : Option ScopeId → Machine → Machine → Prop}

theorem weaken_any (bound : EffectBound effect) (scope : Option ScopeId) {before after : Machine}
    (allowed : effect none before after) : effect scope before after := by
  cases scope with
  | none => exact allowed
  | some scope => exact bound.weaken scope allowed

/-! ## Evaluation -/

/-- What has happened since a machine, when names may be bound in one scope, has the effect. The
body of a function starts over, with a scope of its own. -/
def invariant (bound : EffectBound effect) : DataInvariant where
  World := Option ScopeId × Machine
  grows := (· = ·)
  opens world inner := ∃ machine env bindings, effect world.1 world.2 machine ∧
    inner = (some machine.store.scopes.size, (machine.newScope env bindings).2.enterCall)
  value _ _ := True
  env world env := world.1 = some env.scope
  machine world machine := effect world.1 world.2 machine
  grows_refl _ := rfl
  grows_trans := Eq.trans
  value_grow _ _ := trivial
  env_grow same holds := same ▸ holds
  atom _ := trivial
  part _ _ := trivial
  get? _ _ := trivial
  set {world machine env value} name allowed here _ := by
    have bound' := bound.bind env name value machine
    rw [← here] at bound'
    exact bound.trans allowed bound'
  make {world machine value} allowed _ _ :=
    ⟨world, rfl, trivial, bound.trans allowed (bound.weaken_any _ (bound.allocate machine))⟩
  write {_ machine} text allowed :=
    bound.trans allowed (bound.weaken_any _ (bound.write text machine))
  enter _ _ allowed _ := ⟨_, ⟨_, _, _, allowed, rfl⟩, rfl, bound.refl _ _⟩
  leave opens grown allowed := by
    subst grown
    obtain ⟨machine, env, bindings, allowed', rfl⟩ := opens
    exact ⟨_, rfl, bound.trans allowed' (bound.weaken_any _ (bound.call allowed)), fun _ => id⟩

/-- A run that goes side by side with itself, in the world of what has happened since it started,
has the effect. -/
theorem bounded_of_runs (bound : EffectBound effect) {scope : Option ScopeId}
    {good : bound.invariant.simulation.Results α} {bad : bound.invariant.simulation.Exceptions ε}
    {run : Run ε α}
    (runs : ∀ machine, bound.invariant.simulation.Runs (scope, machine) good bad run run) :
    run.Bounded (effect scope) := by
  intro machine
  obtain ⟨_, rfl, ⟨allowed, _⟩, _⟩ :=
    (runs machine).ends DataInvariant.unstopped ⟨bound.refl scope machine, rfl⟩
  exact allowed

theorem bounded_stmts (bound : EffectBound effect) (limit budget : Nat) (env : Env)
    (stmts : List Stmt) :
    (Stmt.evalAll (Value.apply limit budget) env none stmts).Bounded (effect (some env.scope)) :=
  bound.bounded_of_runs fun _ =>
    Simulation.runs_stmts (Simulation.calls_apply_self limit budget) stmts ⟨rfl, rfl⟩ .none

/-- Calls bind names in no scope that they were started with. -/
theorem bounded_apply (bound : EffectBound effect) (limit budget : Nat) (callee : Value)
    (arguments : List Value) :
    (Value.apply limit budget callee arguments).Bounded (effect none) :=
  bound.bounded_of_runs fun _ => Simulation.calls_apply_self limit budget ⟨trivial, rfl⟩
    (Simulation.several_self fun _ _ => ⟨trivial, rfl⟩)

end EffectBound

def Task.scope? : Task → Option ScopeId
  | .expr env _ | .exprs env _ | .pairs env _ _ | .block env _ | .stmts env _ _ | .stmt env _
  | .program env _ => some env.scope
  | .call _ _ => none

/-- Whatever a task does is within the bound. Only the scope that it works in may get new
bindings. -/
theorem Task.run_bounded {effect : Option ScopeId → Machine → Machine → Prop}
    (bound : EffectBound effect) (limit budget : Nat) (task : Task) :
    (task.run limit budget).Bounded (effect task.scope?) := by
  refine bound.bounded_of_runs fun machine =>
    Simulation.runs_task (Simulation.calls_apply_self limit budget) ?_
  refine Simulation.tasks_self (fun env isEnv => ⟨?_, rfl⟩) fun _ _ => ⟨trivial, rfl⟩
  cases task with
  | call => cases isEnv
  | _ =>
      cases isEnv
      rfl

/-! ## The frame of a run -/

namespace Machine

/-- What a run leaves alone when it may bind names in `scope`: every other scope that was there,
the names that were bound, and the number of active calls. -/
structure Framed (scope : Option ScopeId) (before after : Machine) : Prop where
  size_le : before.store.scopes.size ≤ after.store.scopes.size
  unchanged : ∀ other < before.store.scopes.size, scope ≠ some other →
    after.store.scopes[other]? = before.store.scopes[other]?
  names_kept : ∀ other name, (before.store.local? other name).isSome →
    (after.store.local? other name).isSome
  depth_eq : after.depth = before.depth

theorem framed_of_store_eq {before after : Machine} (scope : Option ScopeId)
    (sameStore : after.store = before.store) (sameDepth : after.depth = before.depth) :
    Framed scope before after where
  size_le := Nat.le_of_eq (by rw [sameStore])
  unchanged other _ _ := by rw [sameStore]
  names_kept other name isBound := by rw [sameStore]; exact isBound
  depth_eq := sameDepth

theorem Framed.trans {scope : Option ScopeId} {before middle after : Machine}
    (first : Framed scope before middle) (second : Framed scope middle after) :
    Framed scope before after where
  size_le := Nat.le_trans first.size_le second.size_le
  unchanged other inside apart := by
    have insideMiddle := Nat.lt_of_lt_of_le inside first.size_le
    exact (second.unchanged other insideMiddle apart).trans (first.unchanged other inside apart)
  names_kept other name isBound :=
    second.names_kept other name (first.names_kept other name isBound)
  depth_eq := second.depth_eq.trans first.depth_eq

theorem framed_set (machine : Machine) (env : Env) (name : String) (value : Value) :
    Framed (some env.scope) machine (machine.set env name value) where
  size_le := by simp [Machine.set, ScopeStore.set]
  unchanged other _ apart := by
    have elsewhere : env.scope ≠ other := fun same => apart (congrArg some same)
    simp [Machine.set, ScopeStore.set, Array.getElem?_modify, elsewhere]
  names_kept other target isBound := by
    simp only [Machine.set, ScopeStore.local?_set]
    split
    · rfl
    · exact isBound
  depth_eq := rfl

/-- A new scope takes the next free place, so that it hides nothing. -/
theorem local?_newScope_isSome {machine : Machine} {scope : ScopeId} {name : String}
    (env : Env) (bindings : Scope) (isBound : (machine.store.local? scope name).isSome) :
    ((machine.newScope env bindings).2.store.local? scope name).isSome := by
  have old : scope ≠ machine.store.scopes.size := by
    rintro rfl
    simp [ScopeStore.local?] at isBound
  simp only [Machine.newScope, ScopeStore.local?_add, if_neg old]
  exact isBound

/-- The scope of a call is not one of those that were there when the call was made. -/
theorem framed_call {machine after : Machine} {env : Env} {bindings : Scope}
    (body : Framed (some machine.store.scopes.size)
      (machine.newScope env bindings).2.enterCall after) :
    Framed none machine after.leaveCall where
  size_le := by
    have grown := body.size_le
    simp only [enterCall, newScope, ScopeStore.add, Array.size_push] at grown
    exact Nat.le_of_succ_le grown
  unchanged other inside _ := by
    have old : other ≠ machine.store.scopes.size := Nat.ne_of_lt inside
    have opened : (machine.newScope env bindings).2.store.scopes[other]? =
        machine.store.scopes[other]? := by
      simp [newScope, ScopeStore.add, Array.getElem?_push, old]
    have insideOpened : other < (machine.newScope env bindings).2.store.scopes.size := by
      simp only [newScope, ScopeStore.add, Array.size_push]
      exact Nat.lt_succ_of_lt inside
    have apart : some machine.store.scopes.size ≠ some other :=
      fun same => old (Option.some.inj same).symm
    exact (body.unchanged other insideOpened apart).trans opened
  names_kept other name isBound :=
    body.names_kept other name (local?_newScope_isSome env bindings isBound)
  depth_eq := by
    have counted : after.depth = machine.depth + 1 := body.depth_eq
    simp [leaveCall, counted]

/-- Evaluation binds names in no scope that was there but the one it works in, and never removes a
name. -/
theorem framed_effectBound : EffectBound Framed where
  refl scope _ := framed_of_store_eq scope rfl rfl
  trans := Framed.trans
  weaken _ framed :=
    { framed with unchanged := fun other inside _ => framed.unchanged other inside nofun }
  allocate _ := framed_of_store_eq none rfl rfl
  write _ _ := framed_of_store_eq none rfl rfl
  bind env name value machine := framed_set machine env name value
  call := framed_call

end Machine

/-- Evaluation leaves alone what its frame says. -/
theorem Task.run_framed (limit budget : Nat) (task : Task) (machine : Machine) :
    Machine.Framed task.scope? machine (task.run limit budget machine).2 :=
  task.run_bounded Machine.framed_effectBound limit budget machine

end Script
