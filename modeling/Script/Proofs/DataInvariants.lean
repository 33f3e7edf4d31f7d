import Script.Proofs.SimulatedRuns

/-!
# Invariants of machines and values

A property of machines and of the values at hand that the steps of evaluation keep is kept by every
evaluation: a run goes side by side with itself. The property may depend on a world that grows with
what the run makes.
-/

set_option autoImplicit false

namespace Script

/-- A property of machines, of the values at hand and of the environments that code runs in. -/
structure DataInvariant where
  World : Type
  grows : World → World → Prop
  /-- The second world is one for the body of a function that is called in the first. -/
  opens : World → World → Prop
  value : World → Value → Prop
  env : World → Env → Prop
  machine : World → Machine → Prop
  grows_refl (world : World) : grows world world
  grows_trans {world world' world'' : World} :
    grows world world' → grows world' world'' → grows world world''
  value_grow {world world' : World} {found : Value} :
    grows world world' → value world found → value world' found
  env_grow {world world' : World} {place : Env} :
    grows world world' → env world place → env world' place
  atom {world : World} {found : Value} : found.Atom → value world found
  part {world : World} {found part : Value} :
    value world found → found.HasPart part → value world part
  get? {world : World} {before : Machine} {place : Env} {name : String} {found : Value} :
    machine world before → before.get? place name = some found → value world found
  set {world : World} {before : Machine} {place : Env} {found : Value} (name : String) :
    machine world before → env world place → value world found →
    machine world (before.set place name found)
  make {world : World} {before : Machine} {made : Value} :
    machine world before → made.ref? = some before.nextRef →
    (∀ part, made.HasPart part → value world part) →
    ∃ world', grows world world' ∧ value world' made ∧
      machine world' { before with nextRef := before.nextRef + 1 }
  write {world : World} {before : Machine} (text : String) :
    machine world before → machine world (Run.write text before).2
  enter {world : World} {before : Machine} {arguments : List Value} (place : Env)
    (parameters : List Token) :
    machine world before → (∀ argument ∈ arguments, value world argument) →
    ∃ inner, opens world inner ∧
      env inner (before.newScope place (.ofArguments parameters arguments)).1 ∧
      machine inner (before.newScope place (.ofArguments parameters arguments)).2.enterCall
  leave {world inner last : World} {after : Machine} :
    opens world inner → grows inner last → machine last after →
    ∃ world', grows world world' ∧ machine world' after.leaveCall ∧
      ∀ found, value last found → value world' found

section Diagonal

variable {good : Value → Prop}

/-- Lists that are related item by item, through equal items with the property, are equal and have
it throughout. -/
theorem forall₂_and_eq_iff {items items' : List Value} :
    List.Forall₂ (fun item item' => good item ∧ item = item') items items' ↔
      (∀ item ∈ items, good item) ∧ items = items' := by
  rw [List.forall₂_and_left, List.forall₂_eq_eq_eq]

private theorem forall₂_entries_and_eq_iff {entries entries' : List (Key × Value)} :
    List.Forall₂ (EntryRel fun value value' => good value ∧ value = value') entries entries' ↔
      (∀ entry ∈ entries, good entry.2) ∧ entries = entries' := by
  rw [entryRel_and, List.forall₂_and_left, entryRel_eq, List.forall₂_eq_eq_eq]

end Diagonal

namespace DataInvariant

variable (I : DataInvariant)

def simulation : Simulation where
  World := I.World
  grows := I.grows
  opens := I.opens
  values world value value' := I.value world value ∧ value = value'
  envs world env env' := I.env world env ∧ env = env'
  machines world machine machine' := I.machine world machine ∧ machine = machine'
  stops _ := False
  behind _ _ := True
  grows_refl := I.grows_refl
  grows_trans := I.grows_trans
  values_grow grown := And.imp_left (I.value_grow grown)
  envs_grow grown := And.imp_left (I.env_grow grown)
  atoms isAtom := ⟨I.atom isAtom, rfl⟩
  alike same := by
    obtain ⟨holds, rfl⟩ := same
    exact .self fun _ isPart => ⟨I.part holds isPart, rfl⟩
  identical_eq same same' := by rw [same.2, same'.2]
  render_eq related same := by rw [related.2, same.2]
  get? {world machine _ env _} name related sameEnv := by
    obtain ⟨holds, rfl⟩ := related
    obtain ⟨_, rfl⟩ := sameEnv
    cases found : machine.get? env name with
    | none => exact .none
    | some value => exact .some ⟨I.get? holds found, rfl⟩
  set name related sameEnv same := by
    obtain ⟨holds, rfl⟩ := related
    obtain ⟨holdsEnv, rfl⟩ := sameEnv
    obtain ⟨holdsValue, rfl⟩ := same
    exact ⟨I.set name holds holdsEnv holdsValue, rfl⟩
  make {world machine _ value value'} related made := by
    obtain ⟨holds, rfl⟩ := related
    have isMade : value = value' ∧ value.ref? = some machine.nextRef ∧
        ∀ part, value.HasPart part → I.value world part := by
      cases made with
      | str text => exact ⟨rfl, rfl, nofun⟩
      | list items =>
          obtain ⟨holdsItems, rfl⟩ := forall₂_and_eq_iff.mp items
          exact ⟨rfl, rfl, fun | _, .item member => holdsItems _ member⟩
      | map entries =>
          obtain ⟨holdsEntries, rfl⟩ := forall₂_entries_and_eq_iff.mp entries
          exact ⟨rfl, rfl, fun | _, .entry member => holdsEntries _ member⟩
      | function parameters body sameEnv =>
          obtain ⟨_, rfl⟩ := sameEnv
          exact ⟨rfl, rfl, nofun⟩
    obtain ⟨rfl, isNew, parts⟩ := isMade
    obtain ⟨world', grown, holdsMade, holds'⟩ := I.make holds isNew parts
    exact ⟨world', grown, ⟨holdsMade, rfl⟩, holds', rfl⟩
  write text related := by
    obtain ⟨holds, rfl⟩ := related
    exact .inl ⟨rfl, I.write text holds, rfl⟩
  later _ _ := trivial
  enter {_ _ _ _ _ parameters _ env _ _ _} related same sameArguments := by
    obtain ⟨holds, rfl⟩ := related
    obtain ⟨_, sameFunction⟩ := same
    obtain ⟨holdsArguments, rfl⟩ := forall₂_and_eq_iff.mp sameArguments
    cases sameFunction
    obtain ⟨inner, opens, holdsEnv, holds'⟩ := I.enter env parameters holds holdsArguments
    exact ⟨inner, opens, ⟨holdsEnv, rfl⟩, holds', rfl⟩
  leave opens grown related := by
    obtain ⟨holds, rfl⟩ := related
    obtain ⟨world', grown', holds', moved⟩ := I.leave opens grown holds
    exact ⟨world', grown', ⟨holds', rfl⟩, fun _ _ => And.imp_left (moved _)⟩
  values_self never := never.elim
  envs_self never := never.elim

variable {I}

theorem unstopped : ¬ I.simulation.Stopping := fun ⟨_, never⟩ => never

variable (I) in
def Steady : Prop := ∀ {world inner : I.World}, I.opens world inner → I.grows world inner

theorem Steady.simulation (steady : I.Steady) : I.simulation.Steady :=
  ⟨unstopped, steady⟩

/-- A task stands for itself if its environment and the values that it is given have the
property. -/
theorem tasks_self {world : I.World} {task : Task} (envs : ∀ env ∈ task.env?, I.env world env)
    (inputs : ∀ value ∈ task.inputs, I.value world value) : I.simulation.tasks world task task :=
  Simulation.tasks_self (fun env isEnv => ⟨envs env isEnv, rfl⟩)
    fun value member => ⟨inputs value member, rfl⟩

/-- What is evaluated on the way starts with machines, environments and values that have the
property. -/
theorem Steady.within (steady : I.Steady) (world : I.World) {outer inner : Activity}
    (within : outer.Within inner) (holds : I.machine world outer.machine)
    (envs : ∀ env ∈ outer.task.env?, I.env world env)
    (inputs : ∀ value ∈ outer.task.inputs, I.value world value) :
    ∃ world', I.grows world world' ∧ I.machine world' inner.machine ∧
      (∀ env ∈ inner.task.env?, I.env world' env) ∧
      ∀ value ∈ inner.task.inputs, I.value world' value := by
  obtain ⟨world', grown, holds', same⟩ :=
    Simulation.within_self steady.simulation within ⟨holds, rfl⟩ (tasks_self envs inputs)
  exact ⟨world', grown, holds'.1, fun env isEnv => (Simulation.env_of_tasks same env isEnv).1,
    fun value member => (Simulation.values_of_tasks same value member).1⟩

/-- An evaluation ends with a machine and values that have the property. -/
theorem Steady.finish (steady : I.Steady) (world : I.World) (activity : Activity)
    (holds : I.machine world activity.machine) (envs : ∀ env ∈ activity.task.env?, I.env world env)
    (inputs : ∀ value ∈ activity.task.inputs, I.value world value) :
    ∃ world', I.grows world world' ∧ I.machine world' activity.finish.2 ∧
      ∀ value ∈ Activity.endValues activity.finish.1, I.value world' value := by
  obtain ⟨world', grown, holds', same⟩ :=
    Simulation.finish_self steady.simulation activity ⟨holds, rfl⟩ (tasks_self envs inputs)
  exact ⟨world', grown, holds'.1, fun value member => (same value member).1⟩

end DataInvariant

end Script
