import Script.Proofs.RelatedValues

/-!
# Runs side by side

The same code runs twice, and each run does what stands for what the other does. A simulation says
which values, environments and machines stand for each other, and that the steps of evaluation keep
it so. From that, runs that are put together from these steps end alike.

Evaluation makes identities and scopes, so that what stands for what depends on how far the two runs
have come. A world says what does, and worlds only grow while code runs; the body of a function may
run in a world of its own.

The first run may also be stopped by a failure that the second does not meet. Nothing catches a
failure, so that the first run is over then, while the second goes on.
-/

set_option autoImplicit false

namespace Script

/-- A way in which two runs can go side by side. -/
structure Simulation where
  World : Type
  /-- The second world relates all that the first does. -/
  grows : World → World → Prop
  /-- The second world is one for the body of a function that is called in the first. -/
  opens : World → World → Prop
  values : World → Value → Value → Prop
  /-- The environments that code runs in. -/
  envs : World → Env → Env → Prop
  machines : World → Machine → Machine → Prop
  /-- The failures that can stop the first run while the second goes on. -/
  stops : RuntimeError → Prop
  /-- The sink of a run that was stopped, and that of the run that went on. -/
  behind : Sink → Sink → Prop
  grows_refl (world : World) : grows world world
  grows_trans {world world' world'' : World} :
    grows world world' → grows world' world'' → grows world world''
  values_grow {world world' : World} {value value' : Value} :
    grows world world' → values world value value' → values world' value value'
  envs_grow {world world' : World} {env env' : Env} :
    grows world world' → envs world env env' → envs world' env env'
  atoms {world : World} {value : Value} : value.Atom → values world value value
  alike {world : World} {value value' : Value} :
    values world value value' → Value.Alike (values world) value value'
  identical_eq {world : World} {a a' b b' : Value} :
    values world a a' → values world b b' → a.identical b = a'.identical b'
  render_eq {world : World} {machine machine' : Machine} {value value' : Value} :
    machines world machine machine' → values world value value' →
    value.render machine.arrangement = value'.render machine'.arrangement
  get? {world : World} {machine machine' : Machine} {env env' : Env} (name : String) :
    machines world machine machine' → envs world env env' →
    Option.Rel (values world) (machine.get? env name) (machine'.get? env' name)
  set {world : World} {machine machine' : Machine} {env env' : Env} {value value' : Value}
    (name : String) :
    machines world machine machine' → envs world env env' → values world value value' →
    machines world (machine.set env name value) (machine'.set env' name value')
  make {world : World} {machine machine' : Machine} {value value' : Value} :
    machines world machine machine' →
    Value.Made (values world) (envs world) machine.nextRef machine'.nextRef value value' →
    ∃ world', grows world world' ∧ values world' value value' ∧
      machines world' { machine with nextRef := machine.nextRef + 1 }
        { machine' with nextRef := machine'.nextRef + 1 }
  write {world : World} {machine machine' : Machine} (text : String) :
    machines world machine machine' →
    (Run.write text machine).1 = (Run.write text machine').1 ∧
        machines world (Run.write text machine).2 (Run.write text machine').2 ∨
      ∃ cause, (Run.write text machine).1 = .error cause ∧ stops (.output cause) ∧
        behind (Run.write text machine).2.sink (Run.write text machine').2.sink
  later {sink sink' : Sink} (text : String) : behind sink sink' → behind sink (sink'.write text).2
  enter {world : World} {machine machine' : Machine} {ref ref' : Ref} {parameters : List Token}
    {body : Block} {env env' : Env} {arguments arguments' : List Value} :
    machines world machine machine' →
    values world (.function ref ⟨parameters, body, env⟩)
      (.function ref' ⟨parameters, body, env'⟩) →
    List.Forall₂ (values world) arguments arguments' →
    ∃ inner, opens world inner ∧
      envs inner (machine.newScope env (.ofArguments parameters arguments)).1
        (machine'.newScope env' (.ofArguments parameters arguments')).1 ∧
      machines inner (machine.newScope env (.ofArguments parameters arguments)).2.enterCall
        (machine'.newScope env' (.ofArguments parameters arguments')).2.enterCall
  leave {world inner last : World} {machine machine' : Machine} :
    opens world inner → grows inner last → machines last machine machine' →
    ∃ world', grows world world' ∧ machines world' machine.leaveCall machine'.leaveCall ∧
      ∀ value value', values last value value' → values world' value value'
  /-- When the first run was stopped, the second may go on with any value. -/
  values_self {cause : RuntimeError} : stops cause → ∀ world value, values world value value
  /-- It may go on in any environment. -/
  envs_self {cause : RuntimeError} : stops cause → ∀ world env, envs world env env

inductive Run.EndAlike {ε α : Type} (good : α → α → Prop) (bad : ε → ε → Prop) :
    Except ε α → Except ε α → Prop where
  | ok {result result' : α} : good result result' → EndAlike good bad (.ok result) (.ok result')
  | error {exception exception' : ε} :
      bad exception exception' → EndAlike good bad (.error exception) (.error exception')

namespace Run.EndAlike

variable {ε α β : Type} {good : α → α → Prop} {bad : ε → ε → Prop}

theorem bind {good' : β → β → Prop} {result result' : Except ε α} {next next' : α → Except ε β}
    (first : EndAlike good bad result result')
    (second : ∀ value value', good value value' →
      EndAlike good' bad (next value) (next' value')) :
    EndAlike good' bad (result >>= next) (result' >>= next') := by
  cases first with
  | ok same => exact second _ _ same
  | error same => exact .error same

theorem eq {ending ending' : Except ε α} (ends : EndAlike good bad ending ending')
    (goodEq : ∀ result result', good result result' → result = result')
    (badEq : ∀ exception exception', bad exception exception' → exception = exception') :
    ending = ending' := by
  cases ends with
  | ok same => rw [goodEq _ _ same]
  | error same => rw [badEq _ _ same]

end Run.EndAlike

namespace Simulation

variable (S : Simulation) {ε ε' α β : Type}

def Stopping : Prop := ∃ cause, S.stops cause

structure Results (α : Type) where
  related : S.World → α → α → Prop
  self : S.Stopping → ∀ world result, related world result result

/-- Exceptions that stand for each other, and those that can stop the first run. -/
structure Exceptions (ε : Type) where
  related : S.World → ε → ε → Prop
  stops : ε → Prop
  stopping : ∀ exception, stops exception → S.Stopping

def nothing : S.Results Unit := ⟨fun _ _ _ => True, fun _ _ _ => trivial⟩

def single : S.Results Value := ⟨S.values, fun ⟨_, isStop⟩ => S.values_self isStop⟩

def several : S.Results (List Value) where
  related world := List.Forall₂ (S.values world)
  self := fun ⟨_, isStop⟩ world _ => List.forall₂_same.mpr fun _ _ => S.values_self isStop world _

def entries : S.Results (List (Key × Value)) where
  related world := List.Forall₂ (EntryRel (S.values world))
  self := fun ⟨_, isStop⟩ world _ => forall₂_entries_same fun _ _ => S.values_self isStop world _

def optional : S.Results (Option Value) where
  related world := Option.Rel (S.values world)
  self := fun ⟨_, isStop⟩ world result =>
    match result with
    | none => .none
    | some value => .some (S.values_self isStop world value)

def streamErrors : S.Exceptions StreamError where
  related _ := (· = ·)
  stops cause := S.stops (.output cause)
  stopping cause isStop := ⟨.output cause, isStop⟩

def failures : S.Exceptions RuntimeError where
  related _ := (· = ·)
  stops := S.stops
  stopping cause isStop := ⟨cause, isStop⟩

inductive RelatedInterrupts (world : S.World) : Interrupt → Interrupt → Prop where
  | failed (cause : RuntimeError) : RelatedInterrupts world (.failed cause) (.failed cause)
  | returned {value value' : Value} :
      S.values world value value' → RelatedInterrupts world (.returned value) (.returned value')

inductive StoppingInterrupt : Interrupt → Prop where
  | failed {cause : RuntimeError} : S.stops cause → StoppingInterrupt (.failed cause)

def interrupts : S.Exceptions Interrupt where
  related := S.RelatedInterrupts
  stops := S.StoppingInterrupt
  stopping _ := fun | .failed isStop => ⟨_, isStop⟩

/-- Both runs have gone the same way to the end, in a world that has grown, or the first was
stopped. -/
inductive Ends (world : S.World) (good : S.Results α) (bad : S.Exceptions ε) :
    Except ε α × Machine → Except ε α × Machine → Prop where
  | alike {world' : S.World} {ending ending' : Except ε α} {after after' : Machine} :
      S.grows world world' → S.machines world' after after' →
      Run.EndAlike (good.related world') (bad.related world') ending ending' →
      Ends world good bad (ending, after) (ending', after')
  | stopped {exception : ε} {ending' : Except ε α} {after after' : Machine} :
      bad.stops exception → S.behind after.sink after'.sink →
      Ends world good bad (.error exception, after) (ending', after')

/-- Whatever is behind the sink stays behind it. -/
def GoesOn (run : Run ε α) : Prop :=
  ∀ machine sink, S.behind sink machine.sink → S.behind sink (run machine).2.sink

/-- On machines that stand for each other in the world, the runs end alike. If the first can be
stopped, the second leaves it behind. -/
structure Runs (world : S.World) (good : S.Results α) (bad : S.Exceptions ε) (run run' : Run ε α) :
    Prop where
  together : ∀ machine machine', S.machines world machine machine' →
    S.Ends world good bad (run machine) (run' machine')
  goesOn : S.Stopping → S.GoesOn run'

variable {S}

private theorem Ends.of_grown {world world' : S.World} {good : S.Results α} {bad : S.Exceptions ε}
    {ending ending' : Except ε α × Machine} (grown : S.grows world world')
    (ends : S.Ends world' good bad ending ending') : S.Ends world good bad ending ending' := by
  cases ends with
  | alike grown' related same => exact .alike (S.grows_trans grown grown') related same
  | stopped isStop behind => exact .stopped isStop behind

/-- Without early stops both runs end alike. -/
theorem Runs.ends {world : S.World} {good : S.Results α} {bad : S.Exceptions ε}
    {run run' : Run ε α} {machine machine' : Machine} (runs : S.Runs world good bad run run')
    (unstopped : ¬ S.Stopping) (related : S.machines world machine machine') :
    ∃ world', S.grows world world' ∧ S.machines world' (run machine).2 (run' machine').2 ∧
      Run.EndAlike (good.related world') (bad.related world')
        (run machine).1 (run' machine').1 := by
  have ends := runs.together machine machine' related
  generalize run machine = ending at ends
  generalize run' machine' = ending' at ends
  cases ends with
  | alike grown related' same => exact ⟨_, grown, related', same⟩
  | stopped isStop _ => exact absurd (bad.stopping _ isStop) unstopped

/-- A run that goes side by side with itself, and ends with a result. -/
theorem Runs.of_ok {world : S.World} {good : S.Results α} {bad : S.Exceptions ε} {run : Run ε α}
    {machine after : Machine} {result : α} (runs : S.Runs world good bad run run)
    (related : S.machines world machine machine) (ended : run machine = (.ok result, after)) :
    ∃ world', S.grows world world' ∧ S.machines world' after after ∧
      good.related world' result result := by
  have ends := runs.together machine machine related
  rw [ended] at ends
  cases ends with
  | alike grown related' same =>
      cases same with
      | ok same => exact ⟨_, grown, related', same⟩

theorem several_grow {world world' : S.World} {items items' : List Value}
    (grown : S.grows world world') (same : S.several.related world items items') :
    S.several.related world' items items' :=
  same.imp fun _ _ => S.values_grow grown

theorem entries_grow {world world' : S.World} {found found' : List (Key × Value)}
    (grown : S.grows world world') (same : S.entries.related world found found') :
    S.entries.related world' found found' :=
  same.imp fun _ _ ⟨key, sameValue⟩ => .mk key (S.values_grow grown sameValue)

/-! ## Runs that are put together -/

section Rules

variable {world : S.World} {good : S.Results α} {good' : S.Results β} {bad : S.Exceptions ε}

theorem runs_ofExcept {result result' : Except ε α}
    (same : Run.EndAlike (good.related world) (bad.related world) result result') :
    S.Runs world good bad (.ofExcept result) (.ofExcept result') where
  together _ _ related := .alike (S.grows_refl world) related same
  goesOn _ _ _ behind := behind

theorem runs_pure {result result' : α} (same : good.related world result result') :
    S.Runs world good bad (pure result) (pure result') :=
  runs_ofExcept (.ok same)

theorem runs_throw {exception exception' : ε} (same : bad.related world exception exception') :
    S.Runs world good bad (.throw exception) (.throw exception') :=
  runs_ofExcept (.error same)

/-- If the first run was stopped the second goes on alone, and leaves the first one further
behind. -/
theorem Runs.bind {run run' : Run ε α} {next next' : α → Run ε β}
    (first : S.Runs world good bad run run')
    (second : ∀ world', S.grows world world' → ∀ result result',
      good.related world' result result' →
        S.Runs world' good' bad (next result) (next' result')) :
    S.Runs world good' bad (run >>= next) (run' >>= next') := by
  -- whatever the second run goes on with stands for itself when the first can be stopped
  have onward (stopping : S.Stopping) (result : α) : S.GoesOn (next' result) :=
    (second world (S.grows_refl world) result result (good.self stopping world result)).goesOn
      stopping
  constructor
  case together =>
    intro machine machine' related
    have ends := first.together machine machine' related
    rw [Run.bind_apply, Run.bind_apply]
    generalize run machine = ending at ends
    generalize run' machine' = ending' at ends
    cases ends with
    | alike grown related' same =>
        cases same with
        | ok same => exact ((second _ grown _ _ same).together _ _ related').of_grown grown
        | error same => exact .alike grown related' (.error same)
    | @stopped _ ending' _ after' isStop behind =>
        cases ending' with
        | ok result => exact .stopped isStop (onward (bad.stopping _ isStop) result after' _ behind)
        | error _ => exact .stopped isStop behind
  case goesOn =>
    intro stopping machine sink behind
    have behind' := first.goesOn stopping machine sink behind
    rw [Run.bind_apply]
    cases ended : run' machine with
    | mk ending after =>
        rw [ended] at behind'
        cases ending with
        | ok result => exact onward stopping result after sink behind'
        | error _ => exact behind'

theorem Runs.map {run run' : Run ε α} (form : α → β) (runs : S.Runs world good bad run run')
    (formed : ∀ world result result', good.related world result result' →
      good'.related world (form result) (form result')) :
    S.Runs world good' bad (form <$> run) (form <$> run') := by
  rw [map_eq_pure_bind, map_eq_pure_bind]
  apply runs.bind
  intro _ _ result result' same
  exact runs_pure (formed _ _ _ same)

theorem Runs.mapError {run run' : Run ε α} {rename : ε → ε'} {bad' : S.Exceptions ε'}
    (runs : S.Runs world good bad run run')
    (renamed : ∀ world exception exception', bad.related world exception exception' →
      bad'.related world (rename exception) (rename exception'))
    (stops : ∀ exception, bad.stops exception → bad'.stops (rename exception)) :
    S.Runs world good bad' (run.mapError rename) (run'.mapError rename) where
  together machine machine' related := by
    have ends := runs.together machine machine' related
    unfold Run.mapError
    generalize run machine = ending at ends
    generalize run' machine' = ending' at ends
    cases ends with
    | alike grown related' same =>
        cases same with
        | ok same => exact .alike grown related' (.ok same)
        | error same => exact .alike grown related' (.error (renamed _ _ _ same))
    | @stopped _ ending' _ _ isStop behind =>
        cases ending' <;> exact .stopped (stops _ isStop) behind
  goesOn stopping machine sink behind := by
    have behind' := runs.goesOn stopping machine sink behind
    unfold Run.mapError
    generalize run' machine = ending at behind'
    obtain ⟨ending, after⟩ := ending
    cases ending <;> exact behind'

theorem Runs.interruptible {run run' : Run RuntimeError α}
    (runs : S.Runs world good S.failures run run') :
    S.Runs world good S.interrupts run.interruptible run'.interruptible :=
  runs.mapError (fun _ cause _ same => same ▸ .failed cause) fun _ => .failed

/-- A `return` does not stop the first run, so that both runs catch it. -/
theorem Runs.catchReturn {run run' : Run Interrupt α} (ofValue : Value → α)
    (runs : S.Runs world good S.interrupts run run')
    (caught : ∀ world value value', S.values world value value' →
      good.related world (ofValue value) (ofValue value')) :
    S.Runs world good S.failures (run.catchReturn ofValue) (run'.catchReturn ofValue) where
  together machine machine' related := by
    have ends := runs.together machine machine' related
    unfold Run.catchReturn
    generalize run machine = ending at ends
    generalize run' machine' = ending' at ends
    cases ends with
    | alike grown related' same =>
        cases same with
        | ok same => exact .alike grown related' (.ok same)
        | error same =>
            cases same with
            | failed cause => exact .alike grown related' (.error rfl)
            | returned same => exact .alike grown related' (.ok (caught _ _ _ same))
    | @stopped _ ending' _ _ isStop behind =>
        cases isStop with
        | failed isStop =>
            cases ending' with
            | ok result => exact .stopped isStop behind
            | error interrupt => cases interrupt <;> exact .stopped isStop behind
  goesOn stopping machine sink behind := by
    have behind' := runs.goesOn stopping machine sink behind
    unfold Run.catchReturn
    generalize run' machine = ending at behind'
    obtain ⟨ending, after⟩ := ending
    cases ending with
    | ok result => exact behind'
    | error interrupt => cases interrupt <;> exact behind'

theorem runs_allocate {make make' : Ref → Value}
    (made : ∀ ref ref', Value.Made (S.values world) (S.envs world) ref ref' (make ref)
      (make' ref')) : S.Runs world S.single bad (.allocate make) (.allocate make') where
  together machine machine' related := by
    obtain ⟨world', grown, same, related'⟩ := S.make related (made machine.nextRef machine'.nextRef)
    exact .alike grown related' (.ok same)
  goesOn _ _ _ behind := behind

theorem runs_set {env env' : Env} {value value' : Value} (name : String)
    (sameEnv : S.envs world env env') (same : S.values world value value') :
    S.Runs world S.nothing bad (.modify (·.set env name value))
      (.modify (·.set env' name value')) where
  together _ _ related :=
    .alike (S.grows_refl world) (S.set name related sameEnv same) (.ok trivial)
  goesOn _ _ _ behind := behind

end Rules

/-! ## Operators -/

section Operators

variable {world : S.World}

theorem getD_related {found found' : Option Value} (same : S.optional.related world found found') :
    S.values world (found.getD .null) (found'.getD .null) := by
  cases same with
  | none => exact S.atoms .null
  | some same => exact same

theorem runs_settle {value value' : Value} (same : S.values world value value') :
    S.Runs world S.single S.interrupts (Run.settle value) (Run.settle value') := by
  cases S.alike same with
  | returned inner => exact runs_throw (.returned inner)
  | atom isAtom => cases isAtom <;> exact runs_pure same
  | _ => exact runs_pure same

/-- A name that is bound on neither side is a built-in function on both, or unknown on both. -/
theorem runs_lookup {env env' : Env} (sameEnv : S.envs world env env') (name : String) :
    S.Runs world S.single S.interrupts (lookup env name) (lookup env' name) where
  together machine machine' related := by
    have found := S.get? name related sameEnv
    unfold lookup
    generalize machine.get? env name = value? at found
    generalize machine'.get? env' name = value'? at found
    cases found with
    | some same => exact (runs_settle same).together machine machine' related
    | none =>
        cases Builtin.ofName? name with
        | some native => exact .alike (S.grows_refl world) related (.ok (S.atoms (.builtin native)))
        | none => exact .alike (S.grows_refl world) related (.error (.failed _))
  goesOn stopping machine sink behind := by
    unfold lookup
    cases machine.get? env' name with
    | some value =>
        have self : S.values world value value := S.single.self stopping world value
        exact (runs_settle self).goesOn stopping machine sink behind
    | none => cases Builtin.ofName? name <;> exact behind

theorem unaryOp_alike (op : UnaryOp) {value value' : Value} (same : S.values world value value') :
    Run.EndAlike (S.values world) (· = ·) (op.apply value) (op.apply value') := by
  have same := S.alike same
  cases op with
  | not =>
      rw [UnaryOp.apply, UnaryOp.apply, same.truthy_eq]
      exact .ok (S.atoms (.bool _))
  | neg =>
      cases same with
      | atom isAtom =>
          cases isAtom with
          | int n => exact .ok (S.atoms (.int _))
          | _ => exact .error rfl
      | _ => exact .error rfl

private theorem onOthers_alike (op : BinaryOp) {left left' right right' : Value}
    (sameLeft : S.values world left left') (sameRight : S.values world right right') :
    Run.EndAlike (S.values world) (· = ·) (op.onOthers left right)
      (op.onOthers left' right') := by
  unfold BinaryOp.onOthers
  rw [(S.alike sameLeft).kind_eq, (S.alike sameRight).kind_eq, S.identical_eq sameLeft sameRight]
  split
  · exact .error rfl
  · split
    · exact .ok (S.atoms (.bool _))
    · exact .ok (S.atoms (.bool _))
    · exact .error rfl

private theorem onIntegers_alike (op : BinaryOp) (a b : Int64) :
    Run.EndAlike (S.values world) (· = ·) (op.onIntegers a b) (op.onIntegers a b) := by
  cases op with
  | div =>
      rw [BinaryOp.onIntegers]
      split
      · exact .error rfl
      · exact .ok (S.atoms (.int _))
  | add | sub | mul => exact .ok (S.atoms (.int _))
  | lt | gt | eq | ne => exact .ok (S.atoms (.bool _))

theorem runs_binaryOp (op : BinaryOp) {left left' right right' : Value}
    (sameLeft : S.values world left left') (sameRight : S.values world right right') :
    S.Runs world S.single S.failures (op.apply left right) (op.apply left' right') := by
  have others : S.Runs world S.single S.failures (.ofExcept (op.onOthers left right))
      (.ofExcept (op.onOthers left' right')) := runs_ofExcept (onOthers_alike op sameLeft sameRight)
  cases S.alike sameLeft with
  | str _ _ a =>
      cases S.alike sameRight with
      | str _ _ b =>
          cases op with
          | add => exact runs_allocate fun _ _ => .str (a ++ b)
          | _ => exact runs_throw rfl
      | atom isAtom => cases isAtom <;> exact others
      | _ => exact others
  | atom isAtom =>
      cases isAtom with
      | int a =>
          cases S.alike sameRight with
          | atom isAtom =>
              cases isAtom with
              | int b => exact runs_ofExcept (onIntegers_alike op a b)
              | _ => exact others
          | _ => exact others
      | _ => exact others
  | _ => exact others

private theorem itemAt_related {items items' : List Value}
    (same : S.several.related world items items')
    (position : Int64) : S.values world (itemAt items position) (itemAt items' position) := by
  unfold itemAt
  split
  · exact S.atoms .null
  · exact getD_related (forall₂_getElem? same _)

theorem index_alike {collection collection' position position' : Value}
    (same : S.values world collection collection')
    (samePosition : S.values world position position') :
    Run.EndAlike (S.values world) (· = ·) (collection.index position)
      (collection'.index position') := by
  have samePosition := S.alike samePosition
  cases S.alike same with
  | list _ _ items =>
      cases samePosition with
      | atom isAtom =>
          cases isAtom with
          | int n => exact .ok (itemAt_related items n)
          | _ => exact .error rfl
      | _ => exact .error rfl
  | map _ _ entries =>
      rw [Value.index, Value.index, samePosition.key?_eq, samePosition.kind_eq]
      split
      · exact .error rfl
      · exact .ok (getD_related (Assoc.find?_related entries _))
  | atom isAtom => cases isAtom <;> exact .error rfl
  | _ => exact .error rfl

end Operators

/-! ## Built-in functions -/

section Builtins

variable {world : S.World}

theorem runs_write (text : String) :
    S.Runs world S.nothing S.streamErrors (Run.write text) (Run.write text) where
  together machine machine' related := by
    have step := S.write text related
    generalize Run.write text machine = ending at step
    generalize Run.write text machine' = ending' at step
    obtain ⟨result, after⟩ := ending
    obtain ⟨result', after'⟩ := ending'
    rcases step with ⟨sameEnd, related'⟩ | ⟨cause, failed, isStop, behind⟩
    · cases sameEnd
      refine .alike (S.grows_refl world) related' ?_
      cases result with
      | ok _ => exact .ok trivial
      | error _ => exact .error rfl
    · cases failed
      exact .stopped isStop behind
  goesOn _ _ _ behind := S.later text behind

theorem runs_writeLine {value value' : Value} (same : S.values world value value') :
    S.Runs world S.nothing S.streamErrors (Run.writeLine value) (Run.writeLine value') where
  together machine machine' related := by
    unfold Run.writeLine
    rw [S.render_eq related same]
    exact (runs_write _).together machine machine' related
  goesOn _ _ _ behind := S.later _ behind

theorem runs_writeLines {items items' : List Value} (same : S.several.related world items items') :
    S.Runs world S.nothing S.streamErrors (Builtin.writeLines items)
      (Builtin.writeLines items') := by
  induction items generalizing items' world with
  | nil =>
      cases same
      exact runs_pure trivial
  | cons value rest ih =>
      cases same with
      | cons first sameRest =>
          rw [Builtin.writeLines, Builtin.writeLines]
          apply (runs_writeLine first).bind
          intro world' grown _ _ _
          exact ih (several_grow grown sameRest)

theorem listItems_alike (native : Builtin) {value value' : Value}
    (same : S.values world value value') :
    Run.EndAlike (S.several.related world) (· = ·) (native.listItems value)
      (native.listItems value') := by
  cases S.alike same with
  | list _ _ items => exact .ok items
  | atom isAtom => cases isAtom <;> exact .error rfl
  | _ => exact .error rfl

theorem onlyArgument_alike {items items' : List Value}
    (same : S.several.related world items items') :
    Run.EndAlike (S.values world) (· = ·) (Builtin.onlyArgument items)
      (Builtin.onlyArgument items') := by
  have sameLength := same.length_eq
  cases same with
  | nil => exact .error rfl
  | cons first rest =>
      cases rest with
      | nil => exact .ok first
      | cons second more =>
          refine .error ?_
          rw [sameLength]

theorem onlyList_alike (native : Builtin) {items items' : List Value}
    (same : S.several.related world items items') :
    Run.EndAlike (S.several.related world) (· = ·) (native.onlyList items)
      (native.onlyList items') :=
  (onlyArgument_alike same).bind fun _ _ => listItems_alike native

theorem length_alike {value value' : Value} (same : S.values world value value') :
    Run.EndAlike (S.values world) (· = ·) (Builtin.length value) (Builtin.length value') := by
  cases S.alike same with
  | str _ _ text => exact .ok (S.atoms (.int _))
  | list _ _ items =>
      rw [Builtin.length, Builtin.length, items.length_eq]
      exact .ok (S.atoms (.int _))
  | atom isAtom => cases isAtom <;> exact .error rfl
  | _ => exact .error rfl

theorem runs_tail {items items' : List Value} (same : S.several.related world items items') :
    S.Runs world S.single S.failures (Builtin.invoke .tail items)
      (Builtin.invoke .tail items') := by
  have listed := onlyList_alike .tail same
  rw [Builtin.invoke, Builtin.invoke]
  generalize Builtin.onlyList .tail items = result at listed
  generalize Builtin.onlyList .tail items' = result' at listed
  cases listed with
  | error same => exact runs_throw same
  | ok sameItems =>
      cases sameItems with
      | nil => exact runs_pure (S.atoms .null)
      | cons _ rest => exact runs_allocate fun _ _ => .list rest

theorem runs_push {items items' : List Value} (same : S.several.related world items items') :
    S.Runs world S.single S.failures (Builtin.invoke .push items)
      (Builtin.invoke .push items') := by
  have sameLength := same.length_eq
  cases same with
  | nil => exact runs_throw rfl
  | cons first rest =>
      cases rest with
      | nil => exact runs_throw rfl
      | cons second more =>
          cases more with
          | cons _ _ => exact runs_throw (congrArg (RuntimeError.wrongArgumentCount · 2) sameLength)
          | nil =>
              have listed := listItems_alike .push first
              rw [Builtin.invoke, Builtin.invoke]
              generalize Builtin.listItems .push _ = result at listed
              generalize Builtin.listItems .push _ = result' at listed
              cases listed with
              | error same => exact runs_throw same
              | ok sameItems =>
                  exact runs_allocate fun _ _ =>
                    .list (List.rel_append sameItems (.cons second .nil))

theorem runs_invoke (native : Builtin) {items items' : List Value}
    (same : S.several.related world items items') :
    S.Runs world S.single S.failures (native.invoke items) (native.invoke items') := by
  cases native with
  | first =>
      refine runs_ofExcept ((onlyList_alike .first same).bind fun found found' sameItems => ?_)
      rw [List.head?_eq_getElem?, List.head?_eq_getElem?]
      exact .ok (getD_related (forall₂_getElem? sameItems 0))
  | last =>
      refine runs_ofExcept ((onlyList_alike .last same).bind fun found found' sameItems => ?_)
      rw [List.getLast?_eq_getElem?, List.getLast?_eq_getElem?, sameItems.length_eq]
      exact .ok (getD_related (forall₂_getElem? sameItems _))
  | tail => exact runs_tail same
  | push => exact runs_push same
  | len => exact runs_ofExcept ((onlyArgument_alike same).bind fun _ _ => length_alike)
  | puts =>
      rw [Builtin.invoke, Builtin.invoke]
      have written : S.Runs world S.nothing S.failures ((Builtin.writeLines items).mapError .output)
          ((Builtin.writeLines items').mapError .output) :=
        (runs_writeLines same).mapError (fun _ _ _ => congrArg _) fun _ isStop => isStop
      apply written.bind
      intro _ _ _ _ _
      exact runs_pure (S.atoms .null)

end Builtins

end Simulation

end Script
