import Script.Proofs.DataInvariants
import Script.Proofs.HeldEnvironments
import Script.Proofs.HostStates

/-!
# What identities stand for

A value gets its identity when it is made and never changes. A history lists what was made, by
identities. Every value at hand is what the history has at its identity, and so is all that it
consists of. A run adds to the history, so that an identity stands for the same value from then on:
in bindings, in collections, in results and in what is returned.
-/

set_option autoImplicit false

namespace Script

/-- The value and all that it consists of are what the history has at their identities. -/
inductive Value.Recorded (history : List Value) : Value → Prop where
  | null : Recorded history .null
  | bool (b : Bool) : Recorded history (.bool b)
  | int (n : Int64) : Recorded history (.int n)
  | str {ref : Ref} {text : String} :
      history[ref]? = some (.str ref text) → Recorded history (.str ref text)
  | list {ref : Ref} {items : List Value} :
      history[ref]? = some (.list ref items) → (∀ item ∈ items, Recorded history item) →
      Recorded history (.list ref items)
  | map {ref : Ref} {entries : List (Key × Value)} :
      history[ref]? = some (.map ref entries) → (∀ entry ∈ entries, Recorded history entry.2) →
      Recorded history (.map ref entries)
  | function {ref : Ref} {closure : Closure} :
      history[ref]? = some (.function ref closure) → Recorded history (.function ref closure)
  | builtin (native : Builtin) : Recorded history (.builtin native)
  | returned {value : Value} : Recorded history value → Recorded history (.returned value)
  | error (cause : RuntimeError) : Recorded history (.error cause)

structure Machine.Recorded (history : List Value) (machine : Machine) : Prop where
  made : machine.nextRef = history.length
  bindings : ∀ scope name value, machine.store.local? scope name = some value →
    value.Recorded history

section Growth

variable {history later : List Value}

private theorem getElem?_of_grown (grown : history <+: later) {ref : Ref} {value : Value}
    (found : history[ref]? = some value) : later[ref]? = some value := by
  obtain ⟨added, rfl⟩ := grown
  have inside : ref < history.length := (List.getElem?_eq_some_iff.mp found).1
  rw [List.getElem?_append_left inside, found]

/-- What is recorded stays recorded, since a history only grows at its end. -/
theorem Value.Recorded.mono (grown : history <+: later) {value : Value}
    (recorded : value.Recorded history) : value.Recorded later := by
  induction recorded with
  | null => exact .null
  | bool b => exact .bool b
  | int n => exact .int n
  | str found => exact .str (getElem?_of_grown grown found)
  | list found _ ih => exact .list (getElem?_of_grown grown found) ih
  | map found _ ih => exact .map (getElem?_of_grown grown found) ih
  | function found => exact .function (getElem?_of_grown grown found)
  | builtin native => exact .builtin native
  | returned _ ih => exact .returned ih
  | error cause => exact .error cause

theorem Value.Recorded.part {value part : Value} (recorded : value.Recorded history)
    (isPart : value.HasPart part) : part.Recorded history := by
  cases isPart with
  | item member =>
      cases recorded with
      | list _ items => exact items _ member
  | entry member =>
      cases recorded with
      | map _ entries => exact entries _ member
  | returned =>
      cases recorded with
      | returned inner => exact inner

/-- A value that the history has at its identity is recorded when what it consists of is. -/
theorem Value.Recorded.of_new {ref : Ref} {value : Value} (isNew : value.ref? = some ref)
    (found : history[ref]? = some value)
    (parts : ∀ part, value.HasPart part → part.Recorded history) : value.Recorded history := by
  cases value with
  | str ref' text =>
      cases isNew
      exact .str found
  | list ref' items =>
      cases isNew
      exact .list found fun item member => parts item (.item member)
  | map ref' entries =>
      cases isNew
      exact .map found fun entry member => parts entry.2 (.entry member)
  | function ref' closure =>
      cases isNew
      exact .function found
  | _ => cases isNew

end Growth

/-! ## Machines -/

namespace Machine.Recorded

variable {history later : List Value} {machine : Machine}

theorem set (recorded : machine.Recorded history) (env : Env) (name : String) {value : Value}
    (recordedValue : value.Recorded history) :
    (machine.set env name value).Recorded history where
  made := recorded.made
  bindings scope target found here := by
    rw [Machine.set, ScopeStore.local?_set] at here
    split at here
    · cases here
      exact recordedValue
    · exact recorded.bindings scope target found here

theorem newScope (recorded : machine.Recorded history) (env : Env) {bindings : Scope}
    (recordedBindings : ∀ name value, bindings.get? name = some value → value.Recorded history) :
    (machine.newScope env bindings).2.Recorded history where
  made := recorded.made
  bindings scope name value found := by
    rw [Machine.newScope, ScopeStore.local?_add] at found
    split at found
    · exact recordedBindings name value found
    · exact recorded.bindings scope name value found

theorem enter (recorded : machine.Recorded history) (env : Env) (parameters : List Token)
    {arguments : List Value} (recordedArguments : ∀ value ∈ arguments, value.Recorded history) :
    (machine.newScope env (.ofArguments parameters arguments)).2.enterCall.Recorded history := by
  have opened := recorded.newScope env fun name value
    (found : (Scope.ofArguments parameters arguments).get? name = some value) =>
      recordedArguments value (Scope.mem_of_get?_ofArguments found)
  exact ⟨opened.made, opened.bindings⟩

theorem get? (recorded : machine.Recorded history) {env : Env} {name : String} {value : Value}
    (found : machine.get? env name = some value) : value.Recorded history := by
  obtain ⟨scope, _, bound⟩ := List.exists_of_findSome?_eq_some found
  exact recorded.bindings scope name value bound

/-- What is made next is added to the history. -/
theorem make (recorded : machine.Recorded history) (value : Value) :
    ({ machine with nextRef := machine.nextRef + 1 } : Machine).Recorded (history ++ [value]) where
  made := by simp [recorded.made]
  bindings scope name value' found :=
    (recorded.bindings scope name value' found).mono (List.prefix_append history [value])

/-- The next identity is the place at which the history grows. -/
theorem getElem?_made (recorded : machine.Recorded history) (value : Value) :
    (history ++ [value])[machine.nextRef]? = some value := by
  rw [recorded.made]
  exact List.getElem?_concat_length

end Machine.Recorded

/-! ## Runs and hosts -/

namespace DataInvariant

def recording : DataInvariant where
  World := List Value
  grows := (· <+: ·)
  opens := (· <+: ·)
  value := Value.Recorded
  env _ _ := True
  machine := Machine.Recorded
  grows_refl _ := List.prefix_rfl
  grows_trans := List.IsPrefix.trans
  value_grow grown recorded := recorded.mono grown
  env_grow _ := id
  atom isAtom := by cases isAtom <;> constructor
  part := Value.Recorded.part
  get? recorded found := recorded.get? found
  set name recorded _ recordedValue := recorded.set _ name recordedValue
  make {history _ value} recorded isNew parts := by
    have grown := List.prefix_append history [value]
    exact ⟨_, grown, .of_new isNew (recorded.getElem?_made value) fun part isPart =>
      (parts part isPart).mono grown, recorded.make value⟩
  write _ recorded := ⟨recorded.made, recorded.bindings⟩
  enter env parameters recorded recordedArguments :=
    ⟨_, List.prefix_rfl, trivial, recorded.enter env parameters recordedArguments⟩
  leave opened grown recorded :=
    ⟨_, opened.trans grown, ⟨recorded.made, recorded.bindings⟩, fun _ => id⟩

end DataInvariant

namespace Host

variable {history : List Value}

/-- The value is held or bound, or is a part of one that is. -/
inductive Occurs (host : Host) : Value → Prop where
  | held {value : Value} : value ∈ host.values → Occurs host value
  | bound {scope : ScopeId} {name : String} {value : Value} :
      host.machine.store.local? scope name = some value → Occurs host value
  | part {value part : Value} : Occurs host value → value.HasPart part → Occurs host part

/-- Whatever the host can get hold of is in the history. -/
theorem Occurs.recorded {host : Host} {value : Value} (occurs : host.Occurs value)
    (covers : DataInvariant.recording.simulation.Covers history host) :
    value.Recorded history := by
  induction occurs with
  | held member => exact (covers.values _ member).1
  | bound found => exact covers.machine.1.bindings _ _ _ found
  | part _ isPart ih => exact ih.part isPart

end Host

end Script
