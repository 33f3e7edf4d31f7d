import Script.Proofs.Effects
import Script.Proofs.HostStates
import Script.Proofs.LexicalScope

/-!
# Calls that are repeated

A call can bind names only in scopes that it makes itself, so that functions have no state: when a
call is repeated on the machine that it left, it does the same again. The second call makes as many
identities and scopes as the first, in the same order, and its result differs from the first in
these only.

In a reachable state every identity and every scope at hand has been made before. What a call makes
can therefore be told from what was there when it started.
-/

set_option autoImplicit false

namespace Script

/-! ## What has been made -/

structure Extent where
  refs : Nat
  scopes : Nat

namespace Extent

def SameRef (extent : Extent) (ref ref' : Ref) : Prop := ref = ref' ∧ ref < extent.refs

def SameEnv (extent : Extent) : Env → Env → Prop := Env.Same (Env.Inside (· < extent.scopes))

/-- Equal values in which only identities and scopes occur that have been made. -/
def SameValue (extent : Extent) : Value → Value → Prop :=
  Value.Matches extent.SameRef extent.SameEnv

structure Of (extent : Extent) (machine : Machine) : Prop where
  refs_eq : machine.nextRef = extent.refs
  scopes_eq : machine.store.scopes.size = extent.scopes
  bindings : ∀ scope name value, machine.store.local? scope name = some value →
    extent.SameValue value value

variable {extent extent' : Extent} {machine : Machine}

def Grows (extent extent' : Extent) : Prop :=
  extent.refs ≤ extent'.refs ∧ extent.scopes ≤ extent'.scopes

theorem grows_scopes (extent : Extent) : extent.Grows ⟨extent.refs, extent.scopes + 1⟩ :=
  ⟨Nat.le_refl _, Nat.le_succ _⟩

private theorem grows_refs (extent : Extent) : extent.Grows ⟨extent.refs + 1, extent.scopes⟩ :=
  ⟨Nat.le_succ _, Nat.le_refl _⟩

theorem SameRef.grow (grown : extent.Grows extent') {ref ref' : Ref}
    (same : extent.SameRef ref ref') : extent'.SameRef ref ref' :=
  ⟨same.1, Nat.lt_of_lt_of_le same.2 grown.1⟩

theorem SameEnv.grow (grown : extent.Grows extent') {env env' : Env}
    (same : extent.SameEnv env env') : extent'.SameEnv env env' :=
  ⟨same.1, fun scope member => Nat.lt_of_lt_of_le (same.2 scope member) grown.2⟩

theorem SameValue.grow (grown : extent.Grows extent') {value value' : Value}
    (same : extent.SameValue value value') : extent'.SameValue value value' :=
  same.mono (fun _ _ => .grow grown) (fun _ _ => .grow grown)

theorem SameValue.eq {value value' : Value} (same : extent.SameValue value value') :
    value = value' :=
  (same.mono (fun _ _ sameRef => sameRef.1) (fun _ _ sameEnv => sameEnv)).eq_of_same

private theorem SameValue.items_eq {items items' : List Value}
    (same : List.Forall₂ extent.SameValue items items') : items = items' := by
  induction same with
  | nil => rfl
  | cons first _ ih => rw [first.eq, ih]

namespace Of

theorem set (is : extent.Of machine) (env : Env) (name : String) {value : Value}
    (same : extent.SameValue value value) : extent.Of (machine.set env name value) where
  refs_eq := is.refs_eq
  scopes_eq := Array.size_modify.trans is.scopes_eq
  bindings scope target found here := by
    rw [Machine.set, ScopeStore.local?_set] at here
    split at here
    · cases here
      exact same
    · exact is.bindings scope target found here

/-- A new scope is allowed to bind what is there. -/
theorem newScope (is : extent.Of machine) (env : Env) {bindings : Scope}
    (same : ∀ name value, bindings.get? name = some value → extent.SameValue value value) :
    (⟨extent.refs, extent.scopes + 1⟩ : Extent).Of (machine.newScope env bindings).2 where
  refs_eq := is.refs_eq
  scopes_eq := (Array.size_push _).trans (congrArg (· + 1) is.scopes_eq)
  bindings scope name value found := by
    rw [Machine.newScope, ScopeStore.local?_add] at found
    split at found
    · exact (same name value found).grow extent.grows_scopes
    · exact (is.bindings scope name value found).grow extent.grows_scopes

end Of

end Extent

def Correspondence.making : Correspondence where
  World := Extent
  grows := Extent.Grows
  refs := Extent.SameRef
  envs := Extent.SameEnv
  machines extent machine machine' := machine = machine' ∧ extent.Of machine
  grows_refl _ := ⟨Nat.le_refl _, Nat.le_refl _⟩
  grows_trans first second := ⟨Nat.le_trans first.1 second.1, Nat.le_trans first.2 second.2⟩
  refs_grow grown same := same.grow grown
  envs_grow grown same := same.grow grown
  order_eq related same := by rw [related.1, same.1]
  refs_unique _ _ _ _ same same' := by rw [same.1, same'.1]
  get? {_ machine _ env _} name related sameEnv := by
    obtain ⟨rfl, is⟩ := related
    obtain ⟨rfl, _⟩ := sameEnv
    cases found : machine.get? env name with
    | none => exact .none
    | some value =>
        obtain ⟨scope, _, bound⟩ := List.exists_of_findSome?_eq_some found
        exact .some (is.bindings scope name value bound)
  set {_ _ _ _ _ value _} name related sameEnv same := by
    obtain ⟨rfl, is⟩ := related
    obtain ⟨rfl, _⟩ := sameEnv
    cases Extent.SameValue.eq same
    exact ⟨rfl, is.set _ name same⟩
  allocate {extent _ _} related := by
    obtain ⟨rfl, is⟩ := related
    refine ⟨_, extent.grows_refs, ⟨rfl, is.refs_eq ▸ Nat.lt_succ_self _⟩, rfl, ?_⟩
    exact ⟨congrArg (· + 1) is.refs_eq, is.scopes_eq, fun scope name value found =>
      (is.bindings scope name value found).grow extent.grows_refs⟩
  write text related := by
    obtain ⟨rfl, is⟩ := related
    exact ⟨rfl, rfl, is.refs_eq, is.scopes_eq, is.bindings⟩
  enter {extent _ _ env _ arguments _} parameters related sameEnv same := by
    obtain ⟨rfl, is⟩ := related
    obtain ⟨rfl, inside⟩ := sameEnv
    cases Extent.SameValue.items_eq same
    have opened := is.newScope env fun name value (found : (Scope.ofArguments parameters
      arguments).get? name = some value) =>
        List.forall₂_same.mp same value (Scope.mem_of_get?_ofArguments found)
    refine ⟨_, extent.grows_scopes, ⟨rfl, ?_⟩, rfl, opened.refs_eq, opened.scopes_eq,
      opened.bindings⟩
    intro scope member
    cases member with
    | head => exact is.scopes_eq ▸ Nat.lt_succ_self _
    | tail _ member => exact Nat.lt_succ_of_lt (inside scope member)
  leave related := by
    obtain ⟨rfl, is⟩ := related
    exact ⟨rfl, is.refs_eq, is.scopes_eq, is.bindings⟩

private theorem Correspondence.making_hosting : making.Hosting where
  start _ _ := by
    refine ⟨⟨0, 0⟩, rfl, rfl, rfl, fun scope name value found => ?_⟩
    cases found
  context sink depth related := ⟨rfl, related.2.refs_eq, related.2.scopes_eq, related.2.bindings⟩
  newGlobal {extent machine} related := by
    have opened := related.2.newScope ⟨0, []⟩ fun name value
      (found : Scope.empty.get? name = some value) => by cases found
    refine ⟨_, Extent.grows_scopes extent, ⟨rfl, ?_⟩, rfl, opened⟩
    intro scope member
    cases List.mem_singleton.mp member
    exact related.2.scopes_eq ▸ Nat.lt_succ_self _
  enclosing {_ env outer} sameEnv isOuter := by
    refine ⟨rfl, fun scope member => sameEnv.2 scope ?_⟩
    obtain ⟨nearest, outermost⟩ := env
    cases outermost with
    | nil => cases isOuter
    | cons next rest =>
        cases isOuter
        exact List.mem_cons_of_mem nearest member

/-! ## What the second run makes in place of the first -/

/-- What was made from `start` on moves to `restart`, and what was there before stays. -/
def shift (start restart place : Nat) : Nat :=
  if place < start then place else place - start + restart

section Shift

variable {start restart place place' : Nat}

theorem shift_of_lt (old : place < start) : shift start restart place = place := if_pos old

theorem shift_of_le (new : start ≤ place) :
    shift start restart place = place - start + restart := if_neg (Nat.not_lt.mpr new)

private theorem shift_start : shift start restart start = restart := by
  rw [shift_of_le (Nat.le_refl start), Nat.sub_self, Nat.zero_add]

theorem shift_succ (new : start ≤ place) :
    shift start restart (place + 1) = shift start restart place + 1 := by
  rw [shift_of_le new, shift_of_le (Nat.le_succ_of_le new)]
  omega

private theorem shift_lt_iff (later : start ≤ restart) :
    shift start restart place < shift start restart place' ↔ place < place' := by
  unfold shift
  split <;> split <;> omega

/-- Moving what was made later to a later place keeps it apart from what was there before. -/
theorem shift_inj (later : start ≤ restart) :
    shift start restart place = shift start restart place' ↔ place = place' := by
  unfold shift
  split <;> split <;> omega

end Shift

namespace Machine

variable (before after : Machine)

def laterRef : Ref → Ref := shift before.nextRef after.nextRef

def laterScope : ScopeId → ScopeId := shift before.store.scopes.size after.store.scopes.size

def laterEnv (env : Env) : Env :=
  ⟨before.laterScope after env.scope, env.outer.map (before.laterScope after)⟩

end Machine

/-- Values that are equal up to what a run from `before` and one from `after` have made. -/
def Value.SameAgain (before after : Machine) : Value → Value → Prop :=
  Value.Matches (fun ref ref' => ref' = before.laterRef after ref)
    (fun env env' => env' = before.laterEnv after env)

/-- The entries of every map are shown in the same order. -/
def Arrangement.Uniform (arrangement : Arrangement) : Prop :=
  ∀ ref ref', arrangement.order ref = arrangement.order ref'

/-- A run that has come from `before` to the first machine would come from `after` to the second:
both have made and bound the same, and have written the same to an output without a limit. -/
structure Machine.Again (before after machine machine' : Machine) : Prop where
  refs_le : before.nextRef ≤ machine.nextRef
  refs_eq : machine'.nextRef = before.laterRef after machine.nextRef
  scopes_le : before.store.scopes.size ≤ machine.store.scopes.size
  scopes_eq : machine'.store.scopes.size = before.laterScope after machine.store.scopes.size
  bindings : ∀ scope name, Option.Rel (Value.SameAgain before after)
    (machine.store.local? scope name)
    (machine'.store.local? (before.laterScope after scope) name)
  output : ∃ out, machine.sink = ⟨before.sink.written ++ out, none⟩ ∧
    machine'.sink = ⟨after.sink.written ++ out, none⟩
  uniform : machine.arrangement.Uniform
  arrangement_eq : machine'.arrangement = machine.arrangement

/-- Scopes for related arguments bind related values. -/
theorem Scope.get?_ofArguments_related {related : Value → Value → Prop} (parameters : List Token)
    {arguments arguments' : List Value} (same : List.Forall₂ related arguments arguments')
    (name : String) :
    Option.Rel related ((Scope.ofArguments parameters arguments).get? name)
      ((Scope.ofArguments parameters arguments').get? name) := by
  have folded : ∀ scope scope' : Scope, Option.Rel related (scope.get? name) (scope'.get? name) →
      Option.Rel related
        (((parameters.zip arguments).foldl
          (fun scope pair => scope.set pair.1.text pair.2) scope).get? name)
        (((parameters.zip arguments').foldl
          (fun scope pair => scope.set pair.1.text pair.2) scope').get? name) := by
    induction same generalizing parameters with
    | nil =>
        intro scope scope' sameScope
        rwa [List.zip_nil_right]
    | cons first _ ih =>
        intro scope scope' sameScope
        cases parameters with
        | nil => exact sameScope
        | cons parameter parameters =>
            refine ih parameters _ _ ?_
            rw [Scope.get?_set, Scope.get?_set]
            split
            · exact .some first
            · exact sameScope
  exact folded .empty .empty .none

namespace Machine.Again

variable {before after machine machine' : Machine}

theorem get? (again : before.Again after machine machine') (env : Env) (name : String) :
    Option.Rel (Value.SameAgain before after) (machine.get? env name)
      (machine'.get? (before.laterEnv after env) name) := by
  have chain_eq : (before.laterEnv after env).chain = env.chain.map (before.laterScope after) := rfl
  rw [Machine.get?, Machine.get?, ScopeStore.find?, ScopeStore.find?, chain_eq]
  induction env.chain with
  | nil => exact .none
  | cons scope rest ih =>
      have bound := again.bindings scope name
      rw [List.map_cons, List.findSome?_cons, List.findSome?_cons]
      generalize machine.store.local? scope name = found at bound
      generalize machine'.store.local? (before.laterScope after scope) name = found' at bound
      cases bound with
      | none => exact ih
      | some same => exact .some same

theorem set (again : before.Again after machine machine')
    (later : before.store.scopes.size ≤ after.store.scopes.size) (env : Env) (name : String)
    {value value' : Value} (same : Value.SameAgain before after value value') :
    before.Again after (machine.set env name value)
      (machine'.set (before.laterEnv after env) name value') where
  refs_le := again.refs_le
  refs_eq := again.refs_eq
  scopes_le := Nat.le_trans again.scopes_le (Nat.le_of_eq Array.size_modify.symm)
  scopes_eq := by
    rw [Machine.set, Machine.set, ScopeStore.set, ScopeStore.set, Array.size_modify,
      Array.size_modify, again.scopes_eq]
  bindings scope target := by
    have here : before.laterScope after scope = before.laterScope after env.scope ↔
      scope = env.scope := shift_inj later
    have made : before.laterScope after env.scope < machine'.store.scopes.size ↔
        env.scope < machine.store.scopes.size := by
      rw [again.scopes_eq]
      exact shift_lt_iff later
    simp only [Machine.set, ScopeStore.local?_set, Machine.laterEnv, here, made]
    split
    · exact .some same
    · exact again.bindings scope target
  output := again.output
  uniform := again.uniform
  arrangement_eq := again.arrangement_eq

theorem newScope (again : before.Again after machine machine')
    (later : before.store.scopes.size ≤ after.store.scopes.size) (env : Env)
    {bindings bindings' : Scope} (same : ∀ name, Option.Rel (Value.SameAgain before after)
      (bindings.get? name) (bindings'.get? name)) :
    before.Again after (machine.newScope env bindings).2
      (machine'.newScope (before.laterEnv after env) bindings').2 where
  refs_le := again.refs_le
  refs_eq := again.refs_eq
  scopes_le :=
    Nat.le_trans (Nat.le_succ_of_le again.scopes_le) (Nat.le_of_eq (Array.size_push _).symm)
  scopes_eq := by
    rw [Machine.newScope, Machine.newScope, ScopeStore.add, ScopeStore.add, Array.size_push,
      Array.size_push, again.scopes_eq]
    exact (shift_succ again.scopes_le).symm
  bindings scope name := by
    have here : before.laterScope after scope = machine'.store.scopes.size ↔
        scope = machine.store.scopes.size := by
      rw [again.scopes_eq]
      exact shift_inj later
    simp only [Machine.newScope, ScopeStore.local?_add, here]
    split
    · exact same name
    · exact again.bindings scope name
  output := again.output
  uniform := again.uniform
  arrangement_eq := again.arrangement_eq

theorem allocate (again : before.Again after machine machine') :
    before.Again after { machine with nextRef := machine.nextRef + 1 }
      { machine' with nextRef := machine'.nextRef + 1 } where
  refs_le := Nat.le_succ_of_le again.refs_le
  refs_eq := by
    change machine'.nextRef + 1 = _
    rw [again.refs_eq]
    exact (shift_succ again.refs_le).symm
  scopes_le := again.scopes_le
  scopes_eq := again.scopes_eq
  bindings := again.bindings
  output := again.output
  uniform := again.uniform
  arrangement_eq := again.arrangement_eq

theorem write (again : before.Again after machine machine') (text : String) :
    (Run.write text machine).1 = (Run.write text machine').1 ∧
      before.Again after (Run.write text machine).2 (Run.write text machine').2 := by
  obtain ⟨out, sinkIs, sinkIs'⟩ := again.output
  obtain ⟨store, nextRef, sink, depth, arrangement⟩ := machine
  obtain ⟨store', nextRef', sink', depth', arrangement'⟩ := machine'
  obtain rfl : sink = _ := sinkIs
  obtain rfl : sink' = _ := sinkIs'
  refine ⟨rfl, again.refs_le, again.refs_eq, again.scopes_le, again.scopes_eq, again.bindings,
    ⟨out ++ text.toUTF8, ?_, ?_⟩, again.uniform, again.arrangement_eq⟩
  · rw [← ByteArray.append_assoc]
    rfl
  · rw [← ByteArray.append_assoc]
    rfl

end Machine.Again

def Correspondence.repeating (before after : Machine) (refs_le : before.nextRef ≤ after.nextRef)
    (scopes_le : before.store.scopes.size ≤ after.store.scopes.size) : Correspondence where
  World := Unit
  grows _ _ := True
  refs _ ref ref' := ref' = before.laterRef after ref
  envs _ env env' := env' = before.laterEnv after env
  machines _ := before.Again after
  grows_refl _ := trivial
  grows_trans _ _ := trivial
  refs_grow _ same := same
  envs_grow _ same := same
  order_eq {_ _ _ ref ref'} again _ := by
    rw [again.arrangement_eq]
    exact again.uniform ref ref'
  refs_unique a a' b b' same same' := by
    rw [same, same']
    exact (shift_inj refs_le).symm
  get? name again sameEnv := by
    rw [sameEnv]
    exact again.get? _ name
  set name again sameEnv same := by
    rw [sameEnv]
    exact again.set scopes_le _ name same
  allocate again := ⟨(), trivial, again.refs_eq, again.allocate⟩
  write text again := again.write text
  enter {_ machine machine' env _ _ _} parameters again sameEnv same := by
    have opened := again.newScope scopes_le env (Scope.get?_ofArguments_related parameters same)
    subst sameEnv
    refine ⟨(), trivial, ?_, opened.refs_le, opened.refs_eq, opened.scopes_le, opened.scopes_eq,
      opened.bindings, opened.output, opened.uniform, opened.arrangement_eq⟩
    rw [Machine.laterEnv, Machine.newScope, Machine.newScope]
    exact congrArg (Env.mk · _) again.scopes_eq
  leave again := ⟨again.refs_le, again.refs_eq, again.scopes_le, again.scopes_eq, again.bindings,
    again.output, again.uniform, again.arrangement_eq⟩

/-! ## Repeating a call -/

/-- What was there before is the same again. -/
theorem Extent.SameValue.again {extent : Extent} {before : Machine} (is : extent.Of before)
    (after : Machine) {value : Value} (same : extent.SameValue value value) :
    Value.SameAgain before after value value := by
  refine same.mono (fun ref ref' sameRef => ?_) (fun env env' sameEnv => ?_)
  · obtain ⟨rfl, made⟩ := sameRef
    exact (shift_of_lt (is.refs_eq ▸ made)).symm
  · obtain ⟨rfl, inside⟩ := sameEnv
    have stays : ∀ scope ∈ env.chain, before.laterScope after scope = scope :=
      fun scope member => shift_of_lt (is.scopes_eq ▸ inside scope member)
    obtain ⟨staysNearest, staysOuter⟩ := List.forall_mem_cons.mp stays
    rw [Machine.laterEnv, staysNearest, List.map_congr_left staysOuter, List.map_id']

/-- An output without a limit stays one, and maps stay arranged as they are. -/
theorem Machine.settings_effectBound : EffectBound fun _ before after =>
    (before.sink.room = none → after.sink.room = none) ∧
      after.arrangement = before.arrangement where
  refl _ _ := ⟨id, rfl⟩
  trans first second := ⟨second.1 ∘ first.1, second.2.trans first.2⟩
  weaken _ kept := kept
  allocate _ := ⟨id, rfl⟩
  write text machine := by
    obtain ⟨store, nextRef, ⟨written, room⟩, depth, arrangement⟩ := machine
    refine ⟨fun unlimited => ?_, rfl⟩
    cases unlimited
    rfl
  bind _ _ _ _ := ⟨id, rfl⟩
  call kept := kept

/-- The machine that a call leaves is one from which the call can be made again. -/
theorem Machine.again_of_framed {extent : Extent} {before after : Machine} (is : extent.Of before)
    (framed : before.Framed none after) (unlimited : before.sink.room = none)
    (unlimited' : after.sink.room = none) (uniform : before.arrangement.Uniform)
    (arrangement_eq : after.arrangement = before.arrangement) :
    before.Again after before after where
  refs_le := Nat.le_refl _
  refs_eq := shift_start.symm
  scopes_le := Nat.le_refl _
  scopes_eq := shift_start.symm
  bindings scope name := by
    by_cases old : scope < before.store.scopes.size
    · have unchanged : after.store.local? scope name = before.store.local? scope name := by
        rw [ScopeStore.local?, ScopeStore.local?, framed.unchanged scope old (by simp)]
      rw [laterScope, shift_of_lt old, unchanged]
      cases found : before.store.local? scope name with
      | none => exact .none
      | some value => exact .some ((is.bindings scope name value found).again is after)
    · have new := Nat.not_lt.mp old
      have unmade : before.store.scopes[scope]? = none := Array.getElem?_eq_none new
      have unmade' : after.store.scopes[before.laterScope after scope]? = none := by
        refine Array.getElem?_eq_none ?_
        rw [laterScope, shift_of_le new]
        exact Nat.le_add_left _ _
      rw [ScopeStore.local?, ScopeStore.local?, unmade, unmade']
      exact .none
  output := by
    refine ⟨.empty, ?_, ?_⟩
    · rw [ByteArray.append_empty, ← unlimited]
    · rw [ByteArray.append_empty, ← unlimited']
  uniform := uniform
  arrangement_eq := arrangement_eq

theorem Value.call_apply (limit : Nat) (callee : Value) (arguments : List Value)
    (machine : Machine) :
    Value.call limit callee arguments machine =
      Value.apply limit (limit - machine.depth) callee arguments machine := rfl

private theorem Value.call_framed {limit : Nat} {callee : Value} {arguments : List Value}
    {machine after : Machine} {result : Except RuntimeError Value}
    (called : Value.call limit callee arguments machine = (result, after)) :
    machine.Framed none after ∧ (machine.sink.room = none → after.sink.room = none) ∧
      after.arrangement = machine.arrangement := by
  have framed := Machine.framed_effectBound.bounded_apply limit (limit - machine.depth) callee
    arguments machine
  have settings := Machine.settings_effectBound.bounded_apply limit (limit - machine.depth) callee
    arguments machine
  rw [← Value.call_apply, called] at framed settings
  exact ⟨framed, settings⟩

/-- A call adds to what has been made. -/
theorem Extent.Of.call {extent : Extent} {limit : Nat} {callee : Value} {arguments : List Value}
    {machine after : Machine} {result : Except RuntimeError Value} (is : extent.Of machine)
    (made : ∀ value ∈ callee :: arguments, extent.SameValue value value)
    (called : Value.call limit callee arguments machine = (result, after)) :
    ∃ extent' : Extent, extent.Grows extent' ∧ extent'.Of after := by
  obtain ⟨madeCallee, madeArguments⟩ := List.forall_mem_cons.mp made
  have calls : Correspondence.making.simulation.Calls (Value.apply limit (limit - machine.depth))
      (Value.apply limit (limit - machine.depth)) := Simulation.calls_apply_self _ _
  have runs : Correspondence.making.simulation.Runs extent _ _ _ _ :=
    calls madeCallee (Simulation.several_self madeArguments)
  obtain ⟨extent', grown, ⟨_, isAfter⟩, _⟩ :=
    runs.ends Correspondence.making.steady.unstopped ⟨rfl, is⟩
  rw [← Value.call_apply, called] at isAfter
  exact ⟨extent', grown, isAfter⟩

/-- Functions have no state: a call that is made again on the machine that it left does the same
again. It fails for the same cause, or its result is the same up to the identities and scopes that
each call has made; it binds the same in these scopes, and writes the same. -/
theorem Value.call_repeats {host : Host} (reachable : host.Reachable)
    (unlimited : host.machine.sink.room = none) (uniform : host.machine.arrangement.Uniform)
    (limit : Nat) {callee : Value}
    {arguments : List Value} (held : ∀ value ∈ callee :: arguments, value ∈ host.values)
    {first second : Except RuntimeError Value} {middle last : Machine}
    (called : Value.call limit callee arguments host.machine = (first, middle))
    (calledAgain : Value.call limit callee arguments middle = (second, last)) :
    Run.EndAlike (Value.SameAgain host.machine middle) (· = ·) first second ∧
      (∃ out, middle.sink.written = host.machine.sink.written ++ out ∧
        last.sink.written = middle.sink.written ++ out) ∧
      (∀ scope name, Option.Rel (Value.SameAgain host.machine middle)
        (middle.store.local? scope name)
        (last.store.local? (host.machine.laterScope middle scope) name)) ∧
      middle.depth = host.machine.depth ∧ last.depth = host.machine.depth := by
  obtain ⟨extent, covers⟩ := reachable.covered Correspondence.making_hosting.simulation
  obtain ⟨_, is⟩ := covers.machine
  have made : ∀ value ∈ callee :: arguments, extent.SameValue value value :=
    fun value member => covers.values value (held value member)
  obtain ⟨framed, keepsUnlimited, arrangement_eq⟩ := Value.call_framed called
  obtain ⟨framedAgain, _⟩ := Value.call_framed calledAgain
  obtain ⟨extent', ⟨moreRefs, moreScopes⟩, is'⟩ := is.call made called
  rw [← is.refs_eq, ← is'.refs_eq] at moreRefs
  rw [← is.scopes_eq, ← is'.scopes_eq] at moreScopes
  have started := Machine.again_of_framed is framed unlimited (keepsUnlimited unlimited) uniform
    arrangement_eq
  obtain ⟨sameCallee, sameArguments⟩ :=
    List.forall_mem_cons.mp fun value member => (made value member).again is middle
  let C := Correspondence.repeating host.machine middle moreRefs moreScopes
  have calls : C.simulation.Calls (Value.apply limit (limit - host.machine.depth))
    (Value.apply limit (limit - host.machine.depth)) := Simulation.calls_apply_self _ _
  have runs : C.simulation.Runs () _ _ _ _ :=
    calls sameCallee (Simulation.several_self sameArguments)
  obtain ⟨_, _, ended, ends⟩ := runs.ends C.steady.unstopped started
  -- as many calls may nest in the second call as in the first
  have calledAgain' : Value.apply limit (limit - host.machine.depth) callee arguments middle =
      (second, last) := by
    rw [← framed.depth_eq, ← calledAgain, Value.call_apply]
  rw [← Value.call_apply, called, calledAgain'] at ended ends
  obtain ⟨out, sinkIs, sinkIs'⟩ := ended.output
  exact ⟨ends, ⟨out, congrArg Sink.written sinkIs, congrArg Sink.written sinkIs'⟩, ended.bindings,
    framed.depth_eq, framedAgain.depth_eq.trans framed.depth_eq⟩

def Block.readingA : Block :=
  ⟨⟨.openBrace, "\x7b"⟩, [.expr ⟨.ident, "a"⟩ (.ident ⟨.ident, "a"⟩)]⟩

/-- The body of `fn(x) { let a = [x]; puts(a); fn() { a } }`. -/
def Block.makingA : Block :=
  ⟨⟨.openBrace, "\x7b"⟩,
    [.bind ⟨.kwLet, "let"⟩ ⟨.ident, "a"⟩ (.list ⟨.openBracket, "["⟩ [.ident ⟨.ident, "x"⟩]),
      .expr ⟨.ident, "puts"⟩ (.call ⟨.openParen, "("⟩ (.ident ⟨.ident, "puts"⟩)
        [.ident ⟨.ident, "a"⟩]),
      .expr ⟨.kwFn, "fn"⟩ (.function ⟨.kwFn, "fn"⟩ [] .readingA)]⟩

def Value.makingA : Value := .function 0 ⟨[⟨.ident, "x"⟩], .makingA, ⟨0, []⟩⟩

def Host.makingA : Host := ⟨.ofScopes #[.empty] 2, [⟨0, []⟩], [.int 5, .makingA]⟩

private theorem Host.makingA_reachable : Host.makingA.Reachable := by
  have literal : Host.Step ⟨(Machine.start (.empty none)).newGlobal.2, [⟨0, []⟩], []⟩
      ⟨.ofScopes #[.empty] 1, [⟨0, []⟩], [.makingA]⟩ :=
    @Host.Step.finish _ _ _ (.expr ⟨0, []⟩ (.function ⟨.kwFn, "fn"⟩ [⟨.ident, "x"⟩] .makingA)) 256
      (by simp [Task.env?]) nofun
  exact ⟨.empty none, .byInsertion, .tail (.tail (.tail .refl .newGlobal) literal) (.make (.int 5))⟩

/-- Each call makes a list, a function and a scope of its own. -/
theorem Value.call_repeats_making :
    let once := Value.call 256 .makingA [.int 5] Host.makingA.machine
    let again := Value.call 256 .makingA [.int 5] once.2
    Host.makingA.Reachable ∧ (∀ value ∈ [Value.makingA, .int 5], value ∈ Host.makingA.values) ∧
      once.1 = .ok (.function 3 ⟨[], .readingA, ⟨1, [0]⟩⟩) ∧
      again.1 = .ok (.function 5 ⟨[], .readingA, ⟨2, [0]⟩⟩) ∧
      Run.EndAlike (Value.SameAgain Host.makingA.machine once.2) (· = ·) once.1 again.1 ∧
      again.2.sink.written = once.2.sink.written ++ "[5]\n".toUTF8 := by
  have held : ∀ value ∈ [Value.makingA, .int 5], value ∈ Host.makingA.values := by
    simp [Host.makingA]
  have repeats := Value.call_repeats Host.makingA_reachable rfl (fun _ _ => rfl) 256 held rfl rfl
  exact ⟨Host.makingA_reachable, held, rfl, rfl, repeats.1, by decide +kernel⟩

end Script
