import Script.Proofs.Correspondence
import Script.Proofs.HeldEnvironments

/-!
# Lexical scope

A call sees the environments that its callee and its arguments hold, the scopes around those, and
what can be reached from there through bindings. Whatever another scope binds has no influence on
the call, not even where a name of that scope is used in the body of the callee.
-/

set_option autoImplicit false

namespace Script

namespace ScopeStore

/-- The scopes that can be reached from some values: those of the environments that the values hold,
and those of the environments that are held by what reachable scopes bind. -/
inductive Reaches (store : ScopeStore) (roots : List Value) : ScopeId → Prop where
  | root {value : Value} {env : Env} {scope : ScopeId} :
      value ∈ roots → value.Holds env → scope ∈ env.chain → Reaches store roots scope
  | binding {binder : ScopeId} {name : String} {value : Value} {env : Env} {scope : ScopeId} :
      Reaches store roots binder → store.local? binder name = some value → value.Holds env →
      scope ∈ env.chain → Reaches store roots scope

variable {store : ScopeStore} {hidden : ScopeId}

private theorem find?_set_of_notMem {env : Env} (apart : hidden ∉ env.chain) (name target : String)
    (value : Value) : (store.set hidden name value).find? env target = store.find? env target := by
  unfold find?
  generalize env.chain = chain at apart
  induction chain with
  | nil => rfl
  | cons scope rest ih =>
      rw [List.mem_cons, not_or] at apart
      rw [List.findSome?_cons, List.findSome?_cons, ih apart.2, local?_set, if_neg]
      exact fun here => apart.1 here.1.symm

theorem set_comm {scope : ScopeId} (apart : scope ≠ hidden) (name name' : String)
    (value value' : Value) :
    (store.set hidden name value).set scope name' value' =
      (store.set scope name' value').set hidden name value := by
  simp only [set, mk.injEq]
  apply Array.ext_getElem?
  intro index
  simp only [Array.getElem?_modify]
  by_cases here : scope = index
  · subst here
    simp [apart.symm]
  · simp [here]

private theorem add_set (existing : hidden < store.scopes.size) (name : String) (value : Value)
    (scope : Scope) :
    (store.set hidden name value).add scope =
      ((store.add scope).1, (store.add scope).2.set hidden name value) := by
  simp only [set, add, Array.size_modify, Prod.mk.injEq, mk.injEq, true_and]
  apply Array.ext_getElem?
  intro index
  simp only [Array.getElem?_modify, Array.getElem?_push, Array.size_modify]
  by_cases last : index = store.scopes.size
  · subst last
    simp [Nat.ne_of_lt existing]
  · simp [last]

end ScopeStore

namespace Machine

variable {machine : Machine} {hidden env : Env}

private theorem get?_set_of_notMem (apart : hidden.scope ∉ env.chain) (name target : String)
    (value : Value) : (machine.set hidden name value).get? env target = machine.get? env target :=
  ScopeStore.find?_set_of_notMem apart name target value

theorem set_comm (apart : env.scope ≠ hidden.scope) (name name' : String) (value value' : Value) :
    (machine.set hidden name value).set env name' value' =
      (machine.set env name' value').set hidden name value := by
  simp only [set, ScopeStore.set_comm apart]

private theorem newScope_set (existing : hidden.scope < machine.store.scopes.size) (name : String)
    (value : Value) (bindings : Scope) :
    (machine.set hidden name value).newScope env bindings =
      ((machine.newScope env bindings).1,
        (machine.newScope env bindings).2.set hidden name value) := by
  simp only [set, newScope, ScopeStore.add_set existing]

end Machine

/-! ## Runs that do not see a binding -/

def Env.Inside (visible : ScopeId → Prop) (env : Env) : Prop := ∀ scope ∈ env.chain, visible scope

private theorem Env.Inside.nearest {visible : ScopeId → Prop} {env : Env}
    (inside : env.Inside visible) :
    visible env.scope :=
  inside env.scope List.mem_cons_self

structure Machine.Confined (visible : ScopeId → Prop) (bound : ScopeId) (machine : Machine) :
    Prop where
  bound_le : bound ≤ machine.store.scopes.size
  bindings : machine.store.HoldsOnly visible (Env.Inside visible)

namespace Machine.Confined

variable {visible : ScopeId → Prop} {bound : ScopeId} {machine : Machine}

theorem set (confined : machine.Confined visible bound) (env : Env) (name : String) {value : Value}
    (only : value.HoldsOnly (Env.Inside visible)) :
    (machine.set env name value).Confined visible bound where
  bound_le := Nat.le_trans confined.bound_le (Nat.le_of_eq Array.size_modify.symm)
  bindings := confined.bindings.set env.scope name only

theorem enter (confined : machine.Confined visible bound) (env : Env) (parameters : List Token)
    {arguments : List Value} (only : ∀ value ∈ arguments, value.HoldsOnly (Env.Inside visible)) :
    (machine.newScope env (.ofArguments parameters arguments)).2.enterCall.Confined visible
      bound where
  bound_le :=
    Nat.le_trans (Nat.le_succ_of_le confined.bound_le) (Nat.le_of_eq (Array.size_push _).symm)
  bindings := confined.bindings.add_ofArguments parameters only

end Machine.Confined

section Hiding

variable {visible : ScopeId → Prop} {bound : ScopeId} (hidden : Env) (name : String) (value : Value)

/-- A run beside the same run on a machine that differs in one binding of a scope that is not
visible. -/
def Correspondence.hiding (new : ∀ scope, bound ≤ scope → visible scope)
    (existing : hidden.scope < bound) (unseen : ¬ visible hidden.scope) : Correspondence where
  World := Unit
  grows _ _ := True
  refs _ := (· = ·)
  envs _ := Env.Same (Env.Inside visible)
  machines _ machine machine' :=
    machine' = machine.set hidden name value ∧ machine.Confined visible bound
  grows_refl _ := trivial
  grows_trans _ _ := trivial
  refs_grow _ same := same
  envs_grow _ same := same
  order_eq related same := by
    obtain ⟨rfl, _⟩ := related
    subst same
    rfl
  refs_unique _ _ _ _ same same' := by rw [same, same']
  get? target related sameEnv := by
    obtain ⟨rfl, confined⟩ := related
    obtain ⟨rfl, inside⟩ := sameEnv
    rw [Machine.get?_set_of_notMem fun member => unseen (inside _ member)]
    exact confined.bindings.find?_matches inside target
  set target related sameEnv same := by
    obtain ⟨rfl, confined⟩ := related
    obtain ⟨rfl, inside⟩ := sameEnv
    cases same.eq_of_same
    refine ⟨Machine.set_comm ?_ name target value _, confined.set _ target same.holdsOnly⟩
    exact fun here => unseen (here ▸ inside.nearest)
  allocate related := by
    obtain ⟨rfl, confined⟩ := related
    exact ⟨(), trivial, rfl, rfl, confined.bound_le, confined.bindings⟩
  write text related := by
    obtain ⟨rfl, confined⟩ := related
    exact ⟨rfl, rfl, confined.bound_le, confined.bindings⟩
  enter parameters related sameEnv same := by
    obtain ⟨rfl, confined⟩ := related
    obtain ⟨rfl, inside⟩ := sameEnv
    cases Value.Matches.items_eq_of_same same
    rw [Machine.newScope_set (Nat.lt_of_lt_of_le existing confined.bound_le)]
    refine ⟨(), trivial, ⟨rfl, ?_⟩, rfl,
      confined.enter _ parameters (Value.Matches.items_holdsOnly same)⟩
    intro scope member
    cases member with
    | head => exact new _ confined.bound_le
    | tail _ member => exact inside scope member
  leave related := by
    obtain ⟨rfl, confined⟩ := related
    exact ⟨rfl, confined.bound_le, confined.bindings⟩

end Hiding

/-! ## What a call can see -/

namespace ScopeStore

/-- The scopes that a run can see when it starts with the given values: those that can be reached
from the values, and those that the run makes. -/
def Visible (store : ScopeStore) (roots : List Value) (scope : ScopeId) : Prop :=
  store.Reaches roots scope ∨ store.scopes.size ≤ scope

private theorem holdsOnly_visible (store : ScopeStore) (roots : List Value) :
    store.HoldsOnly (store.Visible roots) (Env.Inside (store.Visible roots)) := by
  intro binder seen name value found env held scope member
  cases seen with
  | inl reached => exact .inl (.binding reached found held member)
  | inr made =>
      rw [local?, Array.getElem?_eq_none made] at found
      cases found

private theorem roots_visible (store : ScopeStore) (roots : List Value) :
    ∀ root ∈ roots, root.HoldsOnly (Env.Inside (store.Visible roots)) :=
  fun _ member _ held _ chained => .inl (.root member held chained)

end ScopeStore

/-- A scope that a call cannot reach does not influence it: with another value bound there, the call
ends the same way, writes the same, and leaves a machine that differs in that binding only. -/
theorem Value.call_set_of_unreached (limit : Nat) (callee : Value) (arguments : List Value)
    (machine : Machine) (env : Env) (name : String) (value : Value)
    (existing : env.scope < machine.store.scopes.size)
    (unreached : ¬ machine.store.Reaches (callee :: arguments) env.scope) :
    Value.call limit callee arguments (machine.set env name value) =
      ((Value.call limit callee arguments machine).1,
        (Value.call limit callee arguments machine).2.set env name value) := by
  have unseen : ¬ machine.store.Visible (callee :: arguments) env.scope := by
    intro seen
    cases seen with
    | inl reached => exact unreached reached
    | inr made => exact Nat.not_le_of_lt existing made
  let C := Correspondence.hiding env name value (fun _ made => .inr made) existing unseen
  have calls : C.simulation.Calls (Value.apply limit (limit - machine.depth))
    (Value.apply limit (limit - machine.depth)) := Simulation.calls_apply_self _ _
  have confined : machine.Confined (machine.store.Visible (callee :: arguments))
      machine.store.scopes.size := ⟨Nat.le_refl _, machine.store.holdsOnly_visible _⟩
  cases Value.HoldsOnly.matches_items _ (machine.store.roots_visible (callee :: arguments)) with
  | cons sameCallee sameArguments =>
      have runs : C.simulation.Runs () _ _ _ _ := calls sameCallee sameArguments
      obtain ⟨_, _, ⟨sameMachine, _⟩, ends⟩ := runs.ends C.steady.unstopped ⟨rfl, confined⟩
      have sameEnd := ends.eq (fun _ _ same => same.eq_of_same) (fun _ _ same => same)
      exact Prod.ext sameEnd.symm sameMachine

/-- The function `fn() { x }`, made in the outermost scope. -/
def Value.readingX : Value :=
  .function 0 ⟨[], ⟨⟨.openBrace, "\x7b"⟩, [.expr ⟨.ident, "x"⟩ (.ident ⟨.ident, "x"⟩)]⟩, ⟨0, []⟩⟩

def Machine.bindingX : Machine := .ofScopes #[⟨[("x", .int 1), ("f", .readingX)]⟩, .empty] 1

/-- A caller that binds an `x` of its own does not change what the function reads. -/
theorem Value.call_set_of_unreached_caller :
    1 < Machine.bindingX.store.scopes.size ∧
      ¬ Machine.bindingX.store.Reaches [.readingX] 1 ∧
      (Value.call 256 .readingX [] (Machine.bindingX.set ⟨1, [0]⟩ "x" (.int 2))).1 =
        .ok (.int 1) := by
  have outermost : ∀ env, Value.Holds .readingX env → ∀ scope ∈ env.chain, scope = 0 := by
    intro env held scope member
    cases held
    exact List.mem_singleton.mp member
  have onlyOutermost : ∀ scope, Machine.bindingX.store.Reaches [.readingX] scope → scope = 0 := by
    intro scope reached
    induction reached with
    | root member held chained =>
        cases List.mem_singleton.mp member
        exact outermost _ held _ chained
    | binding _ found held chained binderIH =>
        subst binderIH
        change Assoc.find? id _ [("x", Value.int 1), ("f", Value.readingX)] = some _ at found
        rw [Assoc.find?, Assoc.find?, Assoc.find?] at found
        split at found
        · cases found
          cases held
        · split at found
          · cases found
            exact outermost _ held _ chained
          · cases found
  have unreached : ¬ Machine.bindingX.store.Reaches [.readingX] 1 :=
    fun reached => Nat.one_ne_zero (onlyOutermost 1 reached)
  have unseen := call_set_of_unreached 256 .readingX [] Machine.bindingX ⟨1, [0]⟩ "x" (.int 2)
    (by decide) unreached
  refine ⟨by decide, unreached, ?_⟩
  rw [unseen]
  rfl

end Script
