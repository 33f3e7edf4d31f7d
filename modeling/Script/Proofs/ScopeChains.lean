import Script.Proofs.HostStates
import Script.Proofs.OuterLinks

/-!
# Chains of scopes

Scopes refer to each other in circles: a function can be bound in the scope that it was made in. The
outer links alone run in no circle, because a scope is made inside one that is already there and its
link never changes. From any environment at hand the links therefore lead to an outermost scope, and
a name is looked up by following them to the first scope that binds it.

To bind a name changes one scope. A look-up is affected when it comes to that scope, and looks for
that name.
-/

set_option autoImplicit false

namespace Script

/-! ## Tables of links -/

def LinkTable.Outward (links : LinkTable) (scope outer : ScopeId) : Prop :=
  links[scope]? = some (some outer)

def LinkTable.Backward (links : LinkTable) : Prop :=
  ∀ scope outer, links.Outward scope outer → outer < scope

namespace LinkTable.Backward

variable {links : LinkTable}

theorem concat (backward : links.Backward) {link : Option ScopeId}
    (older : ∀ outer ∈ link, outer < links.length) : (links ++ [link]).Backward := by
  intro scope outer linked
  unfold Outward at linked
  rw [List.getElem?_append] at linked
  split at linked
  · exact backward scope outer linked
  · next new =>
    rw [List.getElem?_singleton] at linked
    split at linked
    · cases linked
      exact Nat.lt_of_lt_of_le (older outer rfl) (Nat.not_lt.mp new)
    · cases linked

/-- Links that lead to earlier scopes never lead back. -/
theorem acyclic (backward : links.Backward) (scope : ScopeId) :
    ¬ Relation.TransGen links.Outward scope scope := by
  have descends : ∀ outer, Relation.TransGen links.Outward scope outer → outer < scope := by
    intro outer path
    induction path with
    | single linked => exact backward _ _ linked
    | tail _ linked ih => exact Nat.lt_trans (backward _ _ linked) ih
  intro circle
  exact Nat.lt_irrefl scope (descends scope circle)

end LinkTable.Backward

namespace Env

variable {links : LinkTable}

theorem linked_outermost {scope : ScopeId} (link : links[scope]? = some none) :
    (⟨scope, []⟩ : Env).Linked links := by
  intro other outer chained
  rcases List.suffix_cons_iff.mp chained with here | inside
  · cases here
    exact link
  · cases List.suffix_nil.mp inside

private theorem Linked.nest_of_outward {env : Env} (linked : env.Linked links) {scope : ScopeId}
    (link : links.Outward scope env.scope) : (env.nest scope).Linked links := by
  intro other outer chained
  rcases List.suffix_cons_iff.mp chained with here | inside
  · cases here
    exact link
  · exact linked other outer inside

theorem Linked.link {env : Env} (linked : env.Linked links) :
    links[env.scope]? = some env.outer.head? :=
  linked env.scope env.outer List.suffix_rfl

theorem Linked.scope_lt {env : Env} (linked : env.Linked links) : env.scope < links.length :=
  (List.getElem?_eq_some_iff.mp linked.link).1

theorem Linked.enclosing {env outer : Env} (linked : env.Linked links)
    (isOuter : env.enclosing? = some outer) : outer.Linked links := by
  obtain ⟨scope, around⟩ := env
  cases around with
  | nil => cases isOuter
  | cons next rest =>
      cases isOuter
      intro other farther chained
      exact linked other farther (chained.trans (List.suffix_cons scope _))

private theorem exists_linked (backward : links.Backward) (scope : ScopeId)
    (inside : scope < links.length) : ∃ env : Env, env.Linked links ∧ env.scope = scope := by
  induction scope using Nat.strongRecOn with
  | ind scope ih =>
      have link : links[scope]? = some links[scope] := List.getElem?_eq_getElem inside
      cases isOuter : links[scope] with
      | none => exact ⟨⟨scope, []⟩, linked_outermost (isOuter ▸ link), rfl⟩
      | some outer =>
          have outward : links.Outward scope outer := link.trans (congrArg some isOuter)
          have older := backward scope outer outward
          obtain ⟨env, linked, rfl⟩ := ih outer older (Nat.lt_trans older inside)
          exact ⟨env.nest scope, linked.nest_of_outward outward, rfl⟩

/-- An environment is known by its nearest scope. -/
theorem Linked.eq_of_scope {env env' : Env} (linked : env.Linked links)
    (linked' : env'.Linked links) (same : env.scope = env'.scope) : env = env' := by
  obtain ⟨scope, outer⟩ := env
  obtain ⟨scope', outer'⟩ := env'
  cases same
  have sameHead : outer.head? = outer'.head? :=
    Option.some.inj (linked.link.symm.trans linked'.link)
  induction outer generalizing scope outer' with
  | nil =>
      cases outer' with
      | nil => rfl
      | cons => cases sameHead
  | cons next rest ih =>
      cases outer' with
      | nil => cases sameHead
      | cons next' rest' =>
          cases sameHead
          have around : (⟨next, rest⟩ : Env).Linked links := linked.enclosing rfl
          have around' : (⟨next, rest'⟩ : Env).Linked links := linked'.enclosing rfl
          have sameNext : rest.head? = rest'.head? :=
            Option.some.inj (around.link.symm.trans around'.link)
          cases ih next around rest' around' sameNext
          rfl

end Env

/-! ## Links in reachable states -/

private theorem Machine.Linked.newGlobal {links : LinkTable} {machine : Machine}
    (linked : machine.Linked links) : machine.newGlobal.2.Linked (links ++ [none]) where
  size_eq := by
    rw [List.length_append, ← linked.size_eq]
    exact Array.size_push _
  bindings :=
    (linked.bindings.add_ofArguments [] (List.forall_mem_nil _)).mono fun _ held =>
      held.mono (List.prefix_append links [none])

/-- A run beside itself, with the links that its environments agree with and that lead to earlier
scopes. -/
def Correspondence.nesting : Correspondence :=
  { linking with
    machines := fun links machine machine' =>
      linking.machines links machine machine' ∧ LinkTable.Backward links
    order_eq := fun related same => linking.order_eq related.1 same
    get? := fun name related sameEnv => linking.get? name related.1 sameEnv
    set := fun name related sameEnv same => ⟨linking.set name related.1 sameEnv same, related.2⟩
    allocate := by
      intro (links : LinkTable) machine machine' related
      obtain ⟨⟨rfl, linked⟩, backward⟩ := related
      exact ⟨links, List.prefix_rfl, rfl, ⟨rfl, linked.size_eq, linked.bindings⟩, backward⟩
    write := fun text related =>
      ⟨(linking.write text related.1).1, (linking.write text related.1).2, related.2⟩
    enter := by
      intro (links : LinkTable) machine _ env _ arguments _ parameters related sameEnv same
      obtain ⟨⟨rfl, linked⟩, backward⟩ := related
      obtain ⟨rfl, linkedEnv⟩ := sameEnv
      cases Value.Matches.items_eq_of_same same
      have nested := linkedEnv.nest
      rw [← linked.size_eq] at nested
      refine ⟨links ++ [some env.scope], List.prefix_append _ _, ⟨rfl, nested⟩, ⟨rfl, ?_⟩, ?_⟩
      · exact linked.enter env parameters (Value.Matches.items_holdsOnly same)
      · apply backward.concat
        intro outer isOuter
        cases isOuter
        exact linkedEnv.scope_lt
    leave := fun related => ⟨linking.leave related.1, related.2⟩ }

private theorem Correspondence.nesting_hosting : nesting.Hosting where
  start _ _ := by
    refine ⟨[], ⟨rfl, rfl, ?_⟩, ?_⟩
    · intro scope _ name value found
      cases found
    · intro scope outer linked
      cases linked
  context sink depth related := ⟨⟨rfl, related.1.2.size_eq, related.1.2.bindings⟩, related.2⟩
  newGlobal := by
    intro (links : LinkTable) machine related
    obtain ⟨⟨_, linked⟩, backward⟩ := related
    have link : (links ++ [none])[machine.store.scopes.size]? = some none := by
      rw [linked.size_eq]
      exact List.getElem?_concat_length
    refine ⟨links ++ [none], List.prefix_append _ _, ⟨rfl, Env.linked_outermost link⟩,
      ⟨rfl, linked.newGlobal⟩, ?_⟩
    apply backward.concat
    intro outer isOuter
    cases isOuter
  enclosing sameEnv isOuter := ⟨rfl, sameEnv.2.enclosing isOuter⟩

/-- The host or one of the values that are held or bound refers to the environment, or to one that
is inside it. -/
inductive Host.Refers (host : Host) : Env → Prop where
  | held {env : Env} : env ∈ host.envs → Refers host env
  | captured {value : Value} {env : Env} : value ∈ host.values → value.Holds env → Refers host env
  | bound {scope : ScopeId} {name : String} {value : Value} {env : Env} :
      host.machine.store.local? scope name = some value → value.Holds env → Refers host env
  | outer {env outer : Env} : Refers host env → env.enclosing? = some outer → Refers host outer

private theorem Correspondence.linked_of_refers {links : LinkTable} {host : Host}
    (covers : nesting.simulation.Covers links host) {env : Env} (refers : host.Refers env) :
    env.Linked links := by
  induction refers with
  | held member => exact (covers.envs _ member).2
  | captured member holds => exact (covers.values _ member).holdsOnly _ holds
  | bound found holds => exact covers.machine.1.2.bindings _ trivial _ _ found _ holds
  | outer _ isOuter ih => exact ih.enclosing isOuter

/-! ## Looking names up along links -/

/-- Links are followed outward from a scope, up to the first one that binds the name. -/
inductive LinkTable.Resolves (links : LinkTable) (store : ScopeStore) (name : String) :
    ScopeId → Option Value → Prop where
  | bound {scope : ScopeId} {value : Value} :
      store.local? scope name = some value → Resolves links store name scope (some value)
  | outermost {scope : ScopeId} :
      store.local? scope name = none → links[scope]? = some none →
      Resolves links store name scope none
  | outward {scope outer : ScopeId} {found : Option Value} :
      store.local? scope name = none → links.Outward scope outer →
      Resolves links store name outer found → Resolves links store name scope found

/-- Looking a name up along the chain of an environment follows the links from its scope. -/
theorem Env.Linked.resolves {links : LinkTable} {env : Env} (linked : env.Linked links)
    (store : ScopeStore) (name : String) :
    links.Resolves store name env.scope (store.find? env name) := by
  obtain ⟨scope, outer⟩ := env
  induction outer generalizing scope with
  | nil =>
      cases bound : store.local? scope name with
      | none =>
          simp only [ScopeStore.find?, Env.chain, List.findSome?, bound]
          exact .outermost bound linked.link
      | some value =>
          simp only [ScopeStore.find?, Env.chain, List.findSome?, bound]
          exact .bound bound
  | cons next rest ih =>
      cases bound : store.local? scope name with
      | none =>
          have around := ih next (linked.enclosing rfl)
          simp only [ScopeStore.find?, Env.chain, List.findSome?_cons, bound] at around ⊢
          exact .outward bound linked.link around
      | some value =>
          simp only [ScopeStore.find?, Env.chain, List.findSome?_cons, bound]
          exact .bound bound

/-- Links leave no choice of what a name resolves to. -/
theorem LinkTable.Resolves.unique {links : LinkTable} {store : ScopeStore} {name : String}
    {scope : ScopeId} {found found' : Option Value}
    (resolves : links.Resolves store name scope found)
    (resolves' : links.Resolves store name scope found') : found = found' := by
  induction resolves with
  | bound bound =>
      cases resolves' with
      | bound bound' => exact bound.symm.trans bound'
      | outermost unbound' | outward unbound' => simp [bound] at unbound'
  | outermost unbound link =>
      cases resolves' with
      | bound bound' => simp [unbound] at bound'
      | outermost => rfl
      | outward _ link' => simp [Outward, link] at link'
  | outward unbound link _ ih =>
      cases resolves' with
      | bound bound' => simp [unbound] at bound'
      | outermost _ link' => cases link.symm.trans link'
      | outward _ link' farther' =>
          cases link.symm.trans link'
          exact ih farther'

namespace ScopeStore

variable {store : ScopeStore} {name : String} {scope : ScopeId}

/-- The scope is on the chain, and no scope that is nearer binds the name. -/
def Exposes (store : ScopeStore) (name : String) (scope : ScopeId) (chain : List ScopeId) : Prop :=
  ∃ nearer farther, chain = nearer ++ scope :: farther ∧
    ∀ other ∈ nearer, store.local? other name = none

theorem exposes_cons_iff {head : ScopeId} {rest : List ScopeId} :
    store.Exposes name scope (head :: rest) ↔
      head = scope ∨ store.local? head name = none ∧ store.Exposes name scope rest := by
  constructor
  · intro exposes
    obtain ⟨nearer, farther, split, unbound⟩ := exposes
    cases nearer with
    | nil =>
        cases split
        exact .inl rfl
    | cons first nearer =>
        cases split
        obtain ⟨unboundFirst, unboundNearer⟩ := List.forall_mem_cons.mp unbound
        exact .inr ⟨unboundFirst, nearer, farther, rfl, unboundNearer⟩
  · intro either
    rcases either with rfl | ⟨unboundFirst, nearer, farther, rfl, unbound⟩
    · exact ⟨[], rest, rfl, nofun⟩
    · exact ⟨head :: nearer, farther, rfl, List.forall_mem_cons.mpr ⟨unboundFirst, unbound⟩⟩

private theorem find?_eq_some_iff {env : Env} {value : Value} :
    store.find? env name = some value ↔
      ∃ scope, store.Exposes name scope env.chain ∧ store.local? scope name = some value := by
  rw [find?, List.findSome?_eq_some_iff]
  constructor
  · intro found
    obtain ⟨nearer, scope, farther, split, bound, unbound⟩ := found
    exact ⟨scope, ⟨nearer, farther, split, unbound⟩, bound⟩
  · intro found
    obtain ⟨scope, ⟨nearer, farther, split, unbound⟩, bound⟩ := found
    exact ⟨nearer, scope, farther, split, bound, unbound⟩

variable {value : Value} {chain : List ScopeId}

private theorem findSome?_set_of_exposes (inside : scope < store.scopes.size)
    (exposes : store.Exposes name scope chain) :
    chain.findSome? ((store.set scope name value).local? · name) = some value := by
  induction chain with
  | nil =>
      obtain ⟨nearer, farther, split, _⟩ := exposes
      simp at split
  | cons head rest ih =>
      rw [List.findSome?_cons, local?_set]
      by_cases here : head = scope
      · simp [here, inside]
      · obtain ⟨unbound, exposed⟩ := (exposes_cons_iff.mp exposes).resolve_left here
        simp [here, unbound, ih exposed]

private theorem findSome?_set_of_not_exposes {target : String}
    (hidden : ¬ (target = name ∧ store.Exposes name scope chain)) :
    chain.findSome? ((store.set scope name value).local? · target) =
      chain.findSome? (store.local? · target) := by
  induction chain with
  | nil => rfl
  | cons head rest ih =>
      have same : (store.set scope name value).local? head target = store.local? head target := by
        rw [local?_set, if_neg]
        intro changed
        obtain ⟨here, named, _⟩ := changed
        exact hidden ⟨named.symm, exposes_cons_iff.mpr (.inl here)⟩
      rw [List.findSome?_cons, List.findSome?_cons, same]
      cases bound : store.local? head target with
      | some found => rfl
      | none =>
          apply ih
          intro exposed
          obtain ⟨rfl, exposed⟩ := exposed
          exact hidden ⟨rfl, exposes_cons_iff.mpr (.inr ⟨bound, exposed⟩)⟩

end ScopeStore

/-- In every reachable state there is one table of links for all scopes. No scope is reached again
by following links, and every environment that is referred to follows them, so that each scope is
the nearest of one environment. A look-up follows the links to the nearest binding, and binding a
name changes what is found of this name through the one scope, where no nearer scope binds it. -/
theorem Host.Reachable.chains_linked {host : Host} (reachable : host.Reachable) :
    ∃ links : LinkTable, links.length = host.machine.store.scopes.size ∧
      (∀ scope, ¬ Relation.TransGen links.Outward scope scope) ∧
      (∀ env, host.Refers env → env.Linked links) ∧
      (∀ scope < links.length, ∃! env : Env, env.Linked links ∧ env.scope = scope) ∧
      ∀ env, env.Linked links → ∀ name,
        (∀ found, links.Resolves host.machine.store name env.scope found ↔
          host.machine.get? env name = found) ∧
        (∀ value, host.machine.get? env name = some value ↔
          ∃ scope, host.machine.store.Exposes name scope env.chain ∧
            host.machine.store.local? scope name = some value) ∧
        ∀ value,
          (∀ env', env'.Linked links → ∀ name',
            (name' = name ∧ host.machine.store.Exposes name env.scope env'.chain →
              (host.machine.set env name value).get? env' name' = some value) ∧
            (¬ (name' = name ∧ host.machine.store.Exposes name env.scope env'.chain) →
              (host.machine.set env name value).get? env' name' = host.machine.get? env' name')) ∧
          ∀ scope name', (host.machine.set env name value).store.local? scope name' =
            if scope = env.scope ∧ name' = name then some value
            else host.machine.store.local? scope name' := by
  obtain ⟨links, covers⟩ := reachable.covered Correspondence.nesting_hosting.simulation
  obtain ⟨⟨_, linked⟩, backward⟩ := covers.machine
  refine ⟨links, linked.size_eq.symm, backward.acyclic,
    fun env refers => Correspondence.linked_of_refers covers refers, ?_, ?_⟩
  · intro scope inside
    obtain ⟨env, linkedEnv, nearest⟩ := Env.exists_linked backward scope inside
    refine ⟨env, ⟨linkedEnv, nearest⟩, fun env' found => ?_⟩
    exact found.1.eq_of_scope linkedEnv (found.2.trans nearest.symm)
  · intro env linkedEnv name
    have inside : env.scope < host.machine.store.scopes.size :=
      linked.size_eq ▸ linkedEnv.scope_lt
    have resolves := linkedEnv.resolves host.machine.store name
    refine ⟨fun found => ⟨resolves.unique, fun isFound => isFound ▸ resolves⟩,
      fun value => ScopeStore.find?_eq_some_iff, fun value => ⟨?_, ?_⟩⟩
    · intro env' _ name'
      constructor
      · intro exposed
        obtain ⟨rfl, exposed⟩ := exposed
        exact ScopeStore.findSome?_set_of_exposes inside exposed
      · intro hidden
        exact ScopeStore.findSome?_set_of_not_exposes hidden
    · intro scope name'
      rw [Machine.set, ScopeStore.local?_set]
      simp [inside, eq_comm]

/-- The function `fn() { f }`, made in the scope in which it is bound to `f`. -/
def Value.selfReading : Value :=
  .function 0 ⟨[], ⟨⟨.openBrace, "\x7b"⟩, [.expr ⟨.ident, "f"⟩ (.ident ⟨.ident, "f"⟩)]⟩, ⟨1, [0]⟩⟩

def Host.selfReading : Host :=
  ⟨.ofScopes #[⟨[("x", .int 1)]⟩, ⟨[("f", .selfReading)]⟩] 2, [⟨1, [0]⟩, ⟨0, []⟩],
    [.int 1, .selfReading]⟩

private theorem Host.selfReading_reachable : Host.selfReading.Reachable := by
  have nested : Step ⟨(Machine.start (.empty none)).newGlobal.2, [⟨0, []⟩], []⟩
      ⟨.ofScopes #[.empty, .empty], [⟨1, [0]⟩, ⟨0, []⟩], []⟩ :=
    .newScope List.mem_cons_self
  have made : Step ⟨.ofScopes #[.empty, .empty], [⟨1, [0]⟩, ⟨0, []⟩], []⟩
      ⟨.ofScopes #[.empty, .empty] 1, [⟨1, [0]⟩, ⟨0, []⟩], [.selfReading]⟩ :=
    .make (.function List.mem_cons_self)
  have bound : Step ⟨.ofScopes #[.empty, .empty] 1, [⟨1, [0]⟩, ⟨0, []⟩], [.selfReading]⟩
      ⟨.ofScopes #[.empty, ⟨[("f", .selfReading)]⟩] 1, [⟨1, [0]⟩, ⟨0, []⟩],
        [.selfReading]⟩ :=
    @Step.set _ _ _ ⟨1, [0]⟩ _ "f" (by simp) List.mem_cons_self
  have outer : Step ⟨.ofScopes #[.empty, ⟨[("f", .selfReading)]⟩] 2,
      [⟨1, [0]⟩, ⟨0, []⟩], [.int 1, .selfReading]⟩ .selfReading :=
    @Step.set _ _ _ ⟨0, []⟩ _ "x" (by simp) List.mem_cons_self
  exact ⟨.empty none, .byInsertion, .tail (.tail (.tail (.tail (.tail (.tail .refl .newGlobal)
    nested) made) bound) (.make (.int 1))) outer⟩

/-- What is bound outside is found from inside, where nothing hides it. -/
theorem Host.Reachable.chains_linked_selfReading :
    Host.selfReading.Reachable ∧ Host.selfReading.Refers ⟨1, [0]⟩ ∧
      (∃ links : LinkTable, links.length = 2 ∧
        (∀ scope, ¬ Relation.TransGen links.Outward scope scope) ∧
        Env.Linked links ⟨1, [0]⟩ ∧ Env.Linked links ⟨0, []⟩) ∧
      (Host.selfReading.machine.set ⟨0, []⟩ "x" (.int 2)).get? ⟨1, [0]⟩ "x" = some (.int 2) ∧
      (Host.selfReading.machine.set ⟨0, []⟩ "f" .null).get? ⟨1, [0]⟩ "f" =
        some .selfReading := by
  have inner : Host.selfReading.Refers ⟨1, [0]⟩ :=
    .bound (show Host.selfReading.machine.store.local? 1 "f" = _ from rfl) (.function 0 _)
  have outermost : Host.selfReading.Refers ⟨0, []⟩ := inner.outer rfl
  obtain ⟨links, size, acyclic, linked, _, laws⟩ :=
    Host.Reachable.chains_linked Host.selfReading_reachable
  have changes name value :=
    ((laws ⟨0, []⟩ (linked _ outermost) name).2.2 value).1 ⟨1, [0]⟩ (linked _ inner) name
  refine ⟨Host.selfReading_reachable, inner,
    ⟨links, size, acyclic, linked _ inner, linked _ outermost⟩, (changes "x" (.int 2)).1 ?_,
    ((changes "f" .null).2 ?_).trans rfl⟩
  · exact ⟨rfl, [1], [], rfl, List.forall_mem_singleton.mpr rfl⟩
  · intro exposed
    rcases ScopeStore.exposes_cons_iff.mp exposed.2 with here | ⟨unbound, _⟩
    · cases here
    · cases unbound

end Script
