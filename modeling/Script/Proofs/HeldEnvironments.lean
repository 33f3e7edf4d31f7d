import Script.Proofs.MatchingValues

/-!
# The environments that values hold

A function holds the environment that it was made in, and a list or a map holds what its elements
hold. A value that holds environments of some sort only matches itself, when matching asks for
equal identities and for equal environments of that sort.
-/

set_option autoImplicit false

namespace Script

/-- The value is a function that was made in the environment, or has such a function in it. -/
inductive Value.Holds : Value → Env → Prop where
  | function (ref : Ref) (closure : Closure) : Holds (.function ref closure) closure.env
  | item {ref : Ref} {items : List Value} {item : Value} {env : Env} :
      item ∈ items → Holds item env → Holds (.list ref items) env
  | entry {ref : Ref} {entries : List (Key × Value)} {entry : Key × Value} {env : Env} :
      entry ∈ entries → Holds entry.2 env → Holds (.map ref entries) env
  | returned {value : Value} {env : Env} : Holds value env → Holds (.returned value) env

def Value.HoldsOnly (allowed : Env → Prop) (value : Value) : Prop :=
  ∀ env, value.Holds env → allowed env

def Env.Same (allowed : Env → Prop) (env env' : Env) : Prop := env = env' ∧ allowed env

section Matching

variable {allowed : Env → Prop}

mutual

/-- A value that holds only allowed environments matches itself. -/
theorem Value.HoldsOnly.matches :
    (value : Value) → value.HoldsOnly allowed → Value.Matches (· = ·) (Env.Same allowed) value value
  | .null, _ => .null
  | .bool b, _ => .bool b
  | .int n, _ => .int n
  | .str _ text, _ => .str text rfl
  | .list _ items, only =>
      .list rfl
        (HoldsOnly.matches_items items fun _ member env held => only env (.item member held))
  | .map _ entries, only =>
      .map rfl
        (HoldsOnly.matches_entries entries fun _ member env held => only env (.entry member held))
  | .function ref closure, only =>
      .function closure.parameters closure.body rfl ⟨rfl, only _ (.function ref closure)⟩
  | .builtin native, _ => .builtin native
  | .returned value, only =>
      .returned (HoldsOnly.matches value fun env held => only env (.returned held))
  | .error cause, _ => .error cause

theorem Value.HoldsOnly.matches_items :
    (items : List Value) → (∀ item ∈ items, item.HoldsOnly allowed) →
      List.Forall₂ (Value.Matches (· = ·) (Env.Same allowed)) items items
  | [], _ => .nil
  | item :: rest, only =>
      .cons (HoldsOnly.matches item (only item List.mem_cons_self))
        (HoldsOnly.matches_items rest fun other member =>
          only other (List.mem_cons_of_mem _ member))

theorem Value.HoldsOnly.matches_entries :
    (entries : List (Key × Value)) → (∀ entry ∈ entries, entry.2.HoldsOnly allowed) →
      List.Forall₂ (EntryRel (Value.Matches (· = ·) (Env.Same allowed))) entries entries
  | [], _ => .nil
  | (key, value) :: rest, only =>
      .cons (.mk key (HoldsOnly.matches value (only (key, value) List.mem_cons_self)))
        (HoldsOnly.matches_entries rest fun other member =>
          only other (List.mem_cons_of_mem _ member))

end

namespace Value.Matches

mutual

/-- Values that match up to equality are equal. -/
theorem eq_of_same : {value value' : Value} → Matches (· = ·) (Env.Same allowed) value value' →
    value = value'
  | _, _, .null | _, _, .bool _ | _, _, .int _ | _, _, .builtin _ | _, _, .error _ => rfl
  | _, _, .str _ sameRef => by rw [sameRef]
  | _, _, .list sameRef items => by rw [sameRef, items_eq_of_same items]
  | _, _, .map sameRef entries => by rw [sameRef, entries_eq_of_same entries]
  | _, _, .function _ _ sameRef sameEnv => by rw [sameRef, sameEnv.1]
  | _, _, .returned inner => by rw [eq_of_same inner]

theorem items_eq_of_same : {items items' : List Value} →
    List.Forall₂ (Matches (· = ·) (Env.Same allowed)) items items' → items = items'
  | _, _, .nil => rfl
  | _, _, .cons first rest => by rw [eq_of_same first, items_eq_of_same rest]

theorem entries_eq_of_same : {entries entries' : List (Key × Value)} →
    List.Forall₂ (EntryRel (Matches (· = ·) (Env.Same allowed))) entries entries' →
      entries = entries'
  | _, _, .nil => rfl
  | _, _, .cons (.mk _ first) rest => by rw [eq_of_same first, entries_eq_of_same rest]

end

theorem holdsOnly {value value' : Value} (same : Matches (· = ·) (Env.Same allowed) value value') :
    value.HoldsOnly allowed := by
  intro env held
  induction held generalizing value' with
  | function ref closure =>
      cases same with
      | function _ _ _ sameEnv => exact sameEnv.2
  | item member _ ih =>
      cases same with
      | list _ items =>
          cases items_eq_of_same items
          exact ih (List.forall₂_same.mp items _ member)
  | entry member _ ih =>
      cases same with
      | map _ entries =>
          cases entries_eq_of_same entries
          obtain ⟨_, sameValue⟩ := List.forall₂_same.mp entries _ member
          exact ih sameValue
  | returned _ ih =>
      cases same with
      | returned inner => exact ih inner

theorem items_holdsOnly {items items' : List Value}
    (same : List.Forall₂ (Matches (· = ·) (Env.Same allowed)) items items') :
    ∀ item ∈ items, item.HoldsOnly allowed := by
  cases items_eq_of_same same
  exact fun item member => (List.forall₂_same.mp same item member).holdsOnly

end Value.Matches

end Matching

/-! ## The environments that scopes hold -/

theorem Scope.mem_of_get?_ofArguments {parameters : List Token} {arguments : List Value}
    {name : String} {value : Value}
    (found : (Scope.ofArguments parameters arguments).get? name = some value) :
    value ∈ arguments := by
  -- The bindings made so far come from the arguments, whatever binding is made next.
  have folded : ∀ (pairs : List (Token × Value)) (scope : Scope),
      (pairs.foldl (fun scope pair => scope.set pair.1.text pair.2) scope).get? name = some value →
      scope.get? name = some value ∨ value ∈ pairs.map Prod.snd := by
    intro pairs
    induction pairs with
    | nil => exact fun scope found => .inl found
    | cons pair rest ih =>
        intro scope found
        rcases ih _ found with bound | member
        · rw [Scope.get?_set] at bound
          split at bound
          · cases bound
            exact .inr List.mem_cons_self
          · exact .inl bound
        · exact .inr (List.mem_cons_of_mem _ member)
  rcases folded _ _ found with bound | member
  · cases bound
  · obtain ⟨pair, paired, rfl⟩ := List.mem_map.mp member
    exact (List.of_mem_zip paired).2

namespace ScopeStore

def HoldsOnly (scopes : ScopeId → Prop) (allowed : Env → Prop) (store : ScopeStore) : Prop :=
  ∀ scope, scopes scope → ∀ name value, store.local? scope name = some value →
    value.HoldsOnly allowed

variable {scopes : ScopeId → Prop} {allowed allowed' : Env → Prop} {store : ScopeStore}

theorem HoldsOnly.mono (only : store.HoldsOnly scopes allowed)
    (more : ∀ env, allowed env → allowed' env) : store.HoldsOnly scopes allowed' :=
  fun scope inside name value found env held =>
    more env (only scope inside name value found env held)

theorem HoldsOnly.set (only : store.HoldsOnly scopes allowed) (scope : ScopeId) (name : String)
    {value : Value} (onlyValue : value.HoldsOnly allowed) :
    (store.set scope name value).HoldsOnly scopes allowed := by
  intro other inside target found here
  rw [local?_set] at here
  split at here
  · cases here
    exact onlyValue
  · exact only other inside target found here

/-- The scope of a call binds nothing but the arguments. -/
theorem HoldsOnly.add_ofArguments (only : store.HoldsOnly scopes allowed)
    (parameters : List Token) {arguments : List Value}
    (onlyArguments : ∀ value ∈ arguments, value.HoldsOnly allowed) :
    (store.add (.ofArguments parameters arguments)).2.HoldsOnly scopes allowed := by
  intro scope inside name value found
  rw [local?_add] at found
  split at found
  · exact onlyArguments value (Scope.mem_of_get?_ofArguments found)
  · exact only scope inside name value found

/-- What is looked up in the given scopes matches itself, so that reading a name needs no hypothesis
about its value. -/
theorem HoldsOnly.find?_matches (only : store.HoldsOnly scopes allowed) {env : Env}
    (inside : ∀ scope ∈ env.chain, scopes scope) (name : String) :
    Option.Rel (Value.Matches (· = ·) (Env.Same allowed)) (store.find? env name)
      (store.find? env name) := by
  cases found : store.find? env name with
  | none => exact .none
  | some value =>
      obtain ⟨scope, member, bound⟩ := List.exists_of_findSome?_eq_some found
      have onlyValue := only scope (inside scope member) name value bound
      exact .some (Value.HoldsOnly.matches value onlyValue)

end ScopeStore

end Script
