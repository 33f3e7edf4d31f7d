import Script.Assoc
import Script.Value.Basic

/-!
# Scopes

A scope binds names to values, and a store holds every scope that was made during a run. Scopes are
never removed from a store, because functions keep the environment that they were made in. A name is
looked up in the scopes of an environment from the nearest to the outermost, and bound in the
nearest only.
-/

set_option autoImplicit false

namespace Script

structure Scope where
  bindings : List (String × Value)

namespace Scope

def empty : Scope := ⟨[]⟩

def get? (scope : Scope) (name : String) : Option Value :=
  Assoc.find? id name scope.bindings

def set (scope : Scope) (name : String) (value : Value) : Scope :=
  ⟨Assoc.insert id name value scope.bindings⟩

/-- The names that the scope binds, in the order of the code points of their characters. -/
def names (scope : Scope) : List String :=
  (scope.bindings.map Prod.fst).mergeSort fun first second => first ≤ second

/-- The scope of a call: each parameter bound to its argument, the last one winning where a name
is repeated. -/
def ofArguments (parameters : List Token) (arguments : List Value) : Scope :=
  (parameters.zip arguments).foldl (fun scope pair => scope.set pair.1.text pair.2) .empty

@[simp]
theorem get?_empty (name : String) : empty.get? name = none := rfl

theorem get?_set (scope : Scope) (name target : String) (value : Value) :
    (scope.set name value).get? target =
      if name = target then some value else scope.get? target :=
  Assoc.find?_insert id name value target scope.bindings

end Scope

/-- Every scope made so far. A scope is named by its place. -/
structure ScopeStore where
  scopes : Array Scope

namespace ScopeStore

def empty : ScopeStore := ⟨#[]⟩

def local? (store : ScopeStore) (scope : ScopeId) (name : String) : Option Value :=
  store.scopes[scope]?.bind (·.get? name)

/-- The value of a name in an environment: its binding in the nearest scope that has one. -/
def find? (store : ScopeStore) (env : Env) (name : String) : Option Value :=
  env.chain.findSome? (store.local? · name)

def add : ScopeStore → Scope → ScopeId × ScopeStore
  | ⟨scopes⟩, scope => (scopes.size, ⟨scopes.push scope⟩)

def set : ScopeStore → ScopeId → String → Value → ScopeStore
  | ⟨scopes⟩, scope, name, value => ⟨scopes.modify scope (·.set name value)⟩

def names (store : ScopeStore) (scope : ScopeId) : List String :=
  match store.scopes[scope]? with
  | none => []
  | some scope => scope.names

theorem local?_add (store : ScopeStore) (scope : Scope) (id : ScopeId) (name : String) :
    (store.add scope).2.local? id name =
      if id = store.scopes.size then scope.get? name else store.local? id name := by
  simp only [add, local?, Array.getElem?_push]
  split <;> rfl

theorem local?_set (store : ScopeStore) (scope : ScopeId) (name : String) (value : Value)
    (id : ScopeId) (target : String) :
    (store.set scope name value).local? id target =
      if id = scope ∧ name = target ∧ scope < store.scopes.size then some value
      else store.local? id target := by
  simp only [set, local?, Array.getElem?_modify]
  by_cases here : scope = id
  · subst here
    by_cases inside : scope < store.scopes.size
    · by_cases named : name = target <;>
        simp [inside, named, Scope.get?_set]
    · simp [inside]
  · simp [here, Ne.symm here]

end ScopeStore

end Script
