import Script.Error
import Script.Syntax.Basic
import Script.Value.Key

/-!
# Values

What expressions evaluate to. Strings, lists, maps and functions carry the identity that they were
given when they were made: `==` on lists, maps and functions compares identities and not contents.
Values never change after they were made.

`returned` and `error` are markers for an unwinding `return` and for a caught failure. Evaluation
itself never stores them, but a caller can bind them.
-/

set_option autoImplicit false

namespace Script

/-- A scope, named by its place in the order in which scopes were made. -/
abbrev ScopeId := Nat

/-- The identity of a string, list, map or function. -/
abbrev Ref := Nat

/-- An environment: a scope and, from the nearest to the outermost, the scopes around it. -/
structure Env where
  scope : ScopeId
  outer : List ScopeId
  deriving DecidableEq, Repr

namespace Env

/-- All scopes of an environment, nearest first. -/
def chain (env : Env) : List ScopeId := env.scope :: env.outer

def enclosing? (env : Env) : Option Env :=
  match env.outer with
  | [] => none
  | scope :: outer => some ⟨scope, outer⟩

def nest (env : Env) (scope : ScopeId) : Env := ⟨scope, env.chain⟩

@[simp]
theorem chain_nest (env : Env) (scope : ScopeId) : (env.nest scope).chain = scope :: env.chain :=
  rfl

@[simp]
theorem enclosing?_nest (env : Env) (scope : ScopeId) : (env.nest scope).enclosing? = some env :=
  rfl

end Env

structure Closure where
  parameters : List Token
  body : Block
  env : Env

inductive Value where
  | null
  | bool (b : Bool)
  | int (n : Int64)
  | str (ref : Ref) (text : String)
  | list (ref : Ref) (items : List Value)
  | map (ref : Ref) (entries : List (Key × Value))
  | function (ref : Ref) (closure : Closure)
  | builtin (builtin : Builtin)
  | returned (value : Value)
  | error (cause : RuntimeError)

namespace Value

def kind : Value → ValueKind
  | null => .null
  | bool _ => .bool
  | int _ => .int
  | str _ _ => .str
  | list _ _ => .list
  | map _ _ => .map
  | function _ _ => .function
  | builtin _ => .builtin
  | returned _ => .returned
  | error _ => .error

/-- Everything except `null` and `false` counts as true. -/
def truthy : Value → Bool
  | null | bool false => false
  | _ => true

/-- Sameness of values: by value for null, booleans, integers and built-in functions, by identity
for strings, lists, maps and functions. A marker is never the same as anything. -/
def identical : Value → Value → Bool
  | null, null => true
  | bool a, bool b => a = b
  | int a, int b => a = b
  | str a _, str b _ => a = b
  | list a _, list b _ => a = b
  | map a _, map b _ => a = b
  | function a _, function b _ => a = b
  | builtin a, builtin b => a = b
  | _, _ => false

def key? : Value → Option Key
  | int n => some (.int n)
  | bool b => some (.bool b)
  | str _ text => some (.str text)
  | _ => none

theorem kind_eq_of_key? {value : Value} {key : Key} (isKey : value.key? = some key) :
    key.kind = value.kind := by
  cases value <;> simp only [key?, Option.some.injEq, reduceCtorEq] at isKey <;>
    subst isKey <;> rfl

end Value

end Script
