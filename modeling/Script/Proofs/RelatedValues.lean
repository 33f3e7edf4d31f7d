import Mathlib.Data.List.Forall2
import Script.Eval.Basic

/-!
# Related values

A relation between values carries over to what consists of values: the entries of a map, lists and
results that may be absent. Values are alike under a relation when they differ in identities and
environments at most and their parts are related. Evaluation looks no further than that.
-/

set_option autoImplicit false

namespace Script

inductive EntryRel {κ : Type} (related : Value → Value → Prop) : κ × Value → κ × Value → Prop where
  | mk (key : κ) {value value' : Value} :
      related value value' → EntryRel related (key, value) (key, value')

theorem entryRel_eq {κ : Type} : (EntryRel (· = ·) : κ × Value → κ × Value → Prop) = (· = ·) := by
  funext entry entry'
  refine propext ⟨fun ⟨key, same⟩ => congrArg (Prod.mk key) same, ?_⟩
  rintro rfl
  exact .mk entry.1 rfl

theorem entryRel_and {κ : Type} {good : Value → Prop} {related : Value → Value → Prop} :
    (EntryRel fun value value' => good value ∧ related value value') =
      fun entry entry' : κ × Value => good entry.2 ∧ EntryRel related entry entry' := by
  funext entry entry'
  refine propext ⟨fun ⟨key, holds, same⟩ => ⟨holds, .mk key same⟩, ?_⟩
  rintro ⟨holds, key, same⟩
  exact .mk key ⟨holds, same⟩

namespace Value

def ref? : Value → Option Ref
  | .str ref _ | .list ref _ | .map ref _ | .function ref _ => some ref
  | _ => none

/-- The second value is what the first one directly consists of. -/
inductive HasPart : Value → Value → Prop where
  | item {ref : Ref} {items : List Value} {item : Value} :
      item ∈ items → HasPart (.list ref items) item
  | entry {ref : Ref} {entries : List (Key × Value)} {entry : Key × Value} :
      entry ∈ entries → HasPart (.map ref entries) entry.2
  | returned {value : Value} : HasPart (.returned value) value

/-- Values that have neither an identity nor parts, and are no markers. -/
inductive Atom : Value → Prop where
  | null : Atom .null
  | bool (b : Bool) : Atom (.bool b)
  | int (n : Int64) : Atom (.int n)
  | builtin (native : Builtin) : Atom (.builtin native)

/-- Values with the same constructor that differ in identities and environments at most, and whose
parts are related. -/
inductive Alike (related : Value → Value → Prop) : Value → Value → Prop where
  | atom {value : Value} : value.Atom → Alike related value value
  | str (ref ref' : Ref) (text : String) : Alike related (.str ref text) (.str ref' text)
  | list (ref ref' : Ref) {items items' : List Value} :
      List.Forall₂ related items items' → Alike related (.list ref items) (.list ref' items')
  | map (ref ref' : Ref) {entries entries' : List (Key × Value)} :
      List.Forall₂ (EntryRel related) entries entries' →
      Alike related (.map ref entries) (.map ref' entries')
  | function (ref ref' : Ref) (parameters : List Token) (body : Block) (env env' : Env) :
      Alike related (.function ref ⟨parameters, body, env⟩)
        (.function ref' ⟨parameters, body, env'⟩)
  | returned {value value' : Value} :
      related value value' → Alike related (.returned value) (.returned value')
  | error (cause : RuntimeError) : Alike related (.error cause) (.error cause)

/-- Two values that evaluation makes at the same time, with the identities `ref` and `ref'`, from
related values and environments. -/
inductive Made (related : Value → Value → Prop) (envs : Env → Env → Prop) (ref ref' : Ref) :
    Value → Value → Prop where
  | str (text : String) : Made related envs ref ref' (.str ref text) (.str ref' text)
  | list {items items' : List Value} :
      List.Forall₂ related items items' →
      Made related envs ref ref' (.list ref items) (.list ref' items')
  | map {entries entries' : List (Key × Value)} :
      List.Forall₂ (EntryRel related) entries entries' →
      Made related envs ref ref' (.map ref entries) (.map ref' entries')
  | function (parameters : List Token) (body : Block) {env env' : Env} :
      envs env env' →
      Made related envs ref ref' (.function ref ⟨parameters, body, env⟩)
        (.function ref' ⟨parameters, body, env'⟩)

namespace Alike

variable {related : Value → Value → Prop} {value value' : Value}

theorem kind_eq (same : Alike related value value') : value.kind = value'.kind := by
  cases same <;> rfl

theorem truthy_eq (same : Alike related value value') : value.truthy = value'.truthy := by
  cases same <;> rfl

theorem key?_eq (same : Alike related value value') : value.key? = value'.key? := by
  cases same <;> rfl

/-- A value is alike itself when its parts are related to themselves. -/
theorem self (parts : ∀ part, value.HasPart part → related part part) :
    Alike related value value := by
  cases value with
  | null => exact .atom .null
  | bool b => exact .atom (.bool b)
  | int n => exact .atom (.int n)
  | str ref text => exact .str ref ref text
  | list ref items =>
      exact .list ref ref (List.forall₂_same.mpr fun item member => parts item (.item member))
  | map ref entries =>
      refine .map ref ref (List.forall₂_same.mpr fun (key, value) member => .mk key ?_)
      exact parts value (.entry member)
  | function ref closure => exact .function ref ref _ _ _ _
  | builtin native => exact .atom (.builtin native)
  | returned value => exact .returned (parts value .returned)
  | error cause => exact .error cause

end Alike

theorem Made.mono {related related' : Value → Value → Prop} {envs envs' : Env → Env → Prop}
    {ref ref' : Ref} {value value' : Value} (made : Made related envs ref ref' value value')
    (more : ∀ value value', related value value' → related' value value')
    (moreEnvs : ∀ env env', envs env env' → envs' env env') :
    Made related' envs' ref ref' value value' := by
  cases made with
  | str text => exact .str text
  | list items => exact .list (items.imp more)
  | map entries =>
      exact .map (entries.imp fun _ _ ⟨key, sameValue⟩ => .mk key (more _ _ sameValue))
  | function parameters body sameEnv => exact .function parameters body (moreEnvs _ _ sameEnv)

/-- Equal values and environments make equal values. -/
theorem Made.eq {ref : Ref} {value value' : Value}
    (made : Made (· = ·) (· = ·) ref ref value value') : value = value' := by
  cases made with
  | str text => rfl
  | list items =>
      rw [List.forall₂_eq_eq_eq] at items
      rw [items]
  | map entries =>
      rw [entryRel_eq, List.forall₂_eq_eq_eq] at entries
      rw [entries]
  | function parameters body sameEnv => rw [sameEnv]

end Value

section Collections

variable {related : Value → Value → Prop}

theorem forall₂_getElem? {items items' : List Value} (same : List.Forall₂ related items items')
    (index : Nat) : Option.Rel related items[index]? items'[index]? := by
  induction same generalizing index with
  | nil => exact .none
  | cons first _ ih =>
      cases index with
      | zero => exact .some first
      | succ index => exact ih index

theorem forall₂_entries_same {entries : List (Key × Value)}
    (same : ∀ entry ∈ entries, related entry.2 entry.2) :
    List.Forall₂ (EntryRel related) entries entries :=
  List.forall₂_same.mpr fun (key, _) member => .mk key (same _ member)

namespace Assoc

variable {κ δ : Type} [DecidableEq δ] {digest : κ → δ}

/-- Entries with the same keys have related values under the same digest. -/
theorem find?_related {entries entries' : List (κ × Value)}
    (same : List.Forall₂ (EntryRel related) entries entries') (target : δ) :
    Option.Rel related (find? digest target entries) (find? digest target entries') := by
  induction same with
  | nil => exact .none
  | cons first _ ih =>
      obtain ⟨key, sameValue⟩ := first
      rw [find?, find?]
      split
      · exact .some sameValue
      · exact ih

theorem insert_related {entries entries' : List (κ × Value)} {value value' : Value} (key : κ)
    (same : List.Forall₂ (EntryRel related) entries entries') (sameValue : related value value') :
    List.Forall₂ (EntryRel related) (insert digest key value entries)
      (insert digest key value' entries') := by
  induction same with
  | nil => exact .cons (.mk key sameValue) .nil
  | cons first rest ih =>
      obtain ⟨key', sameFirst⟩ := first
      rw [insert, insert]
      split
      · exact .cons (.mk key sameValue) rest
      · exact .cons (.mk key' sameFirst) ih

end Assoc

end Collections

end Script
