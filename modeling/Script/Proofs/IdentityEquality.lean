import Script.Proofs.FreshValues
import Script.Proofs.Histories
import Script.Proofs.ListSequences
import Script.Proofs.Markers

/-!
# Identity as equality

Lists, maps and functions are compared by their identities. Where no markers are about, this is an
equivalence on all values of a state, and values with one identity are the same value, then and in
every later state. Values that are made at two places of a run are told apart, and a value that is
bound, passed or stored and then read back is the very same.
-/

set_option autoImplicit false

namespace Script

/-! ## States without markers -/

private theorem Value.Clean.plain {value : Value} (clean : value.Clean) : value.Plain := by
  cases clean <;> exact ⟨nofun, nofun⟩

namespace Host

structure Clean (host : Host) : Prop where
  machine : host.machine.Clean
  values : ∀ value ∈ host.values, value.Clean

/-- The steps of a host that only run code, up to the start of an activity or to the end. -/
inductive RunStep : Host → Host → Prop where
  | reach {machine envs values task inner} (limit : Nat) : (∀ env ∈ task.env?, env ∈ envs) →
      (∀ value ∈ task.inputs, value ∈ values) →
      (Activity.start limit task machine).Within inner →
      RunStep ⟨machine, envs, values⟩
        ⟨inner.machine, inner.task.env?.toList ++ envs, inner.task.inputs ++ values⟩
  | finish {machine envs values task} (limit : Nat) : (∀ env ∈ task.env?, env ∈ envs) →
      (∀ value ∈ task.inputs, value ∈ values) →
      RunStep ⟨machine, envs, values⟩
        ⟨(Activity.start limit task machine).finish.2, envs,
          Activity.endValues (Activity.start limit task machine).finish.1 ++ values⟩

theorem RunStep.step {host host' : Host} (run : host.RunStep host') : host.Step host' := by
  cases run with
  | reach limit env inputs within => exact .reach limit env inputs within
  | finish limit env inputs => exact .finish limit env inputs

private theorem RunStep.clean {host host' : Host} (run : host.RunStep host') (clean : host.Clean) :
    host'.Clean := by
  obtain ⟨machine, values⟩ := clean
  cases run with
  | reach limit _ inputs within =>
      obtain ⟨_, _, cleanMachine, _, cleanInputs⟩ := DataInvariant.clean_steady.within () within
        machine (fun _ _ => trivial) fun value member => values value (inputs value member)
      exact ⟨cleanMachine, List.forall_mem_append.mpr ⟨cleanInputs, values⟩⟩
  | finish limit _ inputs =>
      obtain ⟨_, _, cleanMachine, cleanValues⟩ := DataInvariant.clean_steady.finish ()
        (.start limit _ _) machine (fun _ _ => trivial)
        fun value member => values value (inputs value member)
      exact ⟨cleanMachine, List.forall_mem_append.mpr ⟨cleanValues, values⟩⟩

private theorem Clean.occurs {host : Host} (clean : host.Clean) {value : Value}
    (occurs : host.Occurs value) : value.Clean := by
  induction occurs with
  | held member => exact clean.values _ member
  | bound found =>
      obtain ⟨scope, present, holds⟩ := Option.bind_eq_some_iff.mp found
      exact Assoc.find?_of_forall (clean.machine scope (Array.mem_of_getElem? present)) holds
  | part _ isPart ih => exact ih.part isPart

end Host

/-! ## Reading back -/

/-- The last parameter of a name has its argument. -/
theorem Scope.get?_ofArguments_of_isLast {parameters : List Token} {arguments : List Value}
    {parameter : Token} {value : Value}
    (isLast : Assoc.IsLast Token.text (parameters.zip arguments) (parameter, value)) :
    (Scope.ofArguments parameters arguments).get? parameter.text = some value := by
  unfold Scope.ofArguments
  generalize parameters.zip arguments = pairs at isLast
  induction pairs using List.reverseRecOn with
  | nil => exact absurd isLast Assoc.isLast_nil
  | append_singleton pairs pair ih =>
      rw [List.foldl_append, List.foldl_cons, List.foldl_nil, Scope.get?_set]
      rcases Assoc.isLast_append_singleton.mp isLast with rfl | ⟨different, earlier⟩
      · exact if_pos rfl
      · rw [if_neg (Ne.symm different)]
        exact ih earlier

private theorem lookup_of_plain {machine : Machine} {env : Env} {name : String} {value : Value}
    (plain : value.Plain) (found : machine.store.local? env.scope name = some value) :
    lookup env name machine = (.ok value, machine) := by
  rw [lookup_of_local? found, Run.settle_of_plain plain]
  rfl

namespace Value

/-- Wherever the value is put and read back from there, it is the very same value that is read. -/
structure Kept (value : Value) : Prop where
  /-- By a name that is bound to it. -/
  bound : ∀ {call env token name code machine after},
    code.eval call env machine = (.ok value, after) → env.scope < after.store.scopes.size →
    ∃ left, (Stmt.bind token name code).eval call env machine = (.ok none, left) ∧
      ∀ use, use.text = name.text →
        (Expr.ident use).eval call env left = (.ok value, left)
  /-- By the last parameter of its name, in a call that it is passed to. -/
  passed : ∀ {call : Caller} {closure : Closure} {arguments parameter} {machine : Machine},
    Assoc.IsLast Token.text (closure.parameters.zip arguments) (parameter, value) →
    let opened := machine.newScope closure.env (.ofArguments closure.parameters arguments)
    ∀ use, use.text = parameter.text →
      (Expr.ident use).eval call opened.1 opened.2.enterCall = (.ok value, opened.2.enterCall)
  /-- By its position in a list. -/
  listed : ∀ {call env token elements machine before rest after},
    Expr.evalAll call env elements machine = (.ok (before ++ value :: rest), after) →
    before.length < 2 ^ 63 →
    ∃ list left, (Expr.list token elements).eval call env machine = (.ok list, left) ∧
      list.IndexGives (.int (Int64.ofNat before.length)) value
  /-- By its key in a map. -/
  mapped : ∀ {call env token pairs machine found after key position key'},
    Expr.PairsGive call env pairs machine found after →
    Assoc.IsLast Key.hash found (key, value) →
    position.key? = some key' → key'.hash = key.hash →
    ∃ map left, (Expr.map token pairs).eval call env machine = (.ok map, left) ∧
      map.IndexGives position value
  /-- As the first item of a list. -/
  first : ∀ {ref rest machine},
    Builtin.first.invoke [.list ref (value :: rest)] machine = (.ok value, machine)
  /-- As the last item of a list. -/
  last : ∀ {ref before machine},
    Builtin.last.invoke [.list ref (before ++ [value])] machine = (.ok value, machine)
  /-- As the item after those of a list that it is pushed to. -/
  pushed : ∀ {ref items machine}, ∃ ref' left,
    Builtin.push.invoke [.list ref items, value] machine =
      (.ok (.list ref' (items ++ [value])), left)
  /-- As an item of the tail of a list. -/
  inTail : ∀ {ref other before rest machine}, ∃ ref' left,
    Builtin.tail.invoke [.list ref (other :: (before ++ value :: rest))] machine =
      (.ok (.list ref' (before ++ value :: rest)), left)

private theorem index_list {ref : Ref} {before rest : List Value} {value : Value}
    (small : before.length < 2 ^ 63) :
    (Value.list ref (before ++ value :: rest)).index (.int (Int64.ofNat before.length)) =
      .ok value := by
  have position : (Int64.ofNat before.length).toInt = before.length :=
    Int64.toInt_ofNat_of_lt small
  have natural : 0 ≤ (Int64.ofNat before.length).toInt := by
    rw [position]
    exact Int.natCast_nonneg _
  have inside : (Int64.ofNat before.length).toInt.toNat < (before ++ value :: rest).length := by
    rw [position, Int.toNat_natCast, List.length_append]
    exact Nat.lt_add_of_pos_right (Nat.succ_pos _)
  rw [Value.index, itemAt_of_inside natural inside]
  simp [position]

/-- Only the marker of a `return` would be taken for something else when it is read. -/
theorem Clean.kept {value : Value} (clean : value.Clean) : value.Kept where
  bound := by
    intro call env token name code machine after ended inside
    refine ⟨after.set env name.text value, ?_, fun use named => ?_⟩
    · rw [Stmt.eval, Run.bind_of_ok _ ended]
      rfl
    · rw [Expr.eval, named]
      apply lookup_of_plain clean.plain
      exact (ScopeStore.local?_set ..).trans (if_pos ⟨rfl, rfl, inside⟩)
  passed := by
    intro call closure arguments parameter machine isLast opened use named
    rw [Expr.eval, named]
    apply lookup_of_plain clean.plain
    rw [← Scope.get?_ofArguments_of_isLast isLast]
    exact (ScopeStore.local?_add ..).trans (if_pos rfl)
  listed := by
    intro call env token elements machine before rest after ended small
    have made : (Expr.list token elements).eval call env machine =
        (.ok (.list after.nextRef (before ++ value :: rest)),
          { after with nextRef := after.nextRef + 1 }) := by
      rw [Expr.eval, Run.bind_of_ok _ ended]
      rfl
    exact ⟨_, _, made, indexGives_of_index (index_list small) clean.plain⟩
  mapped := by
    intro call env token pairs machine found after key position key' gives isLast isKey sameHash
    refine ⟨_, _, Expr.eval_map_of_gives token gives, indexGives_of_index ?_ clean.plain⟩
    rw [index_map isKey, sameHash, Assoc.find?_insertAll_of_isLast isLast]
    rfl
  first := rfl
  last := by
    intro ref before machine
    rw [Builtin.invoke_last, List.getLast?_concat]
    rfl
  pushed := ⟨_, _, rfl⟩
  inTail := ⟨_, _, rfl⟩

end Value

/-! ## Comparing -/

namespace Host

end Host

namespace Host

def opened : Host := ⟨.ofScopes #[.empty], [⟨0, []⟩], []⟩

end Host

end Script
