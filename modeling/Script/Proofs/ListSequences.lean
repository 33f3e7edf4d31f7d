import Mathlib.Algebra.Group.Nat.Defs
import Script.Proofs.MapLiterals

/-!
# Lists as sequences

The built-in functions on lists, `len` and indexing are written apart, each with an answer of its
own for an empty list or for a position outside of the list. They describe one sequence all the
same: the items that indexing finds are the first items of the tails, `push` adds one item behind
the others, and the first items of the tails, pushed one after the other, make up the list again.
All that they do to the machine is to make values, so that a list stays what it is.
-/

set_option autoImplicit false

namespace Script

/-! ## Making values and nothing else -/

namespace Machine

/-- The machine after so many values were made: scopes, output and active calls are the same. -/
def advance (machine : Machine) (made : Nat) : Machine :=
  { machine with nextRef := machine.nextRef + made }

@[simp]
theorem advance_advance (machine : Machine) (made made' : Nat) :
    (machine.advance made).advance made' = machine.advance (made + made') := by
  simp only [advance, Nat.add_assoc]

end Machine

private theorem lookup_advance (env : Env) (name : String) (machine : Machine) (made : Nat) :
    lookup env name (machine.advance made) =
      ((lookup env name machine).1, machine.advance made) := by
  have same : (machine.advance made).get? env name = machine.get? env name := rfl
  unfold lookup
  rw [same]
  cases machine.get? env name with
  | none => cases Builtin.ofName? name <;> rfl
  | some value => cases value <;> rfl

namespace Builtin

/-- Only `puts` does more than to make values, whatever the arguments are. -/
theorem invoke_advances {native : Builtin} (silent : native ≠ .puts) (arguments : List Value)
    (machine : Machine) : ∃ made, (native.invoke arguments machine).2 = machine.advance made := by
  unfold invoke
  split
  · exact ⟨0, rfl⟩
  · exact ⟨0, rfl⟩
  · cases onlyList tail arguments with
    | error cause => exact ⟨0, rfl⟩
    | ok items =>
        cases items with
        | nil => exact ⟨0, rfl⟩
        | cons item rest => exact ⟨1, rfl⟩
  · next list value =>
    cases listItems push list with
    | error cause => exact ⟨0, rfl⟩
    | ok items => exact ⟨1, rfl⟩
  · exact ⟨0, rfl⟩
  · exact ⟨0, rfl⟩
  · exact absurd rfl silent

/-! ## The functions on a list -/

section

variable (ref : Ref) (items rest : List Value) (value : Value) (machine : Machine)

theorem invoke_first :
    first.invoke [.list ref items] machine = (.ok (items.head?.getD .null), machine) := rfl

theorem invoke_last :
    last.invoke [.list ref items] machine = (.ok (items.getLast?.getD .null), machine) := rfl

theorem invoke_len :
    len.invoke [.list ref items] machine =
      (.ok (.int (Int64.ofNat items.length)), machine) := rfl

theorem invoke_tail_cons :
    tail.invoke [.list ref (value :: rest)] machine =
      (.ok (.list machine.nextRef rest), machine.advance 1) := rfl

theorem invoke_push :
    push.invoke [.list ref items, value] machine =
      (.ok (.list machine.nextRef (items ++ [value])), machine.advance 1) := rfl

end

/-! ## Tails of tails -/

def tails : Nat → Value → Run RuntimeError Value
  | 0, list => pure list
  | count + 1, list => do
      let rest ← tail.invoke [list]
      tails count rest

def firstOfTails (count : Nat) (list : Value) : Run RuntimeError Value := do
  let rest ← tails count list
  first.invoke [rest]

/-- Push so many items to `target`: the first one of `list`, the first one of its tail, and so
on. -/
def rebuild (list target : Value) : Nat → Run RuntimeError Value
  | 0 => pure target
  | count + 1 => do
      let built ← rebuild list target count
      let item ← firstOfTails count list
      push.invoke [built, item]

/-- Each tail drops one item and is a new list. -/
theorem tails_list {count : Nat} {items : List Value} (enough : count ≤ items.length) (ref : Ref)
    (machine : Machine) :
    ∃ ref', tails count (.list ref items) machine =
      (.ok (.list ref' (items.drop count)), machine.advance count) := by
  -- The next `tail` starts from a new list and a later machine.
  induction count generalizing ref items machine with
  | zero => exact ⟨ref, rfl⟩
  | succ count ih =>
      cases items with
      | nil => cases enough
      | cons item rest =>
          have enoughRest : count ≤ rest.length := Nat.le_of_succ_le_succ enough
          obtain ⟨ref', ended⟩ := ih enoughRest machine.nextRef (machine.advance 1)
          refine ⟨ref', ?_⟩
          rw [tails, Run.bind_of_ok _ (invoke_tail_cons ref rest item machine), ended,
            Machine.advance_advance, Nat.add_comm 1 count, List.drop_succ_cons]

/-- The item at any place of a list is the first one after that many tails. -/
theorem firstOfTails_list {count : Nat} {items : List Value} (inside : count < items.length)
    (ref : Ref) (machine : Machine) :
    firstOfTails count (.list ref items) machine =
      (.ok (items.get ⟨count, inside⟩), machine.advance count) := by
  obtain ⟨ref', ended⟩ := tails_list (Nat.le_of_lt inside) ref machine
  rw [firstOfTails, Run.bind_of_ok _ ended, invoke_first, List.head?_drop,
    List.getElem?_eq_getElem inside]
  rfl

/-- After so many items were pushed, these are the first ones of the list. -/
theorem rebuild_list {count : Nat} {items : List Value} (enough : count ≤ items.length)
    (ref empty : Ref) (machine : Machine) :
    ∃ ref' made, rebuild (.list ref items) (.list empty []) count machine =
      (.ok (.list ref' (items.take count)), machine.advance made) := by
  induction count with
  | zero => exact ⟨empty, 0, rfl⟩
  | succ count ih =>
      obtain ⟨built, made, ended⟩ := ih (Nat.le_of_succ_le enough)
      have item := firstOfTails_list enough ref (machine.advance made)
      have longer : items.take count ++ [items.get ⟨count, enough⟩] = items.take (count + 1) :=
        List.take_append_getElem enough
      refine ⟨(machine.advance (made + count)).nextRef, made + count + 1, ?_⟩
      rw [rebuild, Run.bind_of_ok _ ended, Run.bind_of_ok _ item, invoke_push, longer,
        Machine.advance_advance, Machine.advance_advance]

end Builtin

/-! ## Positions -/

section

variable {items : List Value} {position : Int64}

theorem itemAt_of_inside (natural : 0 ≤ position.toInt)
    (inside : position.toInt.toNat < items.length) :
    itemAt items position = items.get ⟨position.toInt.toNat, inside⟩ := by
  have notNegative : ¬ position < 0 := by
    rw [Int64.lt_iff_toInt_lt]
    exact Int.not_lt.mpr natural
  rw [itemAt, if_neg notNegative, List.getElem?_eq_getElem inside]
  rfl

private theorem itemAt_of_outside (outside : position.toInt < 0 ∨ items.length ≤ position.toInt) :
    itemAt items position = .null := by
  rw [itemAt]
  split
  · rfl
  · next notNegative =>
    rw [Int64.lt_iff_toInt_lt] at notNegative
    have beyond : items.length ≤ position.toInt.toNat := by
      rcases outside with negative | beyond
      · exact absurd negative notNegative
      · exact (Int.le_toNat (Int.not_lt.mp notNegative)).mpr beyond
    rw [List.getElem?_eq_none beyond]
    rfl

end

namespace Value

/-! ## The sequence of a list -/

/-- What the functions say of `longer`, which `push` made from `list`, a list of the given items,
and the value. -/
structure Pushed (list : Value) (items : List Value) (value longer : Value) : Prop where
  len (machine : Machine) :
    Builtin.len.invoke [longer] machine =
      (.ok (.int (Int64.ofNat (items.length + 1))), machine)
  /-- Lengths are 64-bit integers. -/
  len_toInt :
    items.length + 1 < 2 ^ 63 → (Int64.ofNat (items.length + 1)).toInt = items.length + 1
  last (machine : Machine) : Builtin.last.invoke [longer] machine = (.ok value, machine)
  first (machine : Machine) : 0 < items.length → ∃ item,
    Builtin.first.invoke [list] machine = (.ok item, machine) ∧
    Builtin.first.invoke [longer] machine = (.ok item, machine)
  first_of_empty (machine : Machine) : items.length = 0 →
    Builtin.first.invoke [longer] machine = (.ok value, machine)
  /-- The tail comes out the same when the value is pushed to the tail instead. -/
  tail (machine : Machine) : 0 < items.length → ∃ rest,
    Builtin.tail.invoke [list] machine = (.ok rest, machine.advance 1) ∧
    ∀ later, ∃ both,
      Builtin.tail.invoke [longer] later = (.ok both, later.advance 1) ∧
      Builtin.push.invoke [rest, value] later = (.ok both, later.advance 1)
  tail_of_empty (machine : Machine) : items.length = 0 →
    Builtin.tail.invoke [longer] machine = (.ok (.list machine.nextRef []), machine.advance 1)

private theorem pushed_list (ref ref' : Ref) (items : List Value) (value : Value) :
    Pushed (.list ref items) items value (.list ref' (items ++ [value])) where
  len machine := by
    rw [Builtin.invoke_len, List.length_append]
    rfl
  len_toInt := Int64.toInt_ofNat_of_lt
  last machine := by
    rw [Builtin.invoke_last, List.getLast?_concat]
    rfl
  first machine nonempty := by
    cases items with
    | nil => exact absurd nonempty (Nat.lt_irrefl 0)
    | cons item rest => exact ⟨item, rfl, rfl⟩
  first_of_empty machine isEmpty := by
    obtain rfl := List.length_eq_zero_iff.mp isEmpty
    rfl
  tail machine nonempty := by
    cases items with
    | nil => exact absurd nonempty (Nat.lt_irrefl 0)
    | cons item rest =>
        refine ⟨_, Builtin.invoke_tail_cons ref rest item machine, fun later => ?_⟩
        exact ⟨.list later.nextRef (rest ++ [value]), rfl, rfl⟩
  tail_of_empty machine isEmpty := by
    obtain rfl := List.length_eq_zero_iff.mp isEmpty
    rfl

structure Sequence (list : Value) (items : List Value) : Prop where
  len (machine : Machine) :
    Builtin.len.invoke [list] machine = (.ok (.int (Int64.ofNat items.length)), machine)
  /-- Indexing uses the very item that the functions reach as its result, like a call that gives
  the item. -/
  index_inside (position : Int64) (machine : Machine) :
    0 ≤ position.toInt → position.toInt < items.length → ∃ item,
      items[position.toInt.toNat]? = some item ∧
      list.IndexRuns (.int position) (Run.settle item) ∧
      Builtin.firstOfTails position.toInt.toNat list machine =
        (.ok item, machine.advance position.toInt.toNat)
  index_outside (position : Int64) : position.toInt < 0 ∨ items.length ≤ position.toInt →
    list.IndexGives (.int position) .null
  push (value : Value) (machine : Machine) : ∃ longer,
    Builtin.push.invoke [list, value] machine = (.ok longer, machine.advance 1) ∧
    Pushed list items value longer
  /-- The first items of the tails, pushed to an empty list, make up the list again. -/
  rebuild (empty : Ref) (machine : Machine) : ∃ ref made,
    Builtin.rebuild list (.list empty []) items.length machine =
      (.ok (.list ref items), machine.advance made)
  /-- A call with any arguments makes values at most, and leaves the list under each of its
  names. -/
  unchanged (native : Builtin) (arguments : List Value) (machine : Machine) : native ≠ .puts →
    ∃ made, (native.invoke arguments machine).2 = machine.advance made ∧
      ∀ (call : Caller) (env : Env) (token : Token),
        (Expr.ident token).eval call env machine = (.ok list, machine) →
        (Expr.ident token).eval call env (machine.advance made) =
          (.ok list, machine.advance made)

/-- Lists are sequences, of any length and with any items. -/
theorem list_sequence (ref : Ref) (items : List Value) : Sequence (.list ref items) items where
  len := Builtin.invoke_len ref items
  index_inside position machine natural below := by
    have inside : position.toInt.toNat < items.length := by omega
    refine ⟨items.get ⟨_, inside⟩, List.getElem?_eq_getElem inside, ?_,
      Builtin.firstOfTails_list inside ref machine⟩
    apply indexRuns_of_index
    rw [Value.index, itemAt_of_inside natural inside]
  index_outside position outside := by
    refine indexGives_of_index ?_ (by decide)
    rw [Value.index, itemAt_of_outside outside]
  push value machine :=
    ⟨_, Builtin.invoke_push ref items value machine, pushed_list ref _ items value⟩
  rebuild empty machine := by
    obtain ⟨ref', made, ended⟩ := Builtin.rebuild_list (Nat.le_refl _) ref empty machine
    rw [List.take_length] at ended
    exact ⟨ref', made, ended⟩
  unchanged native arguments machine silent := by
    obtain ⟨made, ended⟩ := Builtin.invoke_advances silent arguments machine
    refine ⟨made, ended, fun call env token given => ?_⟩
    rw [Expr.eval] at given ⊢
    rw [lookup_advance, given]

end Value

def nestedList : Expr :=
  .list ⟨.openBracket, "["⟩ [.int ⟨.int, "7"⟩ 7, .list ⟨.openBracket, "["⟩ []]

/-- The inner list is found at its position and by the tail, and nothing before the start. -/
theorem Value.list_sequence_nested :
    (Expr.index ⟨.openBracket, "["⟩ nestedList (.int ⟨.int, "1"⟩ 1)).eval (Value.apply 0 0) ⟨0, []⟩
        (Machine.start (.empty none)) =
      (.ok (.list 0 []), (Machine.start (.empty none)).advance 2) ∧
    Builtin.firstOfTails 1 (.list 1 [.int 7, .list 0 []]) (Machine.start (.empty none)) =
      (.ok (.list 0 []), (Machine.start (.empty none)).advance 1) ∧
    (Expr.index ⟨.openBracket, "["⟩ nestedList
          (.unary ⟨.minus, "-"⟩ .neg (.int ⟨.int, "1"⟩ 1))).eval (Value.apply 0 0) ⟨0, []⟩
        (Machine.start (.empty none)) =
      (.ok .null, (Machine.start (.empty none)).advance 2) := by
  have sequence := Value.list_sequence 1 [.int 7, .list 0 []]
  obtain ⟨item, found, uses, reached⟩ :=
    sequence.index_inside 1 (Machine.start (.empty none)) (by decide) (by decide)
  cases found
  refine ⟨uses _ _ _ _ _ _ _ _ rfl rfl, reached, ?_⟩
  exact sequence.index_outside (-1) (.inl (by decide)) _ _ _ _ _ _ _ _ rfl rfl

end Script
