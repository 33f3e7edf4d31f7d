import Script.Proofs.EarlyStops

/-!
# Raising the limit on calls

Code can neither ask how many calls may be nested nor catch the refusal of a call. So a run that the
limit does not stop goes the same way under any higher limit, and a run that it does stop has gone
the first part of the way.
-/

set_option autoImplicit false

namespace Script

namespace Sink

def Precedes (first second : Sink) : Prop := ∃ rest, second.written = first.written ++ rest

theorem Precedes.refl (sink : Sink) : Precedes sink sink :=
  ⟨.empty, ByteArray.append_empty.symm⟩

private theorem precedes_write (sink : Sink) (text : String) :
    Precedes sink (sink.write text).2 := by
  obtain ⟨written, room⟩ := sink
  cases room with
  | none => exact ⟨_, rfl⟩
  | some room =>
      by_cases fits : text.toUTF8.size ≤ room
      · rw [write_of_fits written fits]
        exact ⟨_, rfl⟩
      · rw [write_of_overflows written (Nat.lt_of_not_le fits)]
        exact ⟨_, rfl⟩

theorem Precedes.trans {first second third : Sink} (before : Precedes first second)
    (after : Precedes second third) : Precedes first third := by
  obtain ⟨rest, extended⟩ := before
  obtain ⟨rest', extended'⟩ := after
  rw [extended, ByteArray.append_assoc] at extended'
  exact ⟨rest ++ rest', extended'⟩

end Sink

namespace EarlyStop

/-- A run that is stopped by the limit on calls, and one on the same machine that has a higher
limit. -/
def atCallLimit : EarlyStop where
  inStep := (· = ·)
  behind := Sink.Precedes
  stops cause := ∃ limit, cause = .callDepthExceeded limit
  write text same := by
    subst same
    exact .inl ⟨rfl, rfl⟩
  later text precedes := precedes.trans (Sink.precedes_write _ text)

/-- A refused call is over, while the call under the higher limit can only add to the output. -/
theorem runs_refusal (low : Nat) {run' : Run RuntimeError Value}
    (goesOn : atCallLimit.simulation.GoesOn run') :
    atCallLimit.simulation.Runs () atCallLimit.simulation.single atCallLimit.simulation.failures
      (.throw (.callDepthExceeded low)) run' where
  together machine machine' related := by
    obtain ⟨_, sameSink⟩ := related
    exact .stopped ⟨low, rfl⟩ (goesOn machine' machine.sink (sameSink ▸ Sink.Precedes.refl _))
  goesOn _ := goesOn

private theorem calls_apply_of_le {low high budget budget' : Nat} (more : budget ≤ budget') :
    atCallLimit.simulation.Calls (Value.apply low budget) (Value.apply high budget') := by
  obtain ⟨extra, rfl⟩ := Nat.exists_eq_add_of_le more
  apply Simulation.calls_apply
  intro world ref closure arguments _
  have calls : atCallLimit.simulation.Calls (Value.apply high extra) (Value.apply high extra) :=
    Simulation.calls_apply_self high extra
  have sameArguments : atCallLimit.simulation.several.related world arguments arguments :=
    Simulation.several_self fun _ _ => rfl
  have runs := calls (rfl : Value.function ref closure = _) sameArguments
  exact runs_refusal low (runs.goesOn ⟨.callDepthExceeded low, low, rfl⟩)

private theorem eq_of_atCallLimit {machine machine' : Machine}
    (related : atCallLimit.Machines machine machine') : machine' = machine := by
  obtain ⟨same, sameSink⟩ := related
  rw [same, ← sameSink]

end EarlyStop

/-- Under a higher limit a task ends as before on the same machine, unless the lower limit refused a
call. What was written before the refusal is then the first part of what is written under the higher
limit. -/
theorem Activity.start_of_higher_limit {low high : Nat} (raised : low ≤ high) (task : Task)
    (machine : Machine) :
    ((∀ limit, (start low task machine).finish.1 ≠ .error (.failed (.callDepthExceeded limit))) →
        (start high task machine).finish = (start low task machine).finish) ∧
      ∀ limit, (start low task machine).finish.1 = .error (.failed (.callDepthExceeded limit)) →
        (start low task machine).finish.2.sink.Precedes
          (start high task machine).finish.2.sink := by
  have calls : EarlyStop.atCallLimit.simulation.Calls (Value.apply low (low - machine.depth))
      (Value.apply high (high - machine.depth)) :=
    EarlyStop.calls_apply_of_le (Nat.sub_le_sub_right raised machine.depth)
  have same : EarlyStop.atCallLimit.simulation.tasks () task task :=
    Simulation.tasks_self (fun _ _ => rfl) fun _ _ => rfl
  have ends := (Simulation.runs_task calls same).together machine machine ⟨rfl, rfl⟩
  change EarlyStop.atCallLimit.simulation.Ends () _ _ (start low task machine).finish
    (start high task machine).finish at ends
  generalize (start low task machine).finish = ending at ends
  generalize (start high task machine).finish = ending' at ends
  cases ends with
  | alike _ related alike =>
      rw [EarlyStop.eq_of_atCallLimit related, alike.eq (fun _ _ => EarlyStop.eq_of_outcomes)
        fun _ _ => EarlyStop.eq_of_interrupts]
      exact ⟨fun _ => rfl, fun _ _ => Sink.Precedes.refl _⟩
  | @stopped interrupt _ _ _ isStop behind =>
      constructor
      · intro unrefused
        cases interrupt with
        | returned value => cases isStop
        | failed cause =>
            obtain ⟨limit, rfl⟩ := isStop
            exact absurd rfl (unrefused limit)
      · intro limit _
        exact behind

/-- The function `fn(f) { puts(true); f(f) }`. -/
def Value.printingForever : Value :=
  .function 0 ⟨[⟨.ident, "f"⟩], ⟨⟨.openBrace, "\x7b"⟩,
    [.expr ⟨.ident, "puts"⟩ (.call ⟨.openParen, "("⟩ (.ident ⟨.ident, "puts"⟩)
      [.bool ⟨.kwTrue, "true"⟩ true]),
     .expr ⟨.ident, "f"⟩ (.call ⟨.openParen, "("⟩ (.ident ⟨.ident, "f"⟩)
      [.ident ⟨.ident, "f"⟩])]⟩, ⟨0, []⟩⟩

/-- With the function itself as its argument the lower limit stops the call, and with another
argument it does not. -/
theorem Activity.start_of_higher_limit_printing :
    let started (limit : Nat) (argument : Value) : Activity :=
      start limit (.call .printingForever [argument]) (.ofScopes #[.empty] 1)
    1 ≤ 3 ∧
      (started 1 .printingForever).finish.1 = .error (.failed (.callDepthExceeded 1)) ∧
      (started 1 .printingForever).finish.2.sink.Precedes
        (started 3 .printingForever).finish.2.sink ∧
      (started 3 .null).finish = (started 1 .null).finish := by
  intro started
  have raised : 1 ≤ 3 := by decide
  have refused : (started 1 .printingForever).finish.1 =
      .error (.failed (.callDepthExceeded 1)) := rfl
  have unrefused : ∀ limit, (started 1 .null).finish.1 ≠
      .error (.failed (.callDepthExceeded limit)) := by
    intro limit same
    have failed : (started 1 .null).finish.1 = .error (.failed (.notCallable .null)) := rfl
    rw [failed] at same
    cases same
  exact ⟨raised, refused, (start_of_higher_limit raised _ _).2 1 refused,
    (start_of_higher_limit raised _ _).1 unrefused⟩

end Script
