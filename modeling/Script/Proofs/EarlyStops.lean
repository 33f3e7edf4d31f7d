import Script.Proofs.SimulatedRuns

/-!
# Runs that stop early

The same code runs on two machines that differ in their sinks at most. Both runs go the same way,
until the first one may be stopped by a failure that the second does not meet. Nothing catches a
failure, so that the first run is over then, while whatever the second goes on to do can only add to
its output.

What the sinks have in common, before and after the first run is stopped, and which failures stop
it, is left open. The rules need to know about writing only.
-/

set_option autoImplicit false

namespace Script

/-- A way in which one run can be stopped before another one. -/
structure EarlyStop where
  /-- The sinks of two runs that have gone the same way. -/
  inStep : Sink → Sink → Prop
  /-- The sink of a run that was stopped, and that of the run that went on. -/
  behind : Sink → Sink → Prop
  stops : RuntimeError → Prop
  write {sink sink' : Sink} (text : String) : inStep sink sink' →
    (sink.write text).1 = (sink'.write text).1 ∧
        inStep (sink.write text).2 (sink'.write text).2 ∨
      ∃ cause, (sink.write text).1 = .error cause ∧ stops (.output cause) ∧
        behind (sink.write text).2 (sink'.write text).2
  later {sink sink' : Sink} (text : String) : behind sink sink' → behind sink (sink'.write text).2

namespace EarlyStop

variable (S : EarlyStop)

def Machines (machine machine' : Machine) : Prop :=
  machine' = { machine with sink := machine'.sink } ∧ S.inStep machine.sink machine'.sink

def simulation : Simulation where
  World := Unit
  grows _ _ := True
  opens _ _ := True
  values _ := (· = ·)
  envs _ := (· = ·)
  machines _ := S.Machines
  stops := S.stops
  behind := S.behind
  grows_refl _ := trivial
  grows_trans _ _ := trivial
  values_grow _ same := same
  envs_grow _ same := same
  atoms _ := rfl
  alike same := same ▸ .self fun _ _ => rfl
  identical_eq same same' := by rw [same, same']
  render_eq related same := by rw [related.1, same]
  get? {_ machine _ env _} name related sameEnv := by
    rw [related.1, ← sameEnv]
    exact (machine.get? env name).rec .none fun _ => .some rfl
  set name related sameEnv same := by
    obtain ⟨sameMachine, inStep⟩ := related
    rw [sameMachine, sameEnv, same]
    exact ⟨rfl, inStep⟩
  make := by
    intro _ machine machine' value value' related made
    obtain ⟨sameMachine, inStep⟩ := related
    have sameRef : machine.nextRef = machine'.nextRef := by rw [sameMachine]
    rw [← sameRef] at made ⊢
    refine ⟨(), trivial, made.eq, ?_, inStep⟩
    rw [sameMachine]
  write {_ machine machine'} text related := by
    obtain ⟨sameMachine, inStep⟩ := related
    rcases S.write text inStep with ⟨sameEnd, inStep'⟩ | stopped
    · have sameAfter := congrArg (fun machine => (Run.write text machine).2) sameMachine
      exact .inl ⟨sameEnd, sameAfter, inStep'⟩
    · exact .inr stopped
  later := S.later
  enter related same sameArguments := by
    obtain ⟨sameMachine, inStep⟩ := related
    cases same
    rw [List.forall₂_eq_eq_eq] at sameArguments
    subst sameArguments
    rw [sameMachine]
    exact ⟨(), trivial, rfl, rfl, inStep⟩
  leave _ _ related := by
    obtain ⟨sameMachine, inStep⟩ := related
    exact ⟨(), trivial, ⟨congrArg Machine.leaveCall sameMachine, inStep⟩, fun _ _ same => same⟩
  values_self _ _ _ := rfl
  envs_self _ _ _ := rfl

variable {S}

theorem eq_of_optional {result result' : Option Value}
    (same : S.simulation.optional.related () result result') : result = result' := by
  cases same with
  | none => rfl
  | some same => exact congrArg some same

/-- As long as no run is stopped the outcomes are not merely alike: they are equal. -/
theorem eq_of_outcomes {outcome outcome' : Outcome}
    (same : S.simulation.outcomes.related () outcome outcome') : outcome = outcome' := by
  cases same with
  | value same => exact congrArg Outcome.value same
  | values same => exact congrArg Outcome.values (List.forall₂_eq_eq_eq ▸ same)
  | entries same =>
      have same : List.Forall₂ (EntryRel (· = ·)) _ _ := same
      rw [entryRel_eq, List.forall₂_eq_eq_eq] at same
      exact congrArg Outcome.entries same
  | last same => exact congrArg Outcome.last (eq_of_optional same)

theorem eq_of_interrupts {interrupt interrupt' : Interrupt}
    (same : S.simulation.interrupts.related () interrupt interrupt') : interrupt = interrupt' := by
  cases same with
  | failed => rfl
  | returned same => exact congrArg Interrupt.returned same

end EarlyStop

end Script
