import Script.Proofs.EarlyStops
import Script.Repl

/-!
# Output that is cut off

A sink with limited room takes the first bytes of the output and refuses the others. A program on
such a sink writes what it would write on a sink without a limit, up to the byte where the room
ends, and if there are more bytes to come it fails. In a session the failure of a program is a value
that is shown, but showing it needs room too, so that the session fails as well.
-/

set_option autoImplicit false

namespace Script

/-! ## Sinks with limited room -/

namespace Sink

variable {out more : ByteArray} {room : Nat}

theorem extract_of_size_le (fits : out.size ≤ room) : out.extract 0 room = out := by
  rw [← Nat.max_eq_left fits]
  exact ByteArray.extract_zero_max_size

theorem extract_append_of_le (filled : room ≤ out.size) :
    (out ++ more).extract 0 room = out.extract 0 room := by
  simp [ByteArray.extract_append, Nat.sub_eq_zero_of_le filled]

theorem extract_append_of_size_le (unfilled : out.size ≤ room) :
    (out ++ more).extract 0 room = out ++ more.extract 0 (room - out.size) := by
  rw [ByteArray.extract_append, extract_of_size_le unfilled, Nat.zero_sub]

theorem toUTF8_append (first second : String) :
    (first ++ second).toUTF8 = first.toUTF8 ++ second.toUTF8 :=
  String.toByteArray_append

private theorem write_empty (sink : Sink) : sink.write "" = (.ok (), sink) := by
  obtain ⟨written, room⟩ := sink
  have nothing : written ++ "".toUTF8 = written := ByteArray.append_empty
  cases room with
  | none => rw [write_unlimited, nothing]
  | some room =>
      rw [write_of_fits written (Nat.zero_le room), nothing]
      rfl

/-- Where a text is cut in two does not matter to a sink. -/
theorem write_append (sink : Sink) (first second : String) :
    sink.write (first ++ second) =
      match sink.write first with
      | (.ok (), sink) => sink.write second
      | (.error cause, sink) => (.error cause, sink) := by
  obtain ⟨written, room⟩ := sink
  have both : (first ++ second).toUTF8.size = first.toUTF8.size + second.toUTF8.size := by
    rw [toUTF8_append, ByteArray.size_append]
  cases room with
  | none => simp only [write_unlimited, toUTF8_append, ByteArray.append_assoc]
  | some room =>
      by_cases firstFits : first.toUTF8.size ≤ room
      · rw [write_of_fits written firstFits]
        dsimp only
        by_cases secondFits : second.toUTF8.size ≤ room - first.toUTF8.size
        · have fits : (first ++ second).toUTF8.size ≤ room := by omega
          rw [write_of_fits _ fits, write_of_fits _ secondFits, both, toUTF8_append,
            ByteArray.append_assoc, Nat.sub_sub]
        · have overflows : room < (first ++ second).toUTF8.size := by omega
          rw [write_of_overflows _ overflows, write_of_overflows _ (Nat.lt_of_not_le secondFits),
            toUTF8_append, extract_append_of_size_le firstFits, ByteArray.append_assoc]
      · have firstOverflows := Nat.lt_of_not_le firstFits
        have overflows : room < (first ++ second).toUTF8.size := by omega
        rw [write_of_overflows _ firstOverflows, write_of_overflows _ overflows, toUTF8_append,
          extract_append_of_le (Nat.le_of_lt firstOverflows)]

end Sink

def Run.writeEach : List String → Run StreamError Unit
  | [] => pure ()
  | text :: rest => do
      Run.write text
      Run.writeEach rest

/-- It makes no difference whether a text is written at once or in pieces. -/
theorem Run.writeEach_eq_write (pieces : List String) :
    Run.writeEach pieces = Run.write (pieces.foldr (· ++ ·) "") := by
  induction pieces with
  | nil =>
      funext machine
      simp only [writeEach, List.foldr_nil, write, Sink.write_empty]
      rfl
  | cons text rest ih =>
      funext machine
      rw [writeEach, ih, bind_apply, List.foldr_cons]
      simp only [write, Sink.write_append]
      cases machine.sink.write text with
      | mk result sink => cases result <;> rfl

/-! ## Comparing the runs -/

namespace EarlyStop

/-- A run with `room` for bytes beside the `earlier` ones, and one without a limit. -/
def whenFull (earlier : ByteArray) (room : Nat) : EarlyStop where
  inStep sink sink' := ∃ out : ByteArray, out.size ≤ room ∧
    sink = ⟨earlier ++ out, some (room - out.size)⟩ ∧ sink' = ⟨earlier ++ out, none⟩
  behind sink sink' := ∃ out : ByteArray, room < out.size ∧
    sink = ⟨earlier ++ out.extract 0 room, some 0⟩ ∧ sink' = ⟨earlier ++ out, none⟩
  stops cause := cause = .output .full
  write := by
    rintro _ _ text ⟨out, unfilled, rfl, rfl⟩
    rw [Sink.write_unlimited, ByteArray.append_assoc]
    by_cases fits : text.toUTF8.size ≤ room - out.size
    · rw [Sink.write_of_fits _ fits, ByteArray.append_assoc, Nat.sub_sub]
      refine .inl ⟨rfl, out ++ text.toUTF8, ?_, ?_, rfl⟩
      · rw [ByteArray.size_append]
        omega
      · rw [ByteArray.size_append]
    · have overflows := Nat.lt_of_not_le fits
      rw [Sink.write_of_overflows _ overflows]
      refine .inr ⟨.full, rfl, rfl, out ++ text.toUTF8, ?_, ?_, rfl⟩
      · rw [ByteArray.size_append]
        omega
      · rw [Sink.extract_append_of_size_le unfilled, ByteArray.append_assoc]
  later := by
    rintro _ _ text ⟨out, overfull, rfl, rfl⟩
    refine ⟨out ++ text.toUTF8, ?_, ?_, ?_⟩
    · rw [ByteArray.size_append]
      omega
    · rw [Sink.extract_append_of_le (Nat.le_of_lt overfull)]
    · rw [Sink.write_unlimited, ByteArray.append_assoc]

variable {S : EarlyStop} {earlier : ByteArray} {room : Nat} {ε α : Type}

theorem runs_withLimit {good : S.simulation.Results α} {bad : S.simulation.Exceptions ε}
    (limit : Nat) {body : Caller → Run ε α}
    (runs : ∀ budget, S.simulation.Runs () good bad (body (Value.apply limit budget))
      (body (Value.apply limit budget))) :
    S.simulation.Runs () good bad (Run.withLimit limit body) (Run.withLimit limit body) where
  together machine machine' related := by
    have sameDepth : machine'.depth = machine.depth := by rw [related.1]
    unfold Run.withLimit
    rw [sameDepth]
    exact (runs _).together machine machine' related
  goesOn stopping machine := (runs _).goesOn stopping machine

/-- A program goes side by side with itself under every early stop, whatever it is that stops it. -/
theorem runs_program (limit : Nat) (env : Env) (program : Program) :
    S.simulation.Runs () S.simulation.optional S.simulation.failures (program.run limit env)
      (program.run limit env) := by
  apply runs_withLimit
  intro budget
  have calls : S.simulation.Calls (Value.apply limit budget) (Value.apply limit budget) :=
    Simulation.calls_apply_self limit budget
  exact (Simulation.runs_stmts calls program.statements rfl .none).catchReturn some
    fun _ _ _ => .some

/-- How runs of programs end alike is the same for both. -/
theorem eq_of_endAlike {ending ending' : Except RuntimeError (Option Value)}
    (ends : Run.EndAlike (S.simulation.optional.related ()) (S.simulation.failures.related ())
      ending ending') : ending = ending' :=
  ends.eq (fun _ _ => eq_of_optional) fun _ _ same => same

end EarlyStop

/-! ## Sessions -/

namespace Repl

def display : Option Value → Run StreamError Unit
  | none | some .null => pure ()
  | some value => Run.writeLine value

theorem evalLine_of_ok {line : String} {program : Program} (env : Env)
    (parsed : Program.ofSource line = .ok program) (machine : Machine) :
    evalLine env line machine =
      match program.run defaultCallLimit env machine with
      | (.ok value, after) => display value after
      | (.error cause, after) => display (some (.error cause)) after := by
  rw [evalLine, parsed]
  dsimp only [Program.evaluate]
  cases program.run defaultCallLimit env machine with
  | mk result after =>
      cases result with
      | error cause => rfl
      | ok value =>
          cases value with
          | none => rfl
          | some value => cases value <;> rfl

end Repl

namespace EarlyStop

variable {S : EarlyStop} {earlier : ByteArray} {room : Nat}

theorem runs_display (value : Option Value) :
    S.simulation.Runs () S.simulation.nothing S.simulation.streamErrors (Repl.display value)
      (Repl.display value) := by
  unfold Repl.display
  split
  · exact Simulation.runs_pure trivial
  · exact Simulation.runs_pure trivial
  · exact Simulation.runs_writeLine rfl

/-- A program that was stopped leaves no room to show its failure. -/
theorem display_failure_of_behind {machine machine' : Machine} (cause : RuntimeError)
    (behind : (whenFull earlier room).behind machine.sink machine'.sink) :
    Repl.display (some (.error cause)) machine = (.error .full, machine) := by
  obtain ⟨store, nextRef, sink, depth, arrangement⟩ := machine
  obtain ⟨out, _, rfl, _⟩ := behind
  have overflows : 0 < ((Value.error cause).render arrangement ++ "\n").toUTF8.size := by
    rw [Sink.toUTF8_append, ByteArray.size_append]
    exact Nat.lt_of_lt_of_le Nat.zero_lt_one (Nat.le_add_left _ _)
  have shown : Repl.display (some (.error cause)) = Run.writeLine (.error cause) := rfl
  rw [shown, Run.writeLine, Run.write, Sink.write_of_overflows _ overflows, ByteArray.extract_same,
    ByteArray.append_empty]

theorem runs_evalLine (env : Env) (line : String) :
    (whenFull earlier room).simulation.Runs () (whenFull earlier room).simulation.nothing
      (whenFull earlier room).simulation.streamErrors (Repl.evalLine env line)
      (Repl.evalLine env line) := by
  cases parsed : Program.ofSource line with
  | error errors =>
      rw [Repl.evalLine, parsed]
      exact Simulation.runs_write _
  | ok program =>
      have runs : (whenFull earlier room).simulation.Runs _ _ _ _ _ :=
        runs_program defaultCallLimit env program
      have shows (value : Option Value) : (whenFull earlier room).simulation.Runs _ _ _ _ _ :=
        runs_display value
      constructor
      case together =>
        intro machine machine' related
        have ends := runs.together machine machine' related
        rw [Repl.evalLine_of_ok env parsed, Repl.evalLine_of_ok env parsed]
        generalize program.run defaultCallLimit env machine = ending at ends
        generalize program.run defaultCallLimit env machine' = ending' at ends
        cases ends with
        | @alike _ ending _ after after' _ related' same =>
            cases eq_of_endAlike same
            cases ending with
            | ok value => exact (shows value).together after after' related'
            | error cause => exact (shows (some (.error cause))).together after after' related'
        | @stopped cause ending' after after' isStop behind =>
            have stopping : (whenFull earlier room).simulation.Stopping := ⟨cause, isStop⟩
            dsimp only
            rw [display_failure_of_behind cause behind]
            cases ending' with
            | ok value => exact .stopped rfl ((shows value).goesOn stopping after' _ behind)
            | error cause' =>
                have behind' := (shows (some (.error cause'))).goesOn stopping after' _ behind
                exact .stopped rfl behind'
      case goesOn =>
        intro stopping machine sink behind
        have behind' := runs.goesOn stopping machine sink behind
        rw [Repl.evalLine_of_ok env parsed]
        cases ended : program.run defaultCallLimit env machine with
        | mk ending after =>
            rw [ended] at behind'
            cases ending with
            | ok value => exact (shows value).goesOn stopping after sink behind'
            | error cause => exact (shows (some (.error cause))).goesOn stopping after sink behind'

variable (S) in
def next : S.simulation.Results Repl.Next := ⟨fun _ => (· = ·), fun _ _ _ => rfl⟩

theorem runs_close :
    S.simulation.Runs () S.next S.simulation.streamErrors Repl.close Repl.close :=
  (Simulation.runs_write _).bind fun _ _ _ _ _ => Simulation.runs_pure rfl

theorem runs_answer (env : Env) (line : Option (List UInt8)) :
    (whenFull earlier room).simulation.Runs () (whenFull earlier room).next
      (whenFull earlier room).simulation.streamErrors (Repl.answer env line)
      (Repl.answer env line) := by
  unfold Repl.answer
  split
  · exact runs_close
  · split
    · exact Simulation.runs_throw rfl
    · split
      · exact Simulation.runs_pure rfl
      · exact runs_close
      · exact (runs_evalLine env _).bind fun _ _ _ _ _ => Simulation.runs_pure rfl

/-- A session that has little room goes side by side with one that has no limit, by induction on its
lines. -/
theorem runs_session (env : Env) (lines : List (List UInt8)) :
    (whenFull earlier room).simulation.Runs () (whenFull earlier room).simulation.nothing
      (whenFull earlier room).simulation.streamErrors (Repl.run env lines)
      (Repl.run env lines) := by
  induction lines with
  | nil =>
      apply (Simulation.runs_write _).bind
      intro _ _ _ _ _
      exact (runs_answer env none).bind fun _ _ _ _ _ => Simulation.runs_pure trivial
  | cons line rest ih =>
      rw [Repl.run]
      apply (Simulation.runs_write _).bind
      intro _ _ _ _ _
      apply (runs_answer env (some line)).bind
      intro _ _ next _ same
      cases same
      cases next with
      | more => exact ih
      | stop => exact Simulation.runs_pure trivial

end EarlyStop

/-- With room for a number of bytes the run writes the first ones of what it writes without a limit.
When these are all, it goes the same way, and else it ends with the exception `overflow`. -/
def Run.CutsOutput {ε α : Type} (run : Run ε α) (overflow : ε) : Prop :=
  ∀ (machine : Machine) (earlier : ByteArray) (room : Nat),
    let unlimited := run { machine with sink := ⟨earlier, none⟩ }
    let limited := run { machine with sink := ⟨earlier, some room⟩ }
    ∃ out : ByteArray,
      unlimited.2.sink = ⟨earlier ++ out, none⟩ ∧
        limited.2.sink = ⟨earlier ++ out.extract 0 room, some (room - out.size)⟩ ∧
        (out.size ≤ room →
          limited.1 = unlimited.1 ∧ { limited.2 with sink := unlimited.2.sink } = unlimited.2) ∧
        (room < out.size → limited.1 = .error overflow)

/-- Where the sink of the first run is full, it has the first bytes of what the second writes. -/
theorem EarlyStop.cutsOutput_of_runs {ε α : Type} {run : Run ε α} {overflow : ε}
    {good : ∀ earlier room, (whenFull earlier room).simulation.Results α}
    {bad : ∀ earlier room, (whenFull earlier room).simulation.Exceptions ε}
    (runs : ∀ earlier room, (whenFull earlier room).simulation.Runs () (good earlier room)
      (bad earlier room) run run)
    (sameEnd : ∀ earlier room ending ending', Run.EndAlike ((good earlier room).related ())
      ((bad earlier room).related ()) ending ending' → ending = ending')
    (isOverflow : ∀ earlier room exception, (bad earlier room).stops exception →
      exception = overflow) : run.CutsOutput overflow := by
  intro machine earlier room
  dsimp only
  have started : (whenFull earlier room).inStep ⟨earlier, some room⟩ ⟨earlier, none⟩ :=
    ⟨.empty, Nat.zero_le room, by rw [ByteArray.append_empty]; rfl, by rw [ByteArray.append_empty]⟩
  have ends := (runs earlier room).together { machine with sink := ⟨earlier, some room⟩ }
    { machine with sink := ⟨earlier, none⟩ } ⟨rfl, started⟩
  generalize run { machine with sink := ⟨earlier, some room⟩ } = limited at ends
  generalize run { machine with sink := ⟨earlier, none⟩ } = unlimited at ends
  cases ends with
  | alike _ related alike =>
      obtain ⟨same, out, fits, limitedSink, unlimitedSink⟩ := related
      refine ⟨out, unlimitedSink, ?_, fun _ => ⟨sameEnd _ _ _ _ alike, same.symm⟩,
        fun overflows => ?_⟩
      · rw [Sink.extract_of_size_le fits]
        exact limitedSink
      · exact absurd fits (Nat.not_le_of_lt overflows)
  | stopped isStop behind =>
      obtain ⟨out, overflows, limitedSink, unlimitedSink⟩ := behind
      refine ⟨out, unlimitedSink, ?_, fun fits => ?_, fun _ => ?_⟩
      · rw [Nat.sub_eq_zero_of_le (Nat.le_of_lt overflows)]
        exact limitedSink
      · exact absurd fits (Nat.not_le_of_lt overflows)
      · rw [isOverflow _ _ _ isStop]

/-- A full sink cuts the output of programs and of sessions exactly where its room ends and makes
them fail, in whatever pieces the output is written. -/
theorem Sink.full_cuts_output :
    (∀ limit env program, (Program.run limit env program).CutsOutput (.output .full)) ∧
      (∀ env input, (Repl.runInput env input).CutsOutput .full) ∧
      RuntimeError.message (.output .full) = "could not write output: sink full" ∧
      StreamError.message .full = "sink full" ∧
      ∀ pieces, Run.writeEach pieces = Run.write (pieces.foldr (· ++ ·) "") := by
  refine ⟨fun limit env program => ?_, fun env input => ?_, by decide, rfl,
    Run.writeEach_eq_write⟩
  · exact EarlyStop.cutsOutput_of_runs (fun _ _ => EarlyStop.runs_program limit env program)
      (fun _ _ _ _ => EarlyStop.eq_of_endAlike) fun _ _ _ isStop => isStop
  · exact EarlyStop.cutsOutput_of_runs (fun _ _ => EarlyStop.runs_session env _)
      (fun _ _ _ _ same => same.eq (fun _ _ _ => rfl) fun _ _ same => same)
      fun _ _ _ isStop => RuntimeError.output.inj isStop

end Script
