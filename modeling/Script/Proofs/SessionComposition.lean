import Script.Proofs.Concatenation
import Script.Proofs.LimitedOutput
import Script.Proofs.SourceCoverage
import Script.Proofs.Termination
import Script.Proofs.Unwinding

/-!
# Sessions that are cut in two

A session on an input that ends with a whole line leaves the machine as it is before the next
prompt. What comes behind such an input is answered as by a session of its own on that machine,
unless a line of the input has ended the session. For this it has to be known that nothing a session
does depends on what was written before it.
-/

set_option autoImplicit false

namespace Script

/-! ## Output without a limit -/

def Machine.withOutput (machine : Machine) (written : ByteArray) : Machine :=
  { machine with sink := ⟨written, none⟩ }

def EarlyStop.elsewhere (earlier earlier' : ByteArray) : EarlyStop where
  inStep sink sink' := ∃ out : ByteArray,
    sink = ⟨earlier ++ out, none⟩ ∧ sink' = ⟨earlier' ++ out, none⟩
  behind _ _ := False
  stops _ := False
  write := by
    intro sink sink' text related
    obtain ⟨out, rfl, rfl⟩ := related
    rw [Sink.write_unlimited, Sink.write_unlimited, ByteArray.append_assoc, ByteArray.append_assoc]
    exact .inl ⟨rfl, out ++ text.toUTF8, rfl, rfl⟩
  later _ never := never

namespace Run

variable {ε α β : Type}

/-- With output that has no limit, how the run ends and what it adds to the output does not depend
on the earlier output. -/
def Adds (run : Run ε α) : Prop :=
  ∀ machine : Machine, ∃ (result : Except ε α) (out : ByteArray) (after : Machine), ∀ earlier,
    run (machine.withOutput earlier) = (result, after.withOutput (earlier ++ out))

def Prints (run : Run ε α) : Prop :=
  ∀ machine : Machine, ∃ (result : α) (out : ByteArray) (after : Machine), ∀ earlier,
    run (machine.withOutput earlier) = (.ok result, after.withOutput (earlier ++ out))

theorem prints_pure (result : α) : (pure result : Run ε α).Prints := by
  intro machine
  exact ⟨result, .empty, machine, fun earlier => by rw [ByteArray.append_empty, pure_apply]⟩

theorem write_withOutput (text : String) (machine : Machine) (earlier : ByteArray) :
    write text (machine.withOutput earlier) =
      (.ok (), machine.withOutput (earlier ++ text.toUTF8)) := rfl

theorem prints_write (text : String) : (write text).Prints := by
  intro machine
  exact ⟨(), text.toUTF8, machine, write_withOutput text machine⟩

theorem prints_writeLine (value : Value) : (writeLine value).Prints := by
  intro machine
  exact ⟨(), (value.render machine.arrangement ++ "\n").toUTF8, machine,
    fun earlier => write_withOutput _ machine earlier⟩

theorem Prints.bind {run : Run ε α} {next : α → Run ε β} (prints : run.Prints)
    (printsNext : ∀ result, (next result).Prints) : (run >>= next).Prints := by
  intro machine
  obtain ⟨result, out, after, ended⟩ := prints machine
  obtain ⟨result', out', last, endedNext⟩ := printsNext result after
  refine ⟨result', out ++ out', last, fun earlier => ?_⟩
  rw [bind_of_ok next (ended earlier), endedNext, ByteArray.append_assoc]

end Run

/-- A program goes the same way whatever was written before it. -/
theorem Program.run_adds (limit : Nat) (env : Env) (program : Program) :
    (program.run limit env).Adds := by
  intro machine
  refine ⟨(program.run limit env (machine.withOutput .empty)).1,
    (program.run limit env (machine.withOutput .empty)).2.sink.written,
    (program.run limit env (machine.withOutput .empty)).2, fun earlier => ?_⟩
  have runs : (EarlyStop.elsewhere earlier .empty).simulation.Runs _ _ _ _ _ :=
    EarlyStop.runs_program limit env program
  have started : (EarlyStop.elsewhere earlier .empty).inStep (machine.withOutput earlier).sink
      (machine.withOutput .empty).sink :=
    ⟨.empty, by rw [ByteArray.append_empty]; rfl, by rw [ByteArray.append_empty]; rfl⟩
  have ends := runs.together (machine.withOutput earlier) (machine.withOutput .empty)
    ⟨rfl, started⟩
  generalize program.run limit env (machine.withOutput earlier) = ending at ends
  generalize program.run limit env (machine.withOutput .empty) = ending' at ends
  cases ends with
  | @alike _ _ _ after after' _ related alike =>
      obtain ⟨same, out, sinkIs, sinkIs'⟩ := related
      obtain ⟨store, nextRef, sink, depth, arrangement⟩ := after
      obtain rfl : sink = _ := sinkIs
      rw [EarlyStop.eq_of_endAlike alike, same]
      simp [Machine.withOutput, sinkIs']
  | stopped _ behind => exact behind.elim

/-! ## Failures -/

private theorem Task.interruptedBy_failed (task : Task) (cause : RuntimeError) :
    task.interruptedBy (.failed cause) = .error (.failed cause) := by
  cases task <;> rfl

namespace Activity

/-- The activity fails, and not because a piece of its code does. -/
def FailsItself (activity : Activity) (cause : RuntimeError) (after : Machine) : Prop :=
  activity.finish = (.error (.failed cause), after) ∧
    ∀ part, activity.task.IsCode → Part activity part →
      ∀ cause' left, part.finish ≠ (.error (.failed cause'), left)

/-- Wherever a failure arises, the machine that it leaves there is the machine at the end. -/
theorem exists_failsItself {activity : Activity} {cause : RuntimeError} {after : Machine}
    (failed : activity.finish = (.error (.failed cause), after)) :
    ∃ inner, activity.Inside inner ∧ inner.FailsItself cause after := by
  induction bound : activity.task.size using Nat.strong_induction_on generalizing activity with
  | _ size ih =>
      by_cases found : ∃ part, activity.task.IsCode ∧ Part activity part ∧
          ∃ cause' left, part.finish = (.error (.failed cause'), left)
      · obtain ⟨part, isCode, isPart, cause', left, partFailed⟩ := found
        have passed := isPart.finish_of_error isCode partFailed
        rw [Task.interruptedBy_failed, failed] at passed
        cases passed
        have smaller : part.task.size < size := bound ▸ isPart.size_lt isCode
        obtain ⟨inner, inside, fails⟩ := ih _ smaller partFailed rfl
        exact ⟨inner, .head ⟨isCode, isPart⟩ inside, fails⟩
      · refine ⟨activity, .refl, failed, ?_⟩
        intro part isCode isPart cause' left partFailed
        exact found ⟨part, isCode, isPart, cause', left, partFailed⟩

end Activity

private theorem Stmt.exists_failing {call : Caller} {env : Env} {last : Option Value}
    {stmts : List Stmt}
    {machine after : Machine} {cause : RuntimeError}
    (failed : Stmt.evalAll call env last stmts machine = (.error (.failed cause), after)) :
    ∃ done failing later value before, stmts = done ++ failing :: later ∧
      Stmt.evalAll call env last done machine = (.ok value, before) ∧
      failing.eval call env before = (.error (.failed cause), after) := by
  induction stmts generalizing last machine with
  | nil => cases failed
  | cons stmt stmts ih =>
      rw [Stmt.evalAll] at failed
      cases ended : stmt.eval call env machine with
      | mk result left =>
          cases result with
          | error interrupt =>
              rw [Run.bind_of_error _ ended] at failed
              cases failed
              exact ⟨[], stmt, stmts, last, machine, rfl, rfl, ended⟩
          | ok value =>
              rw [Run.bind_of_ok _ ended] at failed
              obtain ⟨done, failing, later, value', before, rfl, ended', failed'⟩ := ih failed
              refine ⟨stmt :: done, failing, later, value', before, rfl, ?_, failed'⟩
              rw [Stmt.evalAll, Run.bind_of_ok _ ended, ended']

/-- The program ends with a failure in one of its statements, and the statements before that one
have ended. The machine is the one that was left where the failure arose. -/
def Program.FailsAt (limit : Nat) (env : Env) (program : Program) (machine : Machine)
    (cause : RuntimeError) (after : Machine) : Prop :=
  ∃ done failing later value before, program.statements = done ++ failing :: later ∧
    (⟨done⟩ : Program).execute limit env machine = (.ok value, before) ∧
    ∃ inner, (Activity.start limit (.stmt env failing) before).Inside inner ∧
      inner.FailsItself cause after

/-- The failure of a program can be located in one of its statements. -/
theorem Program.failsAt_of_run {limit : Nat} {env : Env} {program : Program}
    {machine after : Machine} {cause : RuntimeError}
    (failed : program.run limit env machine = (.error cause, after)) :
    program.FailsAt limit env machine cause after := by
  have executed : program.execute limit env machine = (.error (.failed cause), after) := by
    cases ended : program.execute limit env machine with
    | mk result left =>
        cases result with
        | ok value =>
            rw [run_of_execute_ok ended] at failed
            cases failed
        | error interrupt =>
            cases interrupt with
            | returned value =>
                rw [run_of_execute_returned ended] at failed
                cases failed
            | failed cause' =>
                rw [run_of_execute_failed ended] at failed
                cases failed
                rfl
  obtain ⟨done, failing, later, value, before, split, ended, failedStmt⟩ :=
    Stmt.exists_failing executed
  have finished : (Activity.start limit (.stmt env failing) before).finish =
      (.error (.failed cause), after) := by
    rw [Activity.finish, Activity.start, Task.run, Stmt.depth_of_evalAll ended]
    exact Run.map_eq_error_iff.mpr failedStmt
  exact ⟨done, failing, later, value, before, split, ended, Activity.exists_failsItself finished⟩

/-! ## Lines -/

namespace Repl

open Lexer (bytes encode bytes_eq_encode)

def textLines : List Char → List (List Char)
  | [] => []
  | c :: rest =>
      if c = '\n' then [c] :: textLines rest
      else
        match textLines rest with
        | [] => [[c]]
        | line :: lines => (c :: line) :: lines

def EndsSession (line : List Char) : Prop :=
  Text.trimEnd line = "quit".toList ∨ '\x04' ∈ Text.trimEnd line

instance (line : List Char) : Decidable (EndsSession line) := by
  unfold EndsSession
  infer_instance

private theorem textLines_eq_nil {chars : List Char} (none : textLines chars = []) :
    chars = [] := by
  cases chars with
  | nil => rfl
  | cons c rest =>
      rw [textLines] at none
      split at none
      · cases none
      · split at none <;> cases none

/-- What stands behind a line break belongs to other lines. -/
theorem textLines_append {first : List Char} (whole : first = [] ∨ first.getLast? = some '\n')
    (second : List Char) : textLines (first ++ second) = textLines first ++ textLines second := by
  induction first with
  | nil => rfl
  | cons c rest ih =>
      have isLast := whole.resolve_left (List.cons_ne_nil c rest)
      have ended : rest = [] ∨ rest.getLast? = some '\n' := by
        cases rest with
        | nil => exact .inl rfl
        | cons next rest => exact .inr (by simpa [List.getLast?_cons_cons] using isLast)
      rw [List.cons_append, textLines, textLines, ih ended]
      by_cases isBreak : c = '\n'
      · rw [if_pos isBreak, if_pos isBreak, List.cons_append]
      · rw [if_neg isBreak, if_neg isBreak]
        cases lines : textLines rest with
        | cons line lines => rfl
        | nil =>
            obtain rfl := textLines_eq_nil lines
            cases isLast
            exact absurd rfl isBreak

/-- The bytes of a longer character are not those of ASCII characters. -/
theorem ne_break_of_encoded {c : Char} (other : c ≠ '\n') :
    ∀ byte ∈ String.utf8EncodeChar c, byte ≠ 10 := by
  have code : c.val.toNat ≠ 10 := by
    intro same
    exact other (Char.ext (UInt32.toNat_inj.mp same))
  have ne_of_mod : ∀ n, n % 256 ≠ 10 → UInt8.ofNat n ≠ 10 := by
    intro n ne same
    exact ne (by simpa [UInt8.toNat_ofNat'] using congrArg UInt8.toNat same)
  intro byte member
  simp only [String.utf8EncodeChar] at member
  split at member
  · obtain rfl := List.mem_singleton.mp member
    exact ne_of_mod _ (by omega)
  · split at member
    · simp only [List.mem_cons, List.not_mem_nil, or_false] at member
      rcases member with rfl | rfl <;> exact ne_of_mod _ (by omega)
    · split at member
      · simp only [List.mem_cons, List.not_mem_nil, or_false] at member
        rcases member with rfl | rfl | rfl <;> exact ne_of_mod _ (by omega)
      · simp only [List.mem_cons, List.not_mem_nil, or_false] at member
        rcases member with rfl | rfl | rfl | rfl <;> exact ne_of_mod _ (by omega)

private theorem splitLines_append {bytes : List UInt8} (nonempty : bytes ≠ [])
    (unbroken : ∀ byte ∈ bytes, byte ≠ 10) (rest : List UInt8) :
    splitLines (bytes ++ rest) =
      match splitLines rest with
      | [] => [bytes]
      | line :: lines => (bytes ++ line) :: lines := by
  induction bytes with
  | nil => exact absurd rfl nonempty
  | cons byte bytes ih =>
      obtain ⟨notBreak, unbrokenRest⟩ := List.forall_mem_cons.mp unbroken
      rw [List.cons_append, splitLines, if_neg notBreak]
      cases bytes with
      | nil => rfl
      | cons next bytes =>
          rw [ih (List.cons_ne_nil next bytes) unbrokenRest]
          cases splitLines rest <;> rfl

/-- The lines of an encoded text are the encoded lines of the text. -/
theorem splitLines_encode (chars : List Char) :
    splitLines (encode chars) = (textLines chars).map encode := by
  induction chars with
  | nil => rfl
  | cons c rest ih =>
      have encoded : encode (c :: rest) = String.utf8EncodeChar c ++ encode rest := rfl
      rw [encoded, textLines]
      by_cases isBreak : c = '\n'
      · subst isBreak
        rw [if_pos rfl, List.map_cons, ← ih]
        rfl
      · rw [if_neg isBreak, splitLines_append String.utf8EncodeChar_ne_nil
          (ne_break_of_encoded isBreak), ih]
        cases textLines rest with
        | nil => simp [encode]
        | cons line lines => rfl

theorem bytes_ofList (line : List Char) : bytes (String.ofList line) = encode line := by
  rw [bytes_eq_encode, String.toList_ofList]

theorem fromUTF8_bytes (text : String) : String.fromUTF8? ⟨(bytes text).toArray⟩ = some text := by
  rw [bytes, Array.toArray_toList, String.fromUTF8?]
  exact dif_pos text.isValidUTF8

/-! ## One line -/

theorem ofText_eq_quit_iff {text : String} :
    Line.ofText text = .quit ↔ EndsSession text.toList := by
  unfold Line.ofText EndsSession
  dsimp only
  cases Text.trimEnd text.toList with
  | nil => simp
  | cons c rest =>
      rw [if_neg (by simp)]
      split
      · next ends => exact iff_of_true rfl ends
      · next goesOn => exact iff_of_false (by simp) goesOn

/-- The answer to a line that is text depends on what the text asks for. -/
theorem answer_bytes (env : Env) (text : String) :
    answer env (some (bytes text)) =
      match Line.ofText text with
      | .blank => return .more
      | .quit => close
      | .code line => do
          evalLine env line
          return .more := by
  cases isLine : Line.ofText text <;> simp only [answer, fromUTF8_bytes, isLine]

theorem answer_of_ends (env : Env) {line : List Char} (ends : EndsSession line) :
    answer env (some (encode line)) = close := by
  have isQuit : Line.ofText (String.ofList line) = .quit := by
    rwa [ofText_eq_quit_iff, String.toList_ofList]
  rw [← bytes_ofList, answer_bytes, isQuit]

theorem answer_of_goesOn (env : Env) {line : List Char} (goesOn : ¬ EndsSession line) :
    ∃ body : Run StreamError Unit, answer env (some (encode line)) = do
      body
      return .more := by
  have notQuit : Line.ofText (String.ofList line) ≠ .quit := by
    rwa [Ne, ofText_eq_quit_iff, String.toList_ofList]
  rw [← bytes_ofList, answer_bytes]
  cases isLine : Line.ofText (String.ofList line) with
  | blank => exact ⟨pure (), rfl⟩
  | quit => exact absurd isLine notQuit
  | code code => exact ⟨evalLine env code, rfl⟩

theorem prints_display (value : Option Value) : (display value).Prints := by
  unfold display
  split
  · exact Run.prints_pure ()
  · exact Run.prints_pure ()
  · exact Run.prints_writeLine _

theorem prints_evalLine (env : Env) (line : String) : (evalLine env line).Prints := by
  cases parsed : Program.ofSource line with
  | error errors =>
      rw [evalLine, parsed]
      exact Run.prints_write _
  | ok program =>
      intro machine
      obtain ⟨result, out, after, ended⟩ := program.run_adds defaultCallLimit env machine
      -- a failure of the program is shown like its value
      obtain ⟨shown, showing⟩ : ∃ shown, ∀ earlier,
          evalLine env line (machine.withOutput earlier) =
            display shown (after.withOutput (earlier ++ out)) := by
        cases result with
        | ok value => exact ⟨value, fun earlier => by rw [evalLine_of_ok env parsed, ended]⟩
        | error cause =>
            exact ⟨some (.error cause), fun earlier => by rw [evalLine_of_ok env parsed, ended]⟩
      obtain ⟨_, out', last, displayed⟩ := prints_display shown after
      refine ⟨(), out ++ out', last, fun earlier => ?_⟩
      rw [showing, displayed, ByteArray.append_assoc]

theorem prints_close : close.Prints := (Run.prints_write _).bind fun _ => Run.prints_pure _

theorem prints_answer (env : Env) (text : String) : (answer env (some (bytes text))).Prints := by
  rw [answer_bytes]
  split
  · exact Run.prints_pure _
  · exact prints_close
  · exact (prints_evalLine env _).bind fun _ => Run.prints_pure _

/-! ## Many lines -/

def rounds (env : Env) : List (List UInt8) → Run StreamError Unit
  | [] => pure ()
  | line :: rest => do
      ask
      let _ ← answer env (some line)
      rounds env rest

theorem prints_rounds (env : Env) (lines : List (List Char)) :
    (rounds env (lines.map encode)).Prints := by
  induction lines with
  | nil => exact Run.prints_pure ()
  | cons line lines ih =>
      rw [List.map_cons, ← bytes_ofList, rounds]
      exact (Run.prints_write _).bind fun _ => (prints_answer env _).bind fun _ => ih

/-- A session on lines of text succeeds when its output has no limit, and only adds to it. -/
theorem prints_run (env : Env) (lines : List (List Char)) :
    (run env (lines.map encode)).Prints := by
  induction lines with
  | nil =>
      exact (Run.prints_write _).bind fun _ => prints_close.bind fun _ => Run.prints_pure ()
  | cons line lines ih =>
      rw [List.map_cons, ← bytes_ofList, run]
      apply (Run.prints_write _).bind
      intro _
      apply (prints_answer env _).bind
      intro next
      cases next with
      | more => exact ih
      | stop => exact Run.prints_pure ()

/-- Lines that do not end a session are answered, and the session goes on behind them. -/
theorem run_of_goesOn (env : Env) {lines : List (List Char)}
    (goesOn : ∀ line ∈ lines, ¬ EndsSession line) (rest : List (List UInt8)) :
    run env (lines.map encode ++ rest) =
      (rounds env (lines.map encode) >>= fun _ => run env rest) := by
  induction lines with
  | nil => rfl
  | cons line lines ih =>
      obtain ⟨lineGoesOn, restGoesOn⟩ := List.forall_mem_cons.mp goesOn
      obtain ⟨body, answered⟩ := answer_of_goesOn env lineGoesOn
      simp only [List.map_cons, List.cons_append, run, rounds, answered, ih restGoesOn,
        bind_assoc, pure_bind]

/-- Lines behind the end of a session are left alone. -/
theorem run_of_ends (env : Env) {lines : List (List Char)}
    (ends : ∃ line ∈ lines, EndsSession line) (rest : List (List UInt8)) :
    run env (lines.map encode ++ rest) = run env (lines.map encode) := by
  induction lines with
  | nil => simp at ends
  | cons line lines ih =>
      rw [List.map_cons, List.cons_append, run, run]
      by_cases lineEnds : EndsSession line
      · simp only [answer_of_ends env lineEnds, close, bind_assoc, pure_bind]
      · have restEnds : ∃ line ∈ lines, EndsSession line := by
          simpa [lineEnds] using ends
        rw [ih restEnds]

theorem runInput_toUTF8 (env : Env) (text : String) :
    runInput env text.toUTF8 = run env ((textLines text.toList).map encode) := by
  rw [runInput, ← splitLines_encode, ← bytes_eq_encode]
  rfl

private theorem runInput_append (env : Env) {first second : String}
    (whole : first = "" ∨ first.toList.getLast? = some '\n') :
    runInput env (first ++ second).toUTF8 =
      run env ((textLines first.toList).map encode ++ (textLines second.toList).map encode) := by
  have whole' : first.toList = [] ∨ first.toList.getLast? = some '\n' := by
    rcases whole with rfl | ended
    · exact .inl rfl
    · exact .inr ended
  rw [runInput_toUTF8, String.toList_append, textLines_append whole', List.map_append]

/-- The end of the input ends a session. -/
theorem run_nil (env : Env) (machine : Machine) (earlier : ByteArray) :
    run env [] (machine.withOutput earlier) =
      (.ok (), machine.withOutput (earlier ++ ">> \n".toUTF8)) := by
  have both : ">> \n".toUTF8 = ">> ".toUTF8 ++ "\n".toUTF8 := Sink.toUTF8_append ">> " "\n"
  rw [both, ← ByteArray.append_assoc]
  rfl

private theorem run_in_two (env : Env) {lines : List (List Char)}
    (goesOn : ∀ line ∈ lines, ¬ EndsSession line) (more : List (List Char)) (machine : Machine)
    (earlier : ByteArray) :
    ∃ (out out' : ByteArray) (after last : Machine),
      run env (lines.map encode) (machine.withOutput earlier) =
          (.ok (), after.withOutput (earlier ++ (out ++ ">> \n".toUTF8))) ∧
        run env (more.map encode) (after.withOutput .empty) = (.ok (), last.withOutput out') ∧
        run env (lines.map encode ++ more.map encode) (machine.withOutput earlier) =
          (.ok (), last.withOutput (earlier ++ (out ++ out'))) := by
  obtain ⟨_, out, after, played⟩ := prints_rounds env lines machine
  obtain ⟨_, out', last, ended⟩ := prints_run env more after
  refine ⟨out, out', after, last, ?_, ?_, ?_⟩
  · have alone := run_of_goesOn env goesOn []
    rw [List.append_nil] at alone
    rw [alone, Run.bind_of_ok _ (played earlier), run_nil, ByteArray.append_assoc]
  · rw [ended, ByteArray.empty_append]
  · rw [run_of_goesOn env goesOn, Run.bind_of_ok _ (played earlier), ended, ByteArray.append_assoc]

theorem answer_of_code (env : Env) {text code : String} (isCode : Line.ofText text = .code code)
    {machine after : Machine} (ended : evalLine env code machine = (.ok (), after)) :
    answer env (some (bytes text)) machine = (.ok .more, after) := by
  rw [answer_bytes, isCode]
  dsimp only
  rw [Run.bind_of_ok _ ended, Run.pure_apply]

private theorem answer_of_unparsed (env : Env) {text code : String} {errors : List SyntaxError}
    (isCode : Line.ofText text = .code code) (unparsed : Program.ofSource code = .error errors)
    (machine : Machine) (earlier : ByteArray) :
    answer env (some (bytes text)) (machine.withOutput earlier) =
      (.ok .more, machine.withOutput (earlier ++ (SyntaxError.report errors).toUTF8)) := by
  apply answer_of_code env isCode
  rw [evalLine, unparsed]
  exact Run.write_withOutput _ machine earlier

private theorem answer_of_failed (env : Env) {text code : String} {program : Program}
    {cause : RuntimeError} {machine after : Machine} {earlier : ByteArray}
    (isCode : Line.ofText text = .code code) (parsed : Program.ofSource code = .ok program)
    (failed : program.run defaultCallLimit env (machine.withOutput earlier) =
      (.error cause, after)) :
    answer env (some (bytes text)) (machine.withOutput earlier) =
      (.ok .more, after.withOutput
        (after.sink.written ++ ((Value.error cause).render after.arrangement ++ "\n").toUTF8)) := by
  obtain ⟨result, out, left, ended⟩ := program.run_adds defaultCallLimit env machine
  have unlimited : after = after.withOutput after.sink.written := by
    cases (ended earlier).symm.trans failed
    rfl
  apply answer_of_code env isCode
  rw [evalLine_of_ok env parsed, failed]
  dsimp only
  rw [unlimited]
  exact Run.write_withOutput _ after _

/-- Sessions compose. An input that is empty or ends with a line break, and none of whose lines ends
the session, is answered with some output before the last prompt; what comes behind it is then
answered as by a session on the machine that it left. Behind a line that ends the session nothing is
answered. A line that cannot be parsed changes nothing but the output, and of a line that fails what
was done before the failure remains. -/
theorem sessions_compose (env : Env) (machine : Machine) (earlier : ByteArray) :
    (∀ first second : String, first = "" ∨ first.toList.getLast? = some '\n' →
      ((∀ line ∈ textLines first.toList, ¬ EndsSession line) →
        ∃ (out out' : ByteArray) (after last : Machine),
          runInput env first.toUTF8 (machine.withOutput earlier) =
              (.ok (), after.withOutput (earlier ++ (out ++ ">> \n".toUTF8))) ∧
            runInput env second.toUTF8 (after.withOutput .empty) = (.ok (), last.withOutput out') ∧
            runInput env (first ++ second).toUTF8 (machine.withOutput earlier) =
              (.ok (), last.withOutput (earlier ++ (out ++ out')))) ∧
      ((∃ line ∈ textLines first.toList, EndsSession line) →
        runInput env (first ++ second).toUTF8 (machine.withOutput earlier) =
          runInput env first.toUTF8 (machine.withOutput earlier))) ∧
    (∀ text code errors, Line.ofText text = .code code → Program.ofSource code = .error errors →
      answer env (some (bytes text)) (machine.withOutput earlier) =
        (.ok .more, machine.withOutput (earlier ++ (SyntaxError.report errors).toUTF8))) ∧
    ∀ text code program cause after, Line.ofText text = .code code →
      Program.ofSource code = .ok program →
      program.run defaultCallLimit env (machine.withOutput earlier) = (.error cause, after) →
      program.FailsAt defaultCallLimit env (machine.withOutput earlier) cause after ∧
        answer env (some (bytes text)) (machine.withOutput earlier) =
          (.ok .more, after.withOutput (after.sink.written ++
            ((Value.error cause).render after.arrangement ++ "\n").toUTF8)) := by
  refine ⟨fun first second whole => ⟨fun goesOn => ?_, fun ends => ?_⟩, ?_, ?_⟩
  · rw [runInput_append env whole, runInput_toUTF8 env first, runInput_toUTF8 env second]
    exact run_in_two env goesOn _ machine earlier
  · rw [runInput_append env whole, runInput_toUTF8]
    exact congrFun (run_of_ends env ends _) _
  · intro text code errors isCode unparsed
    exact answer_of_unparsed env isCode unparsed machine earlier
  · intro text code program cause after isCode parsed failed
    exact ⟨Program.failsAt_of_run failed, answer_of_failed env isCode parsed failed⟩

def failingSample : Program :=
  ⟨[.bind ⟨.kwLet, "let"⟩ ⟨.ident, "a"⟩ (.int ⟨.int, "1"⟩ 1),
    .expr ⟨.ident, "c"⟩ (.ident ⟨.ident, "c"⟩)]⟩

/-- What the program has done before it failed remains: `a` is bound. -/
theorem sessions_compose_failing :
    let first := "let a = 1; c\nlet b\n\n"
    let second := "a\nquit\nb\n"
    let machine : Machine := .ofScopes #[.empty]
    (∀ line ∈ textLines first.toList, ¬ EndsSession line) ∧
      (∃ line ∈ textLines second.toList, EndsSession line) ∧
      (∃ (out out' : ByteArray) (after last : Machine),
        runInput ⟨0, []⟩ first.toUTF8 (machine.withOutput .empty) =
            (.ok (), after.withOutput (.empty ++ (out ++ ">> \n".toUTF8))) ∧
          runInput ⟨0, []⟩ second.toUTF8 (after.withOutput .empty) =
            (.ok (), last.withOutput out') ∧
          runInput ⟨0, []⟩ (first ++ second).toUTF8 (machine.withOutput .empty) =
            (.ok (), last.withOutput (.empty ++ (out ++ out')))) ∧
      failingSample.FailsAt defaultCallLimit ⟨0, []⟩ (machine.withOutput .empty)
        (.unbound "c") (machine.set ⟨0, []⟩ "a" (.int 1)) := by
  intro first second machine
  have compose := sessions_compose ⟨0, []⟩ machine .empty
  have goesOn : ∀ line ∈ textLines "let a = 1; c\nlet b\n\n".toList, ¬ EndsSession line := by
    decide
  have isCode : Line.ofText "let a = 1; c\n" = .code "let a = 1; c" := by decide
  have parsed : Program.ofSource "let a = 1; c" = .ok failingSample := by cbv
  have failed : failingSample.run defaultCallLimit ⟨0, []⟩ (machine.withOutput .empty) =
      (.error (.unbound "c"), machine.set ⟨0, []⟩ "a" (.int 1)) := rfl
  exact ⟨goesOn, by decide, (compose.1 _ _ (.inr (by decide))).1 goesOn,
    (compose.2.2 _ _ _ _ _ isCode parsed failed).1⟩

end Repl

end Script
