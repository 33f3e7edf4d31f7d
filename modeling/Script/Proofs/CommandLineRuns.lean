import Script.CommandLine
import Script.Proofs.Markers
import Script.Proofs.SessionComposition

/-!
# What the command line does

The program prints the canonical text of its source or runs it, and goes on with a session where
one was asked for. What it writes and its exit code are those of these parts: the exit code is 1
where the source cannot be built or fails and no session follows, and where a session meets a line
that is not text.
-/

set_option autoImplicit false

namespace Script

theorem fromUTF8?_eq_some_iff {bytes : ByteArray} {text : String} :
    String.fromUTF8? bytes = some text ↔ bytes = text.toUTF8 := by
  unfold String.fromUTF8?
  split
  · next valid =>
    rw [Option.some.injEq]
    constructor
    · rintro rfl
      rfl
    · rintro rfl
      rfl
  · next invalid =>
    refine iff_of_false nofun ?_
    rintro rfl
    exact invalid text.isValidUTF8

/-! ## Output that is only added to -/

namespace Run

variable {ε α β : Type}

private theorem Prints.adds {run : Run ε α} (prints : run.Prints) : run.Adds := by
  intro machine
  obtain ⟨result, out, after, ended⟩ := prints machine
  exact ⟨.ok result, out, after, ended⟩

theorem adds_throw (exception : ε) : (throw exception : Run ε α).Adds := by
  intro machine
  exact ⟨.error exception, .empty, machine, fun earlier => by rw [ByteArray.append_empty]; rfl⟩

theorem Adds.bind {run : Run ε α} {next : α → Run ε β} (adds : run.Adds)
    (addsNext : ∀ result, (next result).Adds) : (run >>= next).Adds := by
  intro machine
  obtain ⟨result, out, after, ended⟩ := adds machine
  cases result with
  | error exception =>
      exact ⟨.error exception, out, after, fun earlier => bind_of_error next (ended earlier)⟩
  | ok result =>
      obtain ⟨result', out', last, endedNext⟩ := addsNext result after
      refine ⟨result', out ++ out', last, fun earlier => ?_⟩
      rw [bind_of_ok next (ended earlier), endedNext, ByteArray.append_assoc]

/-- What was written before stays in front of what is added. -/
theorem Adds.written {run : Run ε α} (adds : run.Adds) (machine : Machine) (earlier : ByteArray) :
    (run (machine.withOutput earlier)).2.sink.written =
      earlier ++ (run (machine.withOutput .empty)).2.sink.written := by
  obtain ⟨result, out, after, ended⟩ := adds machine
  rw [ended, ended, ByteArray.empty_append]
  rfl

end Run

/-! ## Sessions on any bytes -/

namespace Repl

open Lexer (bytes bytes_eq_encode)

/-- Of the lines of a session one that is read is not text. The lines before it are texts that do
not end the session. -/
inductive BreaksOff : List (List UInt8) → Prop where
  | here {line : List UInt8} {rest : List (List UInt8)} :
      (∀ text, line ≠ bytes text) → BreaksOff (line :: rest)
  | later {text : String} {rest : List (List UInt8)} :
      ¬ EndsSession text.toList → BreaksOff rest → BreaksOff (bytes text :: rest)

private theorem bytes_inj {text text' : String} (same : bytes text = bytes text') :
    text = text' := by
  have both := fromUTF8_bytes text
  rw [same, fromUTF8_bytes] at both
  exact (Option.some.inj both).symm

private theorem fromUTF8?_eq_none {line : List UInt8} (notText : ∀ text, line ≠ bytes text) :
    String.fromUTF8? ⟨line.toArray⟩ = none := by
  rw [Option.eq_none_iff_forall_ne_some]
  intro text isText
  refine notText text ?_
  rw [bytes, ← fromUTF8?_eq_some_iff.mp isText]

/-- A line that is no text breaks the session off before anything is done with it. -/
theorem answer_of_notText (env : Env) {line : List UInt8} (notText : ∀ text, line ≠ bytes text) :
    answer env (some line) = Run.throw .notText := by
  simp only [answer, fromUTF8?_eq_none notText]

/-- Only a line of text that ends the session stops it. -/
theorem not_breaksOff_of_ends {text : String} (ends : EndsSession text.toList)
    (rest : List (List UInt8)) : ¬ BreaksOff (bytes text :: rest) := by
  intro breaks
  generalize isLine : bytes text = line at breaks
  cases breaks with
  | here notText => exact notText text isLine.symm
  | later goesOn _ => exact goesOn (bytes_inj isLine ▸ ends)

private theorem breaksOff_of_goesOn {text : String} (goesOn : ¬ EndsSession text.toList)
    {rest : List (List UInt8)} : BreaksOff (bytes text :: rest) ↔ BreaksOff rest := by
  refine ⟨fun breaks => ?_, .later goesOn⟩
  generalize isLine : bytes text = line at breaks
  cases breaks with
  | here notText => exact absurd isLine.symm (notText text)
  | later _ breaks => exact breaks

private theorem answer_of_text_ends (env : Env) {text : String} (ends : EndsSession text.toList) :
    answer env (some (bytes text)) = close := by
  rw [bytes_eq_encode, answer_of_ends env ends]

private theorem answer_of_text_goesOn (env : Env) {text : String}
    (goesOn : ¬ EndsSession text.toList)
    (machine : Machine) (earlier : ByteArray) :
    ∃ (out : ByteArray) (after : Machine),
      answer env (some (bytes text)) (machine.withOutput earlier) =
        (.ok .more, after.withOutput (earlier ++ out)) := by
  have isMore : ∃ body : Run StreamError Unit, answer env (some (bytes text)) = do
      body
      return .more := by
    rw [bytes_eq_encode]
    exact answer_of_goesOn env goesOn
  obtain ⟨result, out, after, answered⟩ := prints_answer env text machine
  refine ⟨out, after, ?_⟩
  rw [answered earlier]
  obtain ⟨body, isMore⟩ := isMore
  have ended := answered earlier
  rw [isMore, Run.bind_apply] at ended
  split at ended
  · cases ended
    rfl
  · cases ended

private theorem adds_run (env : Env) (lines : List (List UInt8)) : (run env lines).Adds := by
  induction lines with
  | nil => exact (prints_run env []).adds
  | cons line rest ih =>
      have answers : (answer env (some line)).Adds := by
        by_cases isText : ∃ text, line = bytes text
        · obtain ⟨text, rfl⟩ := isText
          exact (prints_answer env text).adds
        · rw [answer_of_notText env (not_exists.mp isText)]
          exact Run.adds_throw _
      rw [run]
      apply (Run.prints_write _).adds.bind
      intro _
      apply answers.bind
      intro next
      cases next with
      | more => exact ih
      | stop => exact (Run.prints_pure ()).adds

/-- A session succeeds unless it meets a line that is not text. -/
theorem run_result (env : Env) (lines : List (List UInt8)) (machine : Machine)
    (earlier : ByteArray) :
    (BreaksOff lines → (run env lines (machine.withOutput earlier)).1 = .error .notText) ∧
      (¬ BreaksOff lines → (run env lines (machine.withOutput earlier)).1 = .ok ()) := by
  induction lines generalizing machine earlier with
  | nil => exact ⟨nofun, fun _ => rfl⟩
  | cons line rest ih =>
      rw [run, ask, Run.bind_of_ok _ (Run.write_withOutput _ machine earlier)]
      by_cases isText : ∃ text, line = bytes text
      · obtain ⟨text, rfl⟩ := isText
        by_cases ends : EndsSession text.toList
        · rw [answer_of_text_ends env ends]
          exact ⟨fun breaks => absurd breaks (not_breaksOff_of_ends ends rest), fun _ => rfl⟩
        · obtain ⟨out, after, answered⟩ := answer_of_text_goesOn env ends machine _
          rw [Run.bind_of_ok _ answered, breaksOff_of_goesOn ends]
          exact ih after _
      · have notText := not_exists.mp isText
        rw [answer_of_notText env notText]
        exact ⟨fun _ => rfl, fun noBreak => absurd (.here notText) noBreak⟩

end Repl

/-! ## The source -/

namespace CommandLine

def freshMachine (arrangement : Arrangement) : Machine :=
  (Machine.start (.empty none) arrangement).newGlobal.2

namespace Options

def HasSource (options : Options) : Prop := options.snippet ≠ none ∨ options.file ≠ none

instance (options : Options) : Decidable options.HasSource := inferInstanceAs (Decidable (_ ∨ _))

/-- The text of what the options name: the snippet, or else what is in the file. -/
inductive Gives (files : Files) (options : Options) : String → Prop where
  | snippet {text : String} : options.snippet = some text → Gives files options text
  | file {path text : String} : options.snippet = none → options.file = some path →
      files path = .ok text.toUTF8 → Gives files options text

/-- `Leaves arrangement files options failed after`: whether the source of the options fails, and
the machine that it leaves. A source that cannot be read or parsed leaves an empty environment and
no output. -/
inductive Leaves (arrangement : Arrangement) (files : Files) (options : Options) :
    Bool → Machine → Prop where
  | unreadable : (∀ text, ¬ options.Gives files text) →
      Leaves arrangement files options true (freshMachine arrangement)
  | malformed {text : String} {errors : List SyntaxError} : options.Gives files text →
      Program.ofSource text = .error errors →
      Leaves arrangement files options true (freshMachine arrangement)
  | failed {text : String} {program : Program} {cause : RuntimeError} {after : Machine} :
      options.Gives files text → Program.ofSource text = .ok program →
      program.run defaultCallLimit ⟨0, []⟩ (freshMachine arrangement) = (.error cause, after) →
      Leaves arrangement files options true after
  | ended {text : String} {program : Program} {value : Option Value} {after : Machine} :
      options.Gives files text → Program.ofSource text = .ok program →
      program.run defaultCallLimit ⟨0, []⟩ (freshMachine arrangement) = (.ok value, after) →
      Leaves arrangement files options false after

variable {arrangement : Arrangement} {files : Files} {options : Options} {failed : Bool}
  {after : Machine} {text : String}

private theorem Gives.source (gives : options.Gives files text) :
    ∃ source, options.source? = some source ∧ source.text files = .ok text := by
  cases gives with
  | snippet given =>
      refine ⟨⟨"<cmd>", .snippet text⟩, ?_, rfl⟩
      rw [source?, given]
  | @file path _ noSnippet given contents =>
      refine ⟨⟨path, .file path⟩, ?_, ?_⟩
      · rw [source?, noSnippet, given]
      · simp only [Source.text, contents, fromUTF8?_eq_some_iff.mpr rfl]

/-- Building the source that the options name is parsing the text that they give. -/
theorem Gives.build (gives : options.Gives files text) :
    ∃ source, options.source? = some source ∧
      source.build files = (Program.ofSource text).mapError .malformed := by
  obtain ⟨source, isSource, isText⟩ := gives.source
  refine ⟨source, isSource, ?_⟩
  simp only [Source.build, isText]
  cases Program.ofSource text <;> rfl

private theorem source_of_unreadable (named : options.HasSource)
    (unreadable : ∀ text, ¬ options.Gives files text) :
    ∃ source cause, options.source? = some source ∧ source.text files = .error cause := by
  cases given : options.snippet with
  | some text => exact absurd (.snippet given) (unreadable text)
  | none =>
      have isFile := named.resolve_left (not_not_intro given)
      obtain ⟨path, isPath⟩ := Option.ne_none_iff_exists'.mp isFile
      have isSource : options.source? = some ⟨path, .file path⟩ := by rw [source?, given, isPath]
      cases contents : files path with
      | error cause => exact ⟨_, cause, isSource, by simp only [Source.text, contents]⟩
      | ok bytes =>
          have notText : String.fromUTF8? bytes = none := by
            rw [Option.eq_none_iff_forall_ne_some]
            intro text isText
            rw [fromUTF8?_eq_some_iff.mp isText] at contents
            exact unreadable text (.file given isPath contents)
          exact ⟨_, .notText, isSource, by simp only [Source.text, contents, notText]⟩

/-- A source that gives no text or no program cannot be built. -/
theorem build_of_unbuilt (named : options.HasSource)
    (unbuilt : ∀ text program, options.Gives files text → Program.ofSource text ≠ .ok program) :
    ∃ source error, options.source? = some source ∧ source.build files = .error error := by
  by_cases readable : ∃ text, options.Gives files text
  · obtain ⟨text, gives⟩ := readable
    obtain ⟨source, isSource, built⟩ := gives.build
    cases parsed : Program.ofSource text with
    | ok program => exact absurd parsed (unbuilt text program gives)
    | error errors => exact ⟨source, .malformed errors, isSource, by rw [built, parsed]; rfl⟩
  · obtain ⟨source, cause, isSource, noText⟩ :=
      source_of_unreadable named (not_exists.mp readable)
    exact ⟨source, .unreadable cause, isSource, by simp only [Source.build, noText]⟩

private theorem exists_leaves (arrangement : Arrangement) (files : Files) (options : Options) :
    ∃ failed after, options.Leaves arrangement files failed after := by
  by_cases readable : ∃ text, options.Gives files text
  · obtain ⟨text, gives⟩ := readable
    cases parsed : Program.ofSource text with
    | error errors => exact ⟨true, _, .malformed gives parsed⟩
    | ok program =>
        cases ended : program.run defaultCallLimit ⟨0, []⟩ (freshMachine arrangement) with
        | mk result after =>
            cases result with
            | ok value => exact ⟨false, after, .ended gives parsed ended⟩
            | error cause => exact ⟨true, after, .failed gives parsed ended⟩
  · exact ⟨true, _, .unreadable (not_exists.mp readable)⟩

end Options

/-! ## The whole program -/

section Whole

variable {arrangement : Arrangement} {files : Files} {options : Options} {failed : Bool}
  {after : Machine}

private theorem clean_freshMachine (arrangement : Arrangement) :
    (freshMachine arrangement).Clean := by
  intro scope member
  obtain rfl := List.mem_singleton.mp (Array.mem_def.mp member)
  exact List.forall_mem_nil _

private theorem execute_of_unbuilt {source : Source} {error : BuildError}
    (built : source.build files = .error error) (env : Env) (machine : Machine) :
    execute files source env machine = (some (error.report source), machine) := by
  simp only [execute, built]

/-- Running a source says that it failed exactly when it did. -/
theorem execute_of_leaves (named : options.HasSource)
    (leaves : options.Leaves arrangement files failed after) :
    ∃ source report, options.source? = some source ∧
      execute files source ⟨0, []⟩ (freshMachine arrangement) = (report, after) ∧
      report.isSome = failed := by
  cases leaves with
  | unreadable unreadable =>
      obtain ⟨source, error, isSource, built⟩ :=
        Options.build_of_unbuilt named fun text _ gives => absurd gives (unreadable text)
      exact ⟨source, _, isSource, execute_of_unbuilt built _ _, rfl⟩
  | malformed gives unparsed =>
      obtain ⟨source, isSource, built⟩ := gives.build
      rw [unparsed] at built
      exact ⟨source, _, isSource, execute_of_unbuilt built _ _, rfl⟩
  | @failed _ _ cause _ gives parsed failed =>
      obtain ⟨source, isSource, built⟩ := gives.build
      rw [parsed] at built
      refine ⟨source, some ("Runtime error: " ++ cause.message ++ "\n"), isSource, ?_, rfl⟩
      simp only [execute, built, Except.mapError, Program.evaluate, failed]
  | @ended _ program value _ gives parsed ended =>
      obtain ⟨source, isSource, built⟩ := gives.build
      rw [parsed] at built
      refine ⟨source, none, isSource, ?_, rfl⟩
      have evaluated : program.evaluate defaultCallLimit ⟨0, []⟩ (freshMachine arrangement) =
          (value, after) := by
        rw [Program.evaluate, ended]
      have noMarker : ∀ cause, value ≠ some (.error cause) := by
        intro cause isMarker
        have marks := program.evaluate_eq_error_iff (clean_freshMachine arrangement)
          defaultCallLimit ⟨0, []⟩ cause
        rw [evaluated, ended] at marks
        cases marks.mp isMarker
      simp only [execute, built, Except.mapError, evaluated]

private theorem unlimited_of_leaves (leaves : options.Leaves arrangement files failed after) :
    after = after.withOutput after.sink.written := by
  have runs : ∀ (program : Program) (result : Except RuntimeError (Option Value)),
      program.run defaultCallLimit ⟨0, []⟩ (freshMachine arrangement) = (result, after) →
        after = after.withOutput after.sink.written := by
    intro program result ended
    obtain ⟨_, _, _, ended'⟩ :=
      program.run_adds defaultCallLimit ⟨0, []⟩ (freshMachine arrangement)
    cases (ended' .empty).symm.trans ended
    rfl
  cases leaves with
  | unreadable _ => rfl
  | malformed _ _ => rfl
  | failed _ _ failed => exact runs _ _ failed
  | ended _ _ ended => exact runs _ _ ended

/-- `SessionEnds stdin machine out code`: what a session on the input writes when it starts with the
bindings of the machine, and the exit code that it leads to. -/
structure SessionEnds (stdin : ByteArray) (machine : Machine) (out : ByteArray) (code : Nat) :
    Prop where
  output : (Repl.runInput ⟨0, []⟩ stdin (machine.withOutput .empty)).2.sink.written = out
  failure : Repl.BreaksOff (Repl.splitLines stdin.data.toList) → code = 1
  success : ¬ Repl.BreaksOff (Repl.splitLines stdin.data.toList) → code = 0

/-- The output of a program that turns interactive is that of the session, and its exit code tells
how the session ended. -/
theorem run_of_next {env : Env}
    (next : (begin arrangement files options).next = .session env) (stdin : ByteArray) :
    (run arrangement files options stdin).stdout =
        (Repl.runInput env stdin (begin arrangement files options).machine).2.sink.written ∧
      (run arrangement files options stdin).exitCode =
        match (Repl.runInput env stdin (begin arrangement files options).machine).1 with
        | .ok _ => 0
        | .error _ => 1 := by
  simp only [run, next]
  cases Repl.runInput env stdin (begin arrangement files options).machine with
  | mk result machine => cases result <;> exact ⟨rfl, rfl⟩

/-- A session comes behind the banner. -/
theorem run_of_session {stderr : String} {machine : Machine}
    (begins : begin arrangement files options = startSession ⟨0, []⟩ stderr machine)
    (unlimited : machine = machine.withOutput machine.sink.written) (stdin : ByteArray) :
    ∃ out, (run arrangement files options stdin).stdout =
        machine.sink.written ++ (banner.toUTF8 ++ out) ∧
      SessionEnds stdin machine out (run arrangement files options stdin).exitCode := by
  have next : (begin arrangement files options).next = .session ⟨0, []⟩ := by rw [begins]; rfl
  have left : (begin arrangement files options).machine =
      machine.withOutput (machine.sink.written ++ banner.toUTF8) := by
    rw [begins, startSession, unlimited]
    rfl
  obtain ⟨stdout, exitCode⟩ := run_of_next next stdin
  rw [left] at stdout exitCode
  have adds := Repl.adds_run ⟨0, []⟩ (Repl.splitLines stdin.data.toList)
  have result := Repl.run_result ⟨0, []⟩ (Repl.splitLines stdin.data.toList) machine
    (machine.sink.written ++ banner.toUTF8)
  rw [← Repl.runInput] at adds result
  refine ⟨_, ?output, rfl, fun breaks => ?failure, fun noBreak => ?success⟩
  case output => rw [stdout, adds.written, ByteArray.append_assoc]
  case failure => rw [exitCode, result.1 breaks]
  case success => rw [exitCode, result.2 noBreak]

private theorem run_of_leaves (named : options.HasSource) (runs : options.printOnly = false)
    (leaves : options.Leaves arrangement files failed after) (stdin : ByteArray) :
    (options.interactive = false →
      (run arrangement files options stdin).stdout = after.sink.written ∧
        (run arrangement files options stdin).exitCode = if failed then 1 else 0) ∧
      (options.interactive = true → ∃ out,
        (run arrangement files options stdin).stdout =
            after.sink.written ++ (banner.toUTF8 ++ out) ∧
          SessionEnds stdin after out (run arrangement files options stdin).exitCode) := by
  obtain ⟨source, report, isSource, executed, reported⟩ := execute_of_leaves named leaves
  have initial : (Machine.start (.empty none) arrangement).newGlobal =
      (⟨0, []⟩, freshMachine arrangement) := rfl
  constructor
  · intro noSession
    simp [run, begin, initial, isSource, runs, noSession, executed, reported]
  · intro session
    have begins : begin arrangement files options =
        startSession ⟨0, []⟩ (report.getD "") after := by
      simp [begin, initial, isSource, runs, session, executed]
    exact run_of_session begins (unlimited_of_leaves leaves) stdin

variable (arrangement) in
private theorem run_of_printed {text : String} {program : Program}
    (prints : options.printOnly = true)
    (gives : options.Gives files text) (parsed : Program.ofSource text = .ok program)
    (stdin : ByteArray) :
    (run arrangement files options stdin).stdout = (program.render ++ "\n").toUTF8 ∧
      (run arrangement files options stdin).exitCode = 0 ∧
      (begin arrangement files options).machine =
        (freshMachine arrangement).withOutput (run arrangement files options stdin).stdout := by
  obtain ⟨source, isSource, built⟩ := gives.build
  have begins : begin arrangement files options =
      ⟨(freshMachine arrangement).withOutput (.empty ++ (program.render ++ "\n").toUTF8), "",
        .exit 0⟩ := by
    simp only [begin, isSource, prints, if_true, printSource, built, parsed, Except.mapError]
    rfl
  simp [run, begins, Machine.withOutput]

variable (arrangement) in
private theorem run_of_unprinted (named : options.HasSource) (prints : options.printOnly = true)
    (unbuilt : ∀ text program, options.Gives files text → Program.ofSource text ≠ .ok program)
    (stdin : ByteArray) :
    (run arrangement files options stdin).stdout = .empty ∧
      (run arrangement files options stdin).exitCode = 1 ∧
      (begin arrangement files options).machine =
        (freshMachine arrangement).withOutput (run arrangement files options stdin).stdout := by
  obtain ⟨source, error, isSource, built⟩ := Options.build_of_unbuilt named unbuilt
  have begins : begin arrangement files options =
      ⟨freshMachine arrangement, error.report source, .exit 1⟩ := by
    simp only [begin, isSource, prints, if_true, printSource, built]
    rfl
  rw [run, begins]
  exact ⟨rfl, rfl, rfl⟩

end Whole

/-- The program does what its arguments say, and its exit code tells how that went. A source is run
in an empty environment, and its output comes first; after a failure what was done before it
remains. With `-P` nothing is run and only the canonical text is written. A session, with `-i` or
without a source, comes last and decides on the exit code. -/
theorem run_faithful (arrangement : Arrangement) (files : Files) (options : Options)
    (stdin : ByteArray) :
    (options.HasSource → options.printOnly = false →
      (∃ failed after, options.Leaves arrangement files failed after) ∧
      (∀ (program : Program) (cause : RuntimeError) (after : Machine),
        program.run defaultCallLimit ⟨0, []⟩ (freshMachine arrangement) = (.error cause, after) →
        program.FailsAt defaultCallLimit ⟨0, []⟩ (freshMachine arrangement) cause after) ∧
      ∀ failed after, options.Leaves arrangement files failed after →
        (options.interactive = false →
          (run arrangement files options stdin).stdout = after.sink.written ∧
            (run arrangement files options stdin).exitCode = if failed then 1 else 0) ∧
        (options.interactive = true → ∃ out,
          (run arrangement files options stdin).stdout =
              after.sink.written ++ (banner.toUTF8 ++ out) ∧
            SessionEnds stdin after out (run arrangement files options stdin).exitCode)) ∧
    (options.HasSource → options.printOnly = true →
      (begin arrangement files options).machine =
          (freshMachine arrangement).withOutput (run arrangement files options stdin).stdout ∧
      (∀ text program, options.Gives files text → Program.ofSource text = .ok program →
        (run arrangement files options stdin).stdout = (program.render ++ "\n").toUTF8 ∧
          (run arrangement files options stdin).exitCode = 0) ∧
      ((∀ text program, options.Gives files text → Program.ofSource text ≠ .ok program) →
        (run arrangement files options stdin).stdout = .empty ∧
          (run arrangement files options stdin).exitCode = 1)) ∧
    (¬ options.HasSource → ∃ out,
      (run arrangement files options stdin).stdout = banner.toUTF8 ++ out ∧
        SessionEnds stdin (freshMachine arrangement) out
          (run arrangement files options stdin).exitCode) := by
  refine ⟨fun named runs => ⟨options.exists_leaves arrangement files, ?failure, ?runs⟩,
    fun named prints => ⟨?unchanged, ?printed, ?unprinted⟩, ?noSource⟩
  case failure => exact fun program cause after failed => Program.failsAt_of_run failed
  case runs => exact fun failed after leaves => run_of_leaves named runs leaves stdin
  case unchanged =>
    by_cases built : ∃ text program, options.Gives files text ∧ Program.ofSource text = .ok program
    · obtain ⟨text, program, gives, parsed⟩ := built
      exact (run_of_printed arrangement prints gives parsed stdin).2.2
    · refine (run_of_unprinted arrangement named prints ?_ stdin).2.2
      exact fun text program gives parsed => built ⟨text, program, gives, parsed⟩
  case printed =>
    intro text program gives parsed
    have printed := run_of_printed arrangement prints gives parsed stdin
    exact ⟨printed.1, printed.2.1⟩
  case unprinted =>
    intro unbuilt
    have unprinted := run_of_unprinted arrangement named prints unbuilt stdin
    exact ⟨unprinted.1, unprinted.2.1⟩
  case noSource =>
    intro unnamed
    obtain ⟨noSnippet, noFile⟩ := not_or.mp unnamed
    have begins : begin arrangement files options =
        startSession ⟨0, []⟩ "" (freshMachine arrangement) := by
      simp only [begin, Options.source?, not_not.mp noSnippet, not_not.mp noFile]
      rfl
    obtain ⟨out, written, ends⟩ := run_of_session begins rfl stdin
    refine ⟨out, ?_, ends⟩
    rw [written]
    exact ByteArray.empty_append

def failingOptions (interactive : Bool) : Options := ⟨none, some "sample", false, interactive⟩

def failingFiles : Files := fun _ => .ok "let a = 1; c".toUTF8

theorem run_faithful_failing :
    (∀ interactive, (failingOptions interactive).Leaves .byInsertion failingFiles true
        ((freshMachine .byInsertion).set ⟨0, []⟩ "a" (.int 1))) ∧
      Repl.BreaksOff (Repl.splitLines [97, 10, 255]) ∧
      (run .byInsertion failingFiles (failingOptions false) ⟨#[]⟩).stdout = .empty ∧
      (run .byInsertion failingFiles (failingOptions false) ⟨#[]⟩).exitCode = 1 ∧
      (run .byInsertion failingFiles (failingOptions true) ⟨#[97, 10, 255]⟩).exitCode = 1 := by
  have parsed : Program.ofSource "let a = 1; c" = .ok Repl.failingSample := by cbv
  have leaves : ∀ interactive, (failingOptions interactive).Leaves .byInsertion failingFiles true
      ((freshMachine .byInsertion).set ⟨0, []⟩ "a" (.int 1)) := by
    intro interactive
    have gives : (failingOptions interactive).Gives failingFiles "let a = 1; c" :=
      .file rfl rfl rfl
    exact .failed gives parsed rfl
  have breaks : Repl.BreaksOff (Repl.splitLines [97, 10, 255]) := by
    refine @Repl.BreaksOff.later "a\n" _ (by decide) (.here fun text isText => ?_)
    have decoded := Repl.fromUTF8_bytes text
    rw [← isText, String.fromUTF8?, dif_neg (by decide)] at decoded
    cases decoded
  have plain :=
    (run_faithful .byInsertion failingFiles (failingOptions false) ⟨#[]⟩).1 (by decide) rfl
  have session := (run_faithful .byInsertion failingFiles (failingOptions true)
    ⟨#[97, 10, 255]⟩).1 (by decide) rfl
  obtain ⟨stdout, exitCode⟩ := (plain.2.2 _ _ (leaves false)).1 rfl
  obtain ⟨_, _, ends⟩ := (session.2.2 _ _ (leaves true)).2 rfl
  exact ⟨leaves, breaks, stdout, exitCode, ends.failure breaks⟩

end CommandLine

end Script
