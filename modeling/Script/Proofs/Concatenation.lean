import Script.Proofs.CanonicalText
import Script.Proofs.EvaluationRules
import Script.Proofs.ParserSoundness

/-!
# One source behind another

A source whose last token is a `;` can be parsed on its own: what is written behind it adds its own
statements and faults and changes nothing before. In the same way a program can be run on its own,
and what comes behind it goes on from the machine that it leaves, unless it ends early.
-/

set_option autoImplicit false

namespace Script

namespace Parser

open Grammar

/-! ## Parsing -/

/-- Where no `;` is missing between two statements, none is needed. -/
theorem juxtaposable_of_standsApart {kind : TokenKind} (apart : StandsApart kind) :
    Juxtaposable kind :=
  ⟨fun minus => apart (.inl ⟨.sub, minus⟩), fun opens => apart (.inr (.inl opens)),
    fun opens => apart (.inr (.inr opens))⟩

private theorem not_closes_of_semicolon {tokens : List Token} {last : Token}
    (isLast : tokens.getLast? = some last) (semicolon : last.kind = .semicolon) :
    ¬ EndsWith closingKinds tokens := by
  rintro ⟨last', isLast', closing⟩
  cases isLast.symm.trans isLast'
  rw [semicolon] at closing
  exact absurd closing (by decide)

/-- The tokens of a statement give the same statement in front of everything that ends it. -/
theorem statement_reads_before {token : Token} {rest tokens gap left : List Token}
    {stmt : Stmt} (single : Single StandsApart tokens stmt)
    (split : token :: rest = tokens ++ gap) (ends : EndsExpr (headKind gap))
    (reads : (statement token rest).Reads stmt left) {gap' : List Token}
    (ends' : EndsExpr (headKind gap')) :
    ∃ tail, rest = tail ++ gap ∧ left = skipSemicolon gap ∧
      (statement token (tail ++ gap')).Reads stmt (skipSemicolon gap') := by
  have single' := single.imp fun _ => juxtaposable_of_standsApart
  obtain ⟨first, tail, read, rfl, _, readsBefore⟩ := single_recovers single'
  obtain ⟨rfl, rfl⟩ := List.cons.inj split
  have readsGap := readsBefore ends
  obtain rfl : read = stmt := Option.some.inj (readsGap.value_eq.symm.trans reads.value_eq)
  exact ⟨tail, rfl, reads.rest_eq.symm.trans readsGap.rest_eq, readsBefore ends'⟩

private theorem skipSemicolon_append {tokens : List Token} (nonempty : tokens ≠ [])
    (unskipped : skipSemicolon tokens = tokens) (more : List Token) :
    skipSemicolon (tokens ++ more) = tokens ++ more := by
  refine skipSemicolon_of_ne ?_
  rw [headKind_append nonempty]
  intro semicolon
  cases tokens with
  | nil => exact nonempty rfl
  | cons token rest =>
      rw [skipSemicolon_cons semicolon] at unskipped
      exact List.ne_cons_self unskipped

/-- A statement is read in the same way with more tokens behind, if a token is left that ends it or
if the last token is a `;`. -/
theorem statement_append {token last : Token} {rest left : List Token} {stmt : Stmt}
    (reads : (statement token rest).Reads stmt left)
    (isLast : (token :: rest).getLast? = some last) (semicolon : last.kind = .semicolon)
    (goesOn : headKind left ≠ .kwElse) (more : List Token) :
    (statement token (rest ++ more)).Reads stmt (left ++ more) := by
  obtain ⟨used, value, valueIs, split, ended⟩ := statement_accounts token rest reads.errors_eq
  cases reads.value_eq.symm.trans valueIs
  rw [reads.rest_eq] at split ended
  rcases ended with ⟨tokens, separator, rfl, separates, single⟩ | ⟨single, apart⟩
  · have ends (rest : List Token) : EndsExpr (headKind (separator :: rest)) :=
      endsExpr_cons separates (by decide) rest
    rw [List.append_assoc] at split
    obtain ⟨tail, rfl, _, readsMore⟩ :=
      statement_reads_before single split (ends left) reads (ends (left ++ more))
    rw [skipSemicolon_cons separates] at readsMore
    rwa [List.append_assoc]
  · have nonempty : left ≠ [] := by
      rintro rfl
      rw [List.append_nil] at split
      exact not_closes_of_semicolon isLast semicolon (split ▸ single.closes)
    have ends : EndsExpr (headKind left) :=
      ⟨goesOn, not_lt.mp fun binds => apart (Precedence.lowest_lt_ofKind_iff.mp binds)⟩
    have endsMore : EndsExpr (headKind (left ++ more)) := by
      rwa [headKind_append nonempty]
    obtain ⟨tail, rfl, unskipped, readsMore⟩ :=
      statement_reads_before single split ends reads endsMore
    rw [skipSemicolon_append nonempty unskipped.symm] at readsMore
    rwa [List.append_assoc]

/-- No program starts with an `else`, so that the end of one cannot be continued by the start of
another. -/
theorem headKind_ne_else {tokens : List Token} (faultless : (statements tokens).2 = []) :
    headKind tokens ≠ .kwElse := by
  have written := (statements_written tokens faultless).imp fun _ => juxtaposable_of_standsApart
  rcases sequence_starts written with rfl | starts
  · decide
  · intro otherwise
    rw [otherwise] at starts
    exact absurd starts (by decide)

/-- Tokens behind a `;` that ends a statement are parsed on their own. -/
theorem statements_append {tokens : List Token} {last : Token}
    (faultless : (statements tokens).2 = []) (isLast : tokens.getLast? = some last)
    (semicolon : last.kind = .semicolon) (more : List Token) :
    statements (tokens ++ more) =
      ((statements tokens).1 ++ (statements more).1, (statements more).2) := by
  fun_induction statements tokens with
  | case1 => cases isLast
  | case2 token rest first others ih =>
      obtain ⟨firstFaultless, othersFaultless⟩ := List.append_eq_nil_iff.mp faultless
      obtain ⟨used, stmt, stmtIs, split, _⟩ := statement_accounts token rest firstFaultless
      have reads : first.Reads stmt first.rest := ⟨stmtIs, rfl, firstFaultless⟩
      have readsMore :=
        statement_append reads isLast semicolon (headKind_ne_else othersFaultless) more
      rw [List.cons_append, statements_cons, readsMore.value_eq, readsMore.rest_eq,
        readsMore.errors_eq, stmtIs]
      cases left : first.rest with
      | nil => simp [others, left, statements_nil]
      | cons next rest' =>
          have nonempty : first.rest ≠ [] := left ▸ List.cons_ne_nil next rest'
          rw [split, List.getLast?_append_of_ne_nil used nonempty] at isLast
          rw [← left, ih othersFaultless isLast]
          simp [others]

end Parser

/-! ## Running -/

namespace Stmt

/-- What the statements before gave does not matter to a statement. -/
theorem evalAll_of_ne_nil (call : Caller) (env : Env) (last : Option Value) {stmts : List Stmt}
    (nonempty : stmts ≠ []) :
    Stmt.evalAll call env last stmts = Stmt.evalAll call env none stmts := by
  cases stmts with
  | nil => exact absurd rfl nonempty
  | cons stmt rest => simp only [Stmt.evalAll]

/-- After statements that ended without an interrupt the same limit leaves the same budget. -/
theorem depth_of_evalAll {limit budget : Nat} {env : Env} {last : Option Value}
    {stmts : List Stmt} {machine after : Machine} {result : Option Value}
    (ended : Stmt.evalAll (Value.apply limit budget) env last stmts machine =
      (.ok result, after)) : after.depth = machine.depth :=
  @Task.depth_of_run limit budget (.stmts env last stmts) _ _ _ (Run.map_of_ok Outcome.last ended)

end Stmt

namespace Program

def append (first second : Program) : Program := ⟨first.statements ++ second.statements⟩

/-- Run the statements of a program. A `return` outside of functions interrupts them. -/
def execute (limit : Nat) (env : Env) (program : Program) : Run Interrupt (Option Value) :=
  .withLimit limit fun call => Stmt.evalAll call env none program.statements

variable {limit : Nat} {env : Env} {first : Program} {machine after : Machine}

theorem run_of_execute_ok {result : Option Value}
    (ended : first.execute limit env machine = (.ok result, after)) :
    first.run limit env machine = (.ok result, after) := by
  change (first.execute limit env).catchReturn some machine = _
  rw [Run.catchReturn, ended]

theorem run_of_execute_returned {value : Value}
    (ended : first.execute limit env machine = (.error (.returned value), after)) :
    first.run limit env machine = (.ok (some value), after) := by
  change (first.execute limit env).catchReturn some machine = _
  rw [Run.catchReturn, ended]

theorem run_of_execute_failed {cause : RuntimeError}
    (ended : first.execute limit env machine = (.error (.failed cause), after)) :
    first.run limit env machine = (.error cause, after) := by
  change (first.execute limit env).catchReturn some machine = _
  rw [Run.catchReturn, ended]

/-- The second program goes on from the value of the first, and on the machine that it left. -/
theorem execute_append (second : Program) :
    (first.append second).execute limit env machine =
      (first.execute limit env >>= fun result => .withLimit limit fun call =>
        Stmt.evalAll call env result second.statements) machine := by
  change Stmt.evalAll _ env none (first.statements ++ second.statements) machine = _
  rw [Stmt.evalAll_append, Run.bind_apply, Run.bind_apply]
  cases ended : first.execute limit env machine with
  | mk result after =>
      rw [show Stmt.evalAll _ env none first.statements machine = _ from ended]
      cases result with
      | error interrupt => rfl
      | ok result =>
          dsimp only [Run.withLimit]
          rw [Stmt.depth_of_evalAll ended]

private theorem execute_append_of_error {interrupt : Interrupt}
    (ended : first.execute limit env machine = (.error interrupt, after)) (second : Program) :
    (first.append second).execute limit env machine = (.error interrupt, after) := by
  rw [execute_append, Run.bind_of_error _ ended]

/-- Behind a program that does not end early the next one goes on with the machine. -/
theorem execute_append_of_ok {result : Option Value}
    (ended : first.execute limit env machine = (.ok result, after)) {second : Program}
    (nonempty : second.statements ≠ []) :
    (first.append second).execute limit env machine = second.execute limit env after := by
  rw [execute_append, Run.bind_of_ok _ ended]
  exact congrFun (Stmt.evalAll_of_ne_nil _ env result nonempty) after

private theorem run_append_of_ok {result : Option Value}
    (ended : first.execute limit env machine = (.ok result, after)) (second : Program) :
    (first.append second).run limit env machine =
      if second.statements = [] then (.ok result, after) else second.run limit env after := by
  by_cases nothing : second.statements = []
  · rw [if_pos nothing, append, nothing, List.append_nil]
    exact run_of_execute_ok ended
  · rw [if_neg nothing]
    change (execute limit env _).catchReturn some machine =
      (execute limit env _).catchReturn some after
    rw [Run.catchReturn, Run.catchReturn, execute_append_of_ok ended nothing]

/-! ## Both -/

/-- A source that is complete and whose last token is a `;` is parsed as if nothing came behind. -/
theorem parse_append {first : String} {program : Program} {last : Token}
    (parsed : ofSource first = .ok program)
    (isLast : (Lexer.tokens first.toList).getLast? = some last)
    (semicolon : last.kind = .semicolon) (second : String) :
    parse (first ++ second) = (program.append (parse second).1, (parse second).2) := by
  obtain ⟨stmtsAre, faultless⟩ := ofSource_eq_ok_iff.mp parsed
  have closed : last.kind ∉ Lexer.openEnded := by
    rw [semicolon]
    decide
  have seals : Lexer.Seals first (Lexer.tokens first.toList) :=
    Lexer.seals_of_last rfl isLast closed
  simp only [parse, append]
  rw [String.toList_append, seals, Parser.statements_append faultless isLast semicolon, stmtsAre]

/-- Reading and running in one go or in two comes to the same. Whatever stands behind a complete
source that a `;` ends adds its own statements and faults. A program behind another one goes on
where that one stopped, and is not reached if that one fails or returns. -/
theorem parse_and_run_append :
    (∀ (first second : String) (program : Program) (last : Token),
      ofSource first = .ok program → (Lexer.tokens first.toList).getLast? = some last →
      last.kind = .semicolon →
      parse (first ++ second) = (program.append (parse second).1, (parse second).2)) ∧
    ∀ (limit : Nat) (env : Env) (first second : Program) (machine : Machine),
      match first.execute limit env machine with
      | (.ok result, after) =>
          first.run limit env machine = (.ok result, after) ∧
          (first.append second).run limit env machine =
            if second.statements = [] then (.ok result, after) else second.run limit env after
      | (.error (.returned value), after) =>
          first.run limit env machine = (.ok (some value), after) ∧
          (first.append second).run limit env machine = (.ok (some value), after)
      | (.error (.failed cause), after) =>
          first.run limit env machine = (.error cause, after) ∧
          (first.append second).run limit env machine = (.error cause, after) := by
  refine ⟨fun first second program last parsed isLast semicolon =>
    parse_append parsed isLast semicolon second, ?_⟩
  intro limit env first second machine
  cases ended : first.execute limit env machine with
  | mk result after =>
      cases result with
      | ok result => exact ⟨run_of_execute_ok ended, run_append_of_ok ended second⟩
      | error interrupt =>
          have endedBoth := execute_append_of_error ended second
          cases interrupt with
          | returned value =>
              exact ⟨run_of_execute_returned ended, run_of_execute_returned endedBoth⟩
          | failed cause => exact ⟨run_of_execute_failed ended, run_of_execute_failed endedBoth⟩

/-- The program `f;` with `(1` behind it, which is malformed and would have been a call. -/
theorem parse_and_run_append_opening :
    ofSource "f;" = .ok ⟨[.expr ⟨.ident, "f"⟩ (.ident ⟨.ident, "f"⟩)]⟩ ∧
      parse ("f;" ++ "(1") =
        (⟨[.expr ⟨.ident, "f"⟩ (.ident ⟨.ident, "f"⟩)]⟩, [.unexpected .closeParen .eof]) := by
  have parsed : ofSource "f;" = .ok ⟨[.expr ⟨.ident, "f"⟩ (.ident ⟨.ident, "f"⟩)]⟩ := by cbv
  have malformed : parse "(1" = (⟨[]⟩, [.unexpected .closeParen .eof]) := by cbv
  refine ⟨parsed, ?_⟩
  rw [parse_and_run_append.1 "f;" "(1" _ ⟨.semicolon, ";"⟩ parsed (by cbv) rfl, malformed]
  rfl

end Program

end Script
