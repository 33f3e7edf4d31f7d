import Script.Proofs.ReadableValues

/-!
# Recursion up to the limit

A function that counts down by calling itself needs one call for each step and one for the end. It
ends with its value when the limit leaves room for all of them, and else with the error of the
limit; the limit is met exactly, from the text of the program on.
-/

set_option autoImplicit false

namespace Script

open Lexer Script.Parser

namespace Countdown

/-- The body `{ if (n == 0) { 0 } else { g(n - 1) } }`. -/
def body : Block :=
  ⟨⟨.openBrace, "\x7b"⟩,
    [.expr ⟨.kwIf, "if"⟩
      (.conditional ⟨.kwIf, "if"⟩
        (.binary ⟨.equal, "=="⟩ .eq (.ident ⟨.ident, "n"⟩) (.int ⟨.int, "0"⟩ 0))
        ⟨⟨.openBrace, "\x7b"⟩, [.expr ⟨.int, "0"⟩ (.int ⟨.int, "0"⟩ 0)]⟩
        (some ⟨⟨.openBrace, "\x7b"⟩,
          [.expr ⟨.ident, "g"⟩
            (.call ⟨.openParen, "("⟩ (.ident ⟨.ident, "g"⟩)
              [.binary ⟨.minus, "-"⟩ .sub (.ident ⟨.ident, "n"⟩) (.int ⟨.int, "1"⟩ 1)])]⟩))]⟩

def closure (env : Env) : Closure := ⟨[⟨.ident, "n"⟩], body, env⟩

def binding : Stmt :=
  .bind ⟨.kwLet, "let"⟩ ⟨.ident, "g"⟩ (.function ⟨.kwFn, "fn"⟩ [⟨.ident, "n"⟩] body)

def program (k : Nat) : Program :=
  ⟨[binding,
    .expr ⟨.ident, "g"⟩
      (.call ⟨.openParen, "("⟩ (.ident ⟨.ident, "g"⟩) [.int (.numeral k) (Int64.ofNat k)])]⟩

def source (k : Nat) : String :=
  "let g = fn(n) \x7b if (n == 0) \x7b 0 \x7d else \x7b g(n - 1) \x7d \x7d; g(" ++
    Text.decimal k ++ ")"

/-! ## The text -/

def bodyTokens : List Token :=
  [⟨.kwIf, "if"⟩, ⟨.openParen, "("⟩, ⟨.ident, "n"⟩, ⟨.equal, "=="⟩, ⟨.int, "0"⟩,
    ⟨.closeParen, ")"⟩, ⟨.openBrace, "\x7b"⟩, ⟨.int, "0"⟩, ⟨.closeBrace, "\x7d"⟩, ⟨.kwElse, "else"⟩,
    ⟨.openBrace, "\x7b"⟩, ⟨.ident, "g"⟩, ⟨.openParen, "("⟩, ⟨.ident, "n"⟩, ⟨.minus, "-"⟩,
    ⟨.int, "1"⟩, ⟨.closeParen, ")"⟩, ⟨.closeBrace, "\x7d"⟩, ⟨.closeBrace, "\x7d"⟩]

/-- An operation on `n` and a digit, as the argument of a call or the condition of an `if`. -/
theorem expression_reads_operation {digit : Token} {value : Int64} (operator : Token)
    (op : BinaryOp) (kind : operator.kind = op.kind)
    (digitReads : ∀ rest, (operand digit rest).Reads (.int digit value) rest) (rest : List Token) :
    (expression .lowest
        (⟨.ident, "n"⟩ :: operator :: digit :: ⟨.closeParen, ")"⟩ :: rest)).Reads
      (.binary operator op (.ident ⟨.ident, "n"⟩) (.int digit value))
      (⟨.closeParen, ")"⟩ :: rest) := by
  have ends : EndsExpr (headKind (⟨.closeParen, ")"⟩ :: rest)) := endsExpr_cons rfl (by decide) rest
  refine expression_reads (operand_reads_ident rfl _) ?_
  exact continuation_reads_binary kind op.lowest_lt_precedence
    (expression_reads_operand (digitReads _) ends) (continuation_reads_stop ends.2)

/-- A call of `g` with one argument. -/
theorem expression_reads_call {tokens rest : List Token} {argument : Expr}
    (proper : headKind tokens ≠ .closeParen)
    (reads : (expression .lowest tokens).Reads argument (⟨.closeParen, ")"⟩ :: rest))
    (ends : EndsExpr (headKind rest)) :
    (expression .lowest (⟨.ident, "g"⟩ :: ⟨.openParen, "("⟩ :: tokens)).Reads
      (.call ⟨.openParen, "("⟩ (.ident ⟨.ident, "g"⟩) [argument]) rest := by
  refine expression_reads (operand_reads_ident rfl _) ?_
  refine continuation_reads_call rfl (by decide) ?_ (continuation_reads_stop ends.2)
  rw [expressions, if_neg proper]
  exact moreExpressions_reads_last rfl (by decide) reads

/-- A block of one expression statement. -/
theorem block_reads_expr {token : Token} {tokens rest : List Token} {expr : Expr}
    (starts : token.kind ∈ Grammar.operandKinds)
    (reads : (expression .lowest (token :: tokens)).Reads expr (⟨.closeBrace, "\x7d"⟩ :: rest)) :
    (block (token :: tokens)).Reads [.expr token expr] rest := by
  have proper : token.kind ≠ .closeBrace := fun closes => absurd (closes ▸ starts) (by decide)
  exact block_reads_cons proper (statement_reads_expr starts reads) (block_reads_nil rfl rest)

private theorem block_reads_body (rest : List Token) :
    (block (bodyTokens ++ rest)).Reads body.statements rest := by
  have zero : ∀ rest, (operand ⟨.int, "0"⟩ rest).Reads (.int ⟨.int, "0"⟩ 0) rest := fun rest =>
    operand_reads_int rfl (by decide) rest
  have one : ∀ rest, (operand ⟨.int, "1"⟩ rest).Reads (.int ⟨.int, "1"⟩ 1) rest := fun rest =>
    operand_reads_int rfl (by decide) rest
  have ends : ∀ rest, EndsExpr (headKind (⟨.closeBrace, "\x7d"⟩ :: rest)) := fun rest =>
    endsExpr_cons rfl (by decide) rest
  have alternative : (block (⟨.ident, "g"⟩ :: ⟨.openParen, "("⟩ :: ⟨.ident, "n"⟩ :: ⟨.minus, "-"⟩ ::
      ⟨.int, "1"⟩ :: ⟨.closeParen, ")"⟩ :: ⟨.closeBrace, "\x7d"⟩ :: ⟨.closeBrace, "\x7d"⟩ ::
        rest)).Reads _ (⟨.closeBrace, "\x7d"⟩ :: rest) :=
    block_reads_expr (by decide) (expression_reads_call nofun
      (expression_reads_operation ⟨.minus, "-"⟩ .sub rfl one _) (ends _))
  have conditional := operand_reads_alternative (Token.kind_mk .kwIf "if")
    (Token.kind_mk .openParen "(") rfl rfl (Token.kind_mk .kwElse "else") rfl
    (expression_reads_operation ⟨.equal, "=="⟩ .eq rfl zero
      (⟨.openBrace, "\x7b"⟩ :: ⟨.int, "0"⟩ :: ⟨.closeBrace, "\x7d"⟩ :: ⟨.kwElse, "else"⟩ ::
        ⟨.openBrace, "\x7b"⟩ :: _))
    (block_reads_expr (by decide) (expression_reads_operand (zero _) (ends _))) alternative
  exact block_reads_expr (by decide) (expression_reads_operand conditional (ends rest))

private theorem seals_opening :
    Seals "let g = fn(n) \x7b if (n == 0) \x7b 0 \x7d else \x7b g(n - 1) \x7d \x7d; g("
      (⟨.kwLet, "let"⟩ :: ⟨.ident, "g"⟩ :: ⟨.assign, "="⟩ :: ⟨.kwFn, "fn"⟩ :: ⟨.openParen, "("⟩ ::
        ⟨.ident, "n"⟩ :: ⟨.closeParen, ")"⟩ :: ⟨.openBrace, "\x7b"⟩ ::
          (bodyTokens ++ [⟨.semicolon, ";"⟩, ⟨.ident, "g"⟩, ⟨.openParen, "("⟩])) :=
  seals_of_last (by cbv) rfl (by decide)

private theorem tokens_source (k : Nat) :
    tokens (source k).toList =
      ⟨.kwLet, "let"⟩ :: ⟨.ident, "g"⟩ :: ⟨.assign, "="⟩ :: ⟨.kwFn, "fn"⟩ :: ⟨.openParen, "("⟩ ::
        ([⟨.ident, "n"⟩] ++ ⟨.closeParen, ")"⟩ :: ⟨.openBrace, "\x7b"⟩ ::
          (bodyTokens ++ [⟨.semicolon, ";"⟩, ⟨.ident, "g"⟩, ⟨.openParen, "("⟩, .numeral k,
            ⟨.closeParen, ")"⟩])) := by
  have seals := (seals_opening.append_spells (spells_numeral k)).append_seals seals_closeParen rfl
  have atEnd := seals []
  rw [← Text.decimal_natCast, List.append_nil, tokens_nil] at atEnd
  exact atEnd

private theorem ofSource_source {k : Nat} (small : k ≤ maxInteger) :
    Program.ofSource (source k) = .ok (program k) := by
  have ends : EndsExpr (headKind [⟨.closeParen, ")"⟩]) := by decide
  have proper : headKind [.numeral k, ⟨.closeParen, ")"⟩] ≠ .closeParen := nofun
  have call := statement_reads_expr (by decide) (expression_reads_call proper
    (expression_reads_operand (operand_reads_numeral small [⟨.closeParen, ")"⟩]) ends) (by decide))
  have function := operand_reads_function (Token.kind_mk .kwFn "fn") (Token.kind_mk .openParen "(")
    (Token.kind_mk .openBrace "\x7b")
    (parameters_reads (.last (Token.kind_mk .ident "n")) (Token.kind_mk .closeParen ")") _)
    (block_reads_body [⟨.semicolon, ";"⟩, ⟨.ident, "g"⟩, ⟨.openParen, "("⟩, .numeral k,
      ⟨.closeParen, ")"⟩])
  have binding := statement_reads_bind (Token.kind_mk .kwLet "let") (Token.kind_mk .ident "g")
    (Token.kind_mk .assign "=")
    (expression_reads_operand function (endsExpr_cons rfl (by decide) _))
  rw [Program.ofSource_eq_ok_iff, tokens_source,
    statements_cons_of_reads binding (statements_cons_of_reads call statements_nil)]
  exact ⟨rfl, rfl⟩

/-! ## One call -/

private theorem eval_block_expr (call : Caller) (env : Env) (opening token : Token) (expr : Expr) :
    (Block.mk opening [.expr token expr]).eval call env = expr.eval call env := by
  simp [Block.eval, Stmt.evalAll, Stmt.eval]

private theorem lookup_nest_of_none {machine : Machine} {scope : ScopeId} {name : String}
    (env : Env)
    (absent : machine.store.local? scope name = none) :
    lookup (env.nest scope) name machine = lookup env name machine := by
  simp [lookup, Machine.get?, ScopeStore.find?, absent]

/-- Inside of a call `n` is the argument and `g` is the function itself. -/
structure Called (machine : Machine) (env : Env) (n : Int64) (g : Value) : Prop where
  argument : lookup env "n" machine = (.ok (.int n), machine)
  itself : lookup env "g" machine = (.ok g, machine)

/-- The body ends with zero or hands one less to the next call. -/
theorem eval_body {call : Caller} {machine : Machine} {env : Env} {n : Int64} {g : Value}
    (called : Called machine env n g) :
    body.eval call env machine =
      if n = 0 then (.ok (.int 0), machine)
      else ((call g [.int (n - 1)]).interruptible >>= Run.settle) machine := by
  have condition : (Expr.binary ⟨.equal, "=="⟩ .eq (.ident ⟨.ident, "n"⟩)
      (.int ⟨.int, "0"⟩ 0)).eval call env machine = (.ok (.bool (n = 0)), machine) := by
    rw [Expr.eval, Expr.eval, Run.bind_of_ok _ called.argument]
    rfl
  have arguments : Expr.evalAll call env [.binary ⟨.minus, "-"⟩ .sub (.ident ⟨.ident, "n"⟩)
      (.int ⟨.int, "1"⟩ 1)] machine = (.ok [.int (n - 1)], machine) := by
    rw [Expr.evalAll, Expr.eval, Expr.eval, bind_assoc, Run.bind_of_ok _ called.argument]
    rfl
  rw [body, eval_block_expr, Expr.eval, Run.bind_of_ok _ condition]
  by_cases zero : n = 0
  · simp only [zero, decide_true, Value.truthy, if_true, eval_block_expr]
    rfl
  · simp only [zero, decide_false, Value.truthy, Bool.false_eq_true, if_false, eval_block_expr]
    rw [Expr.eval, Expr.eval, Run.bind_of_ok _ called.itself, Run.bind_of_ok _ arguments]

def inside (machine : Machine) (n : Int64) : Machine :=
  { machine with
    store := ⟨machine.store.scopes.push ⟨[("n", .int n)]⟩⟩
    depth := machine.depth + 1 }

def Bound (machine : Machine) (env : Env) (ref : Ref) : Prop :=
  machine.store.local? env.scope "g" = some (.function ref (closure env))

theorem Bound.inside {machine : Machine} {env : Env} {ref : Ref} (bound : Bound machine env ref)
    (n : Int64) : Bound (inside machine n) env ref := by
  have kept := ScopeStore.local?_add machine.store ⟨[("n", .int n)]⟩ env.scope "g"
  have older : env.scope ≠ machine.store.scopes.size := by
    intro newest
    simp [Bound, ScopeStore.local?, newest] at bound
  rw [if_neg older] at kept
  exact kept.trans bound

private theorem Bound.called {machine : Machine} {env : Env} {ref : Ref}
    (bound : Bound machine env ref)
    (n : Int64) :
    Called (Countdown.inside machine n) (env.nest machine.store.scopes.size) n
      (.function ref (closure env)) := by
  have fresh := ScopeStore.local?_add machine.store ⟨[("n", .int n)]⟩ machine.store.scopes.size
  have argument : (Countdown.inside machine n).store.local?
      (env.nest machine.store.scopes.size).scope "n" = some (.int n) :=
    (fresh "n").trans (if_pos rfl)
  have absent : (Countdown.inside machine n).store.local? machine.store.scopes.size "g" = none :=
    (fresh "g").trans (if_pos rfl)
  constructor
  · exact lookup_of_local? argument
  · exact (lookup_nest_of_none env absent).trans (lookup_of_local? (bound.inside n))

/-- A call of the function is a run of its body, which a `return` would end. -/
theorem Bound.enter_closure {machine : Machine} {env : Env} {ref : Ref}
    (bound : Bound machine env ref) (n : Int64) (call : Caller) :
    (closure env).enter [.int n] call machine =
      if n = 0 then (.ok (.int 0), (Countdown.inside machine n).leaveCall)
      else
        match (((call (.function ref (closure env)) [.int (n - 1)]).interruptible >>=
          Run.settle).catchReturn id) (Countdown.inside machine n) with
        | (result, after) => (result, after.leaveCall) := by
  have evaluated := @eval_body call _ _ _ _ (bound.called n)
  change (match (body.eval call (env.nest machine.store.scopes.size)).catchReturn id
    (Countdown.inside machine n) with | (result, after) => (result, after.leaveCall)) = _
  by_cases zero : n = 0
  · rw [if_pos zero] at evaluated ⊢
    rw [Run.catchReturn, evaluated]
  · rw [if_neg zero] at evaluated ⊢
    rw [Run.catchReturn, evaluated, Run.catchReturn]

/-! ## All calls -/

/-- An integer that a call gives, or a failure of it, goes through the expression of the call. -/
theorem settle_outcome {run : Run RuntimeError Value} {machine after : Machine}
    {outcome : Except RuntimeError Value} (ended : run machine = (outcome, after))
    (plain : ∀ value, outcome = .ok value → ∃ n, value = .int n) :
    (run.interruptible >>= Run.settle) machine = (outcome.mapError .failed, after) := by
  rw [Run.bind_apply, Run.interruptible, Run.mapError, ended]
  cases outcome with
  | error cause => rfl
  | ok value =>
      obtain ⟨n, rfl⟩ := plain value rfl
      rfl

private theorem catchReturn_outcome {run : Run Interrupt Value} {machine after : Machine}
    {outcome : Except RuntimeError Value}
    (ended : run machine = (outcome.mapError .failed, after)) :
    run.catchReturn id machine = (outcome, after) := by
  rw [Run.catchReturn, ended]
  cases outcome <;> rfl

/-- What counting down from `k` comes to when `budget` calls may still be nested. -/
def outcome (limit budget k : Nat) : Except RuntimeError Value :=
  if k < budget then .ok (.int 0) else .error (.callDepthExceeded limit)

/-- Counting down gives integers only, and so no marker. -/
theorem outcome_plain {limit budget k : Nat} {value : Value}
    (isValue : outcome limit budget k = .ok value) : ∃ n, value = .int n := by
  unfold outcome at isValue
  split at isValue
  · cases isValue
    exact ⟨0, rfl⟩
  · cases isValue

private theorem ofNat_succ_ne_zero {k : Nat} (small : k + 1 ≤ maxInteger) :
    Int64.ofNat (k + 1) ≠ 0 := by
  intro zero
  have value : (Int64.ofNat (k + 1)).toInt = (k + 1 : Nat) :=
    Int64.toInt_ofNat_of_lt (Nat.lt_of_le_of_lt small (by decide))
  rw [zero, Int64.toInt_zero] at value
  omega

private theorem ofNat_succ_sub_one (k : Nat) : Int64.ofNat (k + 1) - 1 = Int64.ofNat k := by
  rw [Int64.ofNat_add]
  exact Int64.add_sub_cancel _ _

/-- Each call takes one unit of the budget, and `k + 1` of them are needed. The scopes that the
calls make are all that they leave. -/
theorem Bound.apply_closure {limit k budget : Nat} {machine : Machine} {env : Env} {ref : Ref}
    (bound : Bound machine env ref) (small : k ≤ maxInteger) :
    ∃ added : Array Scope,
      Value.apply limit budget (.function ref (closure env)) [.int (Int64.ofNat k)] machine =
        (outcome limit budget k, { machine with store := ⟨machine.store.scopes ++ added⟩ }) := by
  induction budget generalizing k machine with
  | zero =>
      refine ⟨#[], ?_⟩
      rw [Value.apply_of_exhausted rfl, Array.append_empty, outcome, if_neg (Nat.not_lt_zero k)]
      rfl
  | succ budget ih =>
      cases k with
      | zero =>
          refine ⟨#[⟨[("n", .int 0)]⟩], ?_⟩
          rw [Value.apply_of_allowed rfl, bound.enter_closure, if_pos (by decide), outcome,
            if_pos (Nat.zero_lt_succ budget)]
          rfl
      | succ k =>
          have next := bound.inside (Int64.ofNat (k + 1))
          obtain ⟨added, called⟩ := ih next (Nat.le_of_succ_le small)
          have ended := catchReturn_outcome (settle_outcome called fun _ => outcome_plain)
          refine ⟨#[⟨[("n", .int (Int64.ofNat (k + 1)))]⟩] ++ added, ?_⟩
          rw [Value.apply_of_allowed rfl, bound.enter_closure, if_neg (ofNat_succ_ne_zero small),
            ofNat_succ_sub_one, ended, ← Array.append_assoc, ← Array.push_eq_append]
          simp only [outcome, Nat.add_lt_add_iff_right]
          rfl

/-! ## The program -/

/-- The binding fills a new outermost scope. -/
theorem eval_binding {machine opened : Machine} {env : Env}
    (opens : machine.newGlobal = (env, opened)) :
    ∃ defined : Machine, (∀ call, binding.eval call env opened = (.ok none, defined)) ∧
      defined.depth = machine.depth ∧
      defined.store.scopes[env.scope]? =
        some ⟨[("g", .function machine.nextRef (closure env))]⟩ := by
  obtain ⟨store, nextRef, sink, depth⟩ := machine
  cases opens
  refine ⟨_, fun _ => rfl, rfl, ?_⟩
  change ((store.scopes.push .empty).modify store.scopes.size _)[store.scopes.size]? = _
  rw [Array.getElem?_modify, if_pos rfl, Array.getElem?_push_size]
  rfl

/-- After the binding all that is left is the call. -/
theorem Bound.run_program {limit k : Nat} {machine opened : Machine} {env : Env} {ref : Ref}
    (bound : Bound machine env ref) (small : k ≤ maxInteger) (idle : opened.depth = 0)
    (binds : ∀ call, binding.eval call env opened = (.ok none, machine)) :
    ∃ added : Array Scope,
      (program k).run limit env opened =
        ((outcome limit limit k).map some,
          { machine with store := ⟨machine.store.scopes ++ added⟩ }) := by
  obtain ⟨added, called⟩ := @Bound.apply_closure limit k limit _ _ _ bound small
  refine ⟨added, ?_⟩
  have found : lookup env "g" machine = (.ok (.function ref (closure env)), machine) :=
    lookup_of_local? bound
  have ended := settle_outcome called fun _ => outcome_plain
  have evaluated : (Expr.call ⟨.openParen, "("⟩ (.ident ⟨.ident, "g"⟩)
      [.int (.numeral k) (Int64.ofNat k)]).eval (Value.apply limit limit) env machine =
        ((outcome limit limit k).mapError .failed,
          { machine with store := ⟨machine.store.scopes ++ added⟩ }) := by
    rw [Expr.eval, Expr.eval, Run.bind_of_ok _ found]
    exact ended
  have budget : limit - opened.depth = limit := by rw [idle, Nat.sub_zero]
  rw [Program.run, Run.withLimit, budget, program, Run.catchReturn, Stmt.evalAll,
    Run.bind_of_ok _ (binds _), Stmt.evalAll, Stmt.eval, bind_assoc, Run.bind_apply, evaluated]
  cases outcome limit limit k <;> rfl

/-- Counting down from `k` in a new environment gives zero when fewer than `limit` calls have to be
nested inside of the first, and else the error of the limit. Either way no call is active
afterwards, and the environment binds `g` and nothing else. -/
theorem evaluate_source {limit k : Nat} {machine opened : Machine} {env : Env}
    (small : k ≤ maxInteger) (idle : machine.depth = 0)
    (opens : machine.newGlobal = (env, opened)) :
    ∃ program after, Program.ofSource (source k) = .ok program ∧
      program.evaluate limit env opened =
        (some (if k < limit then .int 0 else .error (.callDepthExceeded limit)), after) ∧
      (RuntimeError.callDepthExceeded limit).message =
        "maximum call depth exceeded (" ++ Text.decimal limit ++ ")" ∧
      after.depth = 0 ∧
      after.store.scopes[env.scope]? =
        some ⟨[("g", .function machine.nextRef (closure env))]⟩ := by
  obtain ⟨defined, binds, sameDepth, global⟩ := eval_binding opens
  have bound : Bound defined env machine.nextRef := by
    rw [Bound, ScopeStore.local?, global]
    rfl
  have openedIdle : opened.depth = 0 := by
    cases opens
    exact idle
  obtain ⟨added, ran⟩ := @Bound.run_program limit k _ _ _ _ bound small openedIdle binds
  refine ⟨program k, { defined with store := ⟨defined.store.scopes ++ added⟩ },
    ofSource_source small, ?_, rfl, sameDepth.trans idle, ?_⟩
  · rw [Program.evaluate, ran, outcome]
    by_cases fits : k < limit
    · rw [if_pos fits, if_pos fits]
      rfl
    · rw [if_neg fits, if_neg fits]
      rfl
  · obtain ⟨inside, _⟩ := Array.getElem?_eq_some_iff.mp global
    exact (Array.getElem?_append_left inside).trans global

/-- At a limit of three, a countdown from two is the last to end and one from three the first to
fail; at a limit of zero nothing can be called. -/
theorem evaluate_source_at_limit :
    (∃ program after, Program.ofSource (source 2) = .ok program ∧
      program.evaluate 3 ⟨0, []⟩ (Machine.start (.empty none)).newGlobal.2 =
        (some (.int 0), after)) ∧
    (∃ program after, Program.ofSource (source 3) = .ok program ∧
      program.evaluate 3 ⟨0, []⟩ (Machine.start (.empty none)).newGlobal.2 =
        (some (.error (.callDepthExceeded 3)), after)) ∧
    ∃ program after, Program.ofSource (source 0) = .ok program ∧
      program.evaluate 0 ⟨0, []⟩ (Machine.start (.empty none)).newGlobal.2 =
        (some (.error (.callDepthExceeded 0)), after) := by
  refine ⟨?_, ?_, ?_⟩
  · obtain ⟨program, after, parsed, evaluated, _⟩ := @evaluate_source 3 2
      (Machine.start (.empty none)) _ _ (by decide) rfl rfl
    exact ⟨program, after, parsed, evaluated⟩
  · obtain ⟨program, after, parsed, evaluated, _⟩ := @evaluate_source 3 3
      (Machine.start (.empty none)) _ _ (by decide) rfl rfl
    exact ⟨program, after, parsed, evaluated⟩
  · obtain ⟨program, after, parsed, evaluated, _⟩ := @evaluate_source 0 0
      (Machine.start (.empty none)) _ _ (by decide) rfl rfl
    exact ⟨program, after, parsed, evaluated⟩

end Countdown

end Script
