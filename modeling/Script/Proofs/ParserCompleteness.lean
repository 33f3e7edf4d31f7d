import Mathlib.Data.List.Permutation
import Script.Proofs.Grammar
import Script.Proofs.LeadingTokens

/-!
# Every written form is read back

Tokens that write a program parse without a fault, and to that program. An operand is read together
with whatever comes behind it, so that what is proved of an expression speaks of the operators that
follow: reading its tokens comes down to reading those operators with the expression on their left.
-/

set_option autoImplicit false

namespace Script

namespace Parsed

variable {α β : Type} {bound : Nat}

structure Reads (parsed : Parsed α bound) (value : α) (rest : List Token) : Prop where
  value_eq : parsed.value = some value
  rest_eq : parsed.rest = rest
  errors_eq : parsed.errors = []

theorem reads_done {value : α} {rest : List Token} {le : rest.length ≤ bound} :
    (done value rest le).Reads value rest :=
  ⟨rfl, rfl, rfl⟩

theorem Reads.weaken {parsed : Parsed α bound} {value : α} {rest : List Token} {larger : Nat}
    (reads : parsed.Reads value rest) (le : bound ≤ larger) :
    (parsed.weaken le).Reads value rest :=
  ⟨reads.value_eq, reads.rest_eq, reads.errors_eq⟩

theorem Reads.map {parsed : Parsed α bound} {value : α} {rest : List Token}
    (reads : parsed.Reads value rest) (f : α → β) : (parsed.map f).Reads (f value) rest := by
  refine ⟨?_, reads.rest_eq, reads.errors_eq⟩
  rw [Parsed.map, reads.value_eq, Option.map_some]

theorem Reads.andThen {parsed : Parsed α bound}
    {next : α → (rest : List Token) → rest.length ≤ bound → Parsed β rest.length}
    {value : α} {result : β} {rest rest' : List Token} (first : parsed.Reads value rest)
    (second : ∀ le, (next value rest le).Reads result rest') :
    (parsed.andThen next).Reads result rest' := by
  obtain ⟨valueIs, rfl, faultless⟩ := first
  have following := second parsed.rest_le
  simp only [Parsed.andThen, valueIs]
  refine ⟨following.value_eq, following.rest_eq, ?_⟩
  rw [faultless, following.errors_eq, List.append_nil]

private theorem Reads.before {first : Parsed α bound}
    {others : (rest : List Token) → rest.length ≤ bound → Parsed (List α) rest.length}
    {value : α} {values : List α} {rest rest' : List Token} (reads : first.Reads value rest)
    (following : ∀ le, (others rest le).Reads values rest') :
    (first.before others).Reads (value :: values) rest' := by
  obtain ⟨valueIs, rfl, faultless⟩ := reads
  have othersRead := following first.rest_le
  refine ⟨?_, othersRead.rest_eq, ?_⟩
  · simp [Parsed.before, valueIs, othersRead.value_eq]
  · rw [Parsed.before, faultless, othersRead.errors_eq, List.append_nil]

end Parsed

def Expr.awaitsElse : Expr → Bool
  | .conditional _ _ _ none => true
  | _ => false

namespace Parser

open Grammar

/-! ## Reading one construct -/

theorem expect_reads {kind : TokenKind} {token : Token} (fits : token.kind = kind)
    (rest : List Token) : (expect kind (token :: rest)).Reads token rest := by
  rw [expect_cons rest fits]
  exact Parsed.reads_done

theorem expression_reads {minimum : Precedence} {token : Token} {rest rest' rest'' : List Token}
    {left result : Expr} (first : (operand token rest).Reads left rest')
    (continues : (continuation minimum left rest').Reads result rest'') :
    (expression minimum (token :: rest)).Reads result rest'' := by
  rw [expression, expressionFrom]
  exact (first.andThen fun _ => continues).weaken _

/-- Reading operators stops in front of a token that does not bind tighter. -/
theorem continuation_reads_stop {minimum : Precedence} {left : Expr} {tokens : List Token}
    (loose : .ofKind (headKind tokens) ≤ minimum) :
    (continuation minimum left tokens).Reads left tokens := by
  cases tokens with
  | nil =>
      rw [continuation]
      exact Parsed.reads_done
  | cons token rest =>
      have stops : ¬ minimum < .ofKind token.kind := not_lt_of_ge loose
      rw [continuation, if_neg stops]
      exact Parsed.reads_done

theorem continuation_reads_binary {minimum : Precedence} {token : Token} {op : BinaryOp}
    {left right result : Expr} {tokens rest rest' : List Token} (kind : token.kind = op.kind)
    (tighter : minimum < op.precedence)
    (operandReads : (expression op.precedence tokens).Reads right rest)
    (continues : (continuation minimum (.binary token op left right) rest).Reads result rest') :
    (continuation minimum left (token :: tokens)).Reads result rest' := by
  have binds : minimum < .ofKind token.kind := by
    rw [kind]
    exact tighter
  rw [continuation, if_pos binds]
  simp only [BinaryOp.ofKind?_eq_some_iff.mpr kind]
  exact (operandReads.andThen fun _ => continues).weaken _

theorem continuation_reads_call {minimum : Precedence} {token : Token} {left result : Expr}
    {arguments : List Expr} {tokens rest rest' : List Token} (kind : token.kind = .openParen)
    (weak : minimum ≤ .unary)
    (argumentsRead : (expressions .closeParen tokens).Reads arguments rest)
    (continues : (continuation minimum (.call token left arguments) rest).Reads result rest') :
    (continuation minimum left (token :: tokens)).Reads result rest' := by
  have binds : minimum < .ofKind token.kind := by
    rw [kind]
    exact lt_of_le_of_lt weak (by decide)
  rw [continuation, if_pos binds]
  simp only [kind, BinaryOp.ofKind?, if_true]
  exact (argumentsRead.andThen fun _ => continues).weaken _

theorem continuation_reads_index {minimum : Precedence} {token closing : Token}
    {left position result : Expr} {tokens rest rest' : List Token}
    (kind : token.kind = .openBracket) (closingKind : closing.kind = .closeBracket)
    (weak : minimum ≤ .unary)
    (positionReads : (expression .lowest tokens).Reads position (closing :: rest))
    (continues : (continuation minimum (.index token left position) rest).Reads result rest') :
    (continuation minimum left (token :: tokens)).Reads result rest' := by
  have binds : minimum < .ofKind token.kind := by
    rw [kind]
    exact lt_of_le_of_lt weak (by decide)
  rw [continuation, if_pos binds]
  simp only [kind, BinaryOp.ofKind?, reduceCtorEq, if_false, if_true]
  exact (positionReads.andThen fun _ =>
    (expect_reads closingKind rest).andThen fun _ => continues).weaken _

theorem moreParameters_reads {tokens names : List Token} (written : Parameters tokens names)
    {name : Token} (first : tokens.head? = some name) {closing : Token}
    (closingKind : closing.kind = .closeParen) (rest : List Token) :
    ∃ names', names = name :: names' ∧ name.kind = .ident ∧
      (moreParameters (tokens.drop 1 ++ closing :: rest)).Reads names' rest := by
  induction written generalizing name with
  | none => cases first
  | last nameKind =>
      cases first
      refine ⟨[], rfl, nameKind, ?_⟩
      rw [List.drop_one, List.tail_cons, List.nil_append, moreParameters.eq_def]
      simp only [closingKind, reduceCtorEq, if_false, if_true]
      exact Parsed.reads_done
  | @more first' comma names tokens nameKind commaKind following nonempty ih =>
      cases first
      cases tokens with
      | nil => cases following; exact absurd rfl nonempty
      | cons second tokens =>
          obtain ⟨names', rfl, secondKind, reads⟩ := ih rfl
          refine ⟨second :: names', rfl, nameKind, ?_⟩
          rw [List.drop_one, List.tail_cons, List.cons_append, List.cons_append, moreParameters,
            if_pos commaKind, if_pos secondKind]
          exact (reads.map (second :: ·)).weaken _

theorem parameters_reads {tokens names : List Token} (written : Parameters tokens names)
    {closing : Token} (closingKind : closing.kind = .closeParen) (rest : List Token) :
    (parameters (tokens ++ closing :: rest)).Reads names rest := by
  cases tokens with
  | nil =>
      cases written
      rw [List.nil_append, parameters, headKind, if_pos closingKind]
      exact Parsed.reads_done
  | cons name tokens =>
      obtain ⟨names', rfl, nameKind, reads⟩ := moreParameters_reads written rfl closingKind rest
      have proper : headKind (name :: tokens ++ closing :: rest) ≠ .closeParen := by
        rw [List.cons_append, headKind, nameKind]
        decide
      rw [parameters, if_neg proper]
      exact (expect_reads nameKind _).andThen fun _ => reads.map (name :: ·)

/-! ## Reading operands -/

theorem operand_reads_ident {token : Token} (kind : token.kind = .ident) (rest : List Token) :
    (operand token rest).Reads (.ident token) rest := by
  rw [operand]
  simp only [kind]
  exact Parsed.reads_done

theorem operand_reads_int {token : Token} (kind : token.kind = .int)
    (small : digitsValue token.text.toList ≤ maxInteger) (rest : List Token) :
    (operand token rest).Reads (.int token (Int64.ofNat (digitsValue token.text.toList))) rest := by
  rw [operand]
  simp only [kind, integer, if_pos small]
  exact Parsed.reads_done

theorem operand_reads_truth {token : Token} (kind : token.kind = .kwTrue) (rest : List Token) :
    (operand token rest).Reads (.bool token true) rest := by
  rw [operand]
  simp only [kind]
  exact Parsed.reads_done

theorem operand_reads_falsity {token : Token} (kind : token.kind = .kwFalse) (rest : List Token) :
    (operand token rest).Reads (.bool token false) rest := by
  rw [operand]
  simp only [kind]
  exact Parsed.reads_done

theorem operand_reads_str {token : Token} (kind : token.kind = .str) (rest : List Token) :
    (operand token rest).Reads (.str token) rest := by
  rw [operand]
  simp only [kind]
  exact Parsed.reads_done

theorem operand_reads_unary {token : Token} {op : UnaryOp} {inner : Expr}
    {tokens rest : List Token} (kind : token.kind = op.kind)
    (reads : (expression .unary tokens).Reads inner rest) :
    (operand token tokens).Reads (.unary token op inner) rest := by
  rw [operand]
  cases op with
  | not =>
      simp only [kind, UnaryOp.kind]
      exact reads.map _
  | neg =>
      simp only [kind, UnaryOp.kind]
      exact reads.map _

theorem operand_reads_grouped {token closing : Token} {inner : Expr} {tokens rest : List Token}
    (kind : token.kind = .openParen) (closingKind : closing.kind = .closeParen)
    (reads : (expression .lowest tokens).Reads inner (closing :: rest)) :
    (operand token tokens).Reads inner rest := by
  rw [operand]
  simp only [kind]
  exact reads.andThen fun _ => (expect_reads closingKind rest).map _

theorem operand_reads_conditional {token opening closing brace : Token} {condition : Expr}
    {consequence : List Stmt} {tokens body rest : List Token} (kind : token.kind = .kwIf)
    (openingKind : opening.kind = .openParen) (closingKind : closing.kind = .closeParen)
    (braceKind : brace.kind = .openBrace)
    (conditionReads : (expression .lowest tokens).Reads condition (closing :: brace :: body))
    (blockReads : (block body).Reads consequence rest) (notElse : headKind rest ≠ .kwElse) :
    (operand token (opening :: tokens)).Reads
      (.conditional token condition ⟨brace, consequence⟩ none) rest := by
  rw [operand]
  simp only [kind]
  refine (expect_reads openingKind tokens).andThen fun _ => ?_
  refine conditionReads.andThen fun _ => ?_
  refine (expect_reads closingKind _).andThen fun _ => ?_
  refine (expect_reads braceKind body).andThen fun _ => ?_
  refine blockReads.andThen fun _ => ?_
  cases rest with
  | nil => exact Parsed.reads_done
  | cons following rest =>
      simp only [if_neg (show following.kind ≠ .kwElse from notElse)]
      exact Parsed.reads_done

theorem operand_reads_alternative {token opening closing brace otherwise brace' : Token}
    {condition : Expr} {consequence alternative : List Stmt} {tokens body body' rest : List Token}
    (kind : token.kind = .kwIf) (openingKind : opening.kind = .openParen)
    (closingKind : closing.kind = .closeParen) (braceKind : brace.kind = .openBrace)
    (otherwiseKind : otherwise.kind = .kwElse) (braceKind' : brace'.kind = .openBrace)
    (conditionReads : (expression .lowest tokens).Reads condition (closing :: brace :: body))
    (blockReads : (block body).Reads consequence (otherwise :: brace' :: body'))
    (blockReads' : (block body').Reads alternative rest) :
    (operand token (opening :: tokens)).Reads
      (.conditional token condition ⟨brace, consequence⟩ (some ⟨brace', alternative⟩)) rest := by
  rw [operand]
  simp only [kind]
  refine (expect_reads openingKind tokens).andThen fun _ => ?_
  refine conditionReads.andThen fun _ => ?_
  refine (expect_reads closingKind _).andThen fun _ => ?_
  refine (expect_reads braceKind body).andThen fun _ => ?_
  refine blockReads.andThen fun _ => ?_
  simp only [if_pos otherwiseKind]
  refine ((expect_reads braceKind' body').andThen fun _ => ?_).weaken _
  exact blockReads'.map _

theorem operand_reads_function {token opening brace : Token} {names : List Token}
    {statements : List Stmt} {tokens body rest : List Token} (kind : token.kind = .kwFn)
    (openingKind : opening.kind = .openParen) (braceKind : brace.kind = .openBrace)
    (namesRead : (parameters tokens).Reads names (brace :: body))
    (blockReads : (block body).Reads statements rest) :
    (operand token (opening :: tokens)).Reads
      (.function token names ⟨brace, statements⟩) rest := by
  rw [operand]
  simp only [kind]
  refine (expect_reads openingKind tokens).andThen fun _ => ?_
  refine namesRead.andThen fun _ => ?_
  refine (expect_reads braceKind body).andThen fun _ => ?_
  exact blockReads.map _

theorem operand_reads_list {token : Token} {elements : List Expr} {tokens rest : List Token}
    (kind : token.kind = .openBracket)
    (reads : (expressions .closeBracket tokens).Reads elements rest) :
    (operand token tokens).Reads (.list token elements) rest := by
  rw [operand]
  simp only [kind]
  exact reads.map _

theorem operand_reads_map {token : Token} {entries : List (Expr × Expr)}
    {tokens rest : List Token} (kind : token.kind = .openBrace)
    (reads : (pairs tokens).Reads entries rest) :
    (operand token tokens).Reads (.map token entries) rest := by
  rw [operand]
  simp only [kind]
  exact reads.map _

/-! ## What may follow -/

abbrev EndsExpr (kind : TokenKind) : Prop :=
  kind ≠ .kwElse ∧ Precedence.ofKind kind ≤ .lowest

abbrev EndsStmt (kind : TokenKind) : Prop :=
  EndsExpr kind ∧ kind ≠ .semicolon

/-- A token in front of which a statement needs no `;`. -/
abbrev Juxtaposable (kind : TokenKind) : Prop :=
  kind ≠ .minus ∧ kind ≠ .openParen ∧ kind ≠ .openBracket

theorem endsExpr_cons {token : Token} {kind : TokenKind} (fits : token.kind = kind)
    (ends : EndsExpr kind) (rest : List Token) : EndsExpr (headKind (token :: rest)) := by
  rwa [headKind, fits]

def statementKinds : List TokenKind := .kwLet :: .kwReturn :: operandKinds

private theorem mem_statementKinds_of_mem {kind : TokenKind} (starts : kind ∈ operandKinds) :
    kind ∈ statementKinds :=
  List.mem_cons_of_mem _ (List.mem_cons_of_mem _ starts)

private theorem endsStmt_of_juxtaposable {kind : TokenKind} (starts : kind ∈ statementKinds)
    (juxtaposable : Juxtaposable kind) : EndsStmt kind := by
  revert starts juxtaposable
  cases kind <;> decide

theorem ne_nil_of_mem_statementKinds {tokens : List Token}
    (starts : headKind tokens ∈ statementKinds) : tokens ≠ [] := by
  rintro rfl
  exact absurd starts (by decide)

theorem single_starts {tokens : List Token} {stmt : Stmt}
    (single : Single Juxtaposable tokens stmt) : headKind tokens ∈ statementKinds := by
  cases single with
  | bind kind _ _ _ =>
      rw [headKind, kind]
      decide
  | ret kind _ =>
      rw [headKind, kind]
      decide
  | expr written => exact mem_statementKinds_of_mem written.starts

theorem sequence_starts {tokens : List Token} {stmts : List Stmt}
    (sequence : Sequence Juxtaposable tokens stmts) :
    tokens = [] ∨ headKind tokens ∈ statementKinds := by
  cases sequence with
  | nil => exact .inl rfl
  | ended single _ _ | juxtaposed single _ _ =>
      have starts := single_starts single
      rw [headKind_append (ne_nil_of_mem_statementKinds starts)]
      exact .inr starts

/-- Behind a statement comes another statement, or what ends the sequence. -/
theorem endsStmt_append {tokens : List Token} {stmts : List Stmt}
    (sequence : Sequence Juxtaposable tokens stmts) (juxtaposable : Juxtaposable (headKind tokens))
    {rest : List Token} (ends : EndsStmt (headKind rest)) :
    EndsStmt (headKind (tokens ++ rest)) := by
  rcases sequence_starts sequence with rfl | starts
  · exact ends
  · rw [headKind_append (ne_nil_of_mem_statementKinds starts)]
    exact endsStmt_of_juxtaposable starts juxtaposable

/-! ## Reading lists, pairs and statements -/

theorem moreExpressions_reads_last {close : TokenKind} {closing : Token} {expr : Expr}
    {tokens rest : List Token} (closingKind : closing.kind = close) (proper : close ≠ .comma)
    (reads : (expression .lowest tokens).Reads expr (closing :: rest)) :
    (moreExpressions close tokens).Reads [expr] rest := by
  have notComma : closing.kind ≠ .comma := by rwa [closingKind]
  rw [moreExpressions]
  refine reads.andThen fun _ => ?_
  simp only [if_neg notComma, if_pos closingKind]
  exact Parsed.reads_done

theorem moreExpressions_reads_more {close : TokenKind} {comma : Token} {expr : Expr}
    {exprs : List Expr} {tokens rest rest' : List Token} (commaKind : comma.kind = .comma)
    (reads : (expression .lowest tokens).Reads expr (comma :: rest))
    (following : (moreExpressions close rest).Reads exprs rest') :
    (moreExpressions close tokens).Reads (expr :: exprs) rest' := by
  rw [moreExpressions]
  refine reads.andThen fun _ => ?_
  simp only [if_pos commaKind]
  exact (following.map (expr :: ·)).weaken _

private theorem pairs_reads_none {closing : Token} (closingKind : closing.kind = .closeBrace)
    (rest : List Token) : (pairs (closing :: rest)).Reads [] rest := by
  rw [pairs, headKind, if_pos closingKind]
  exact Parsed.reads_done

private theorem pairs_reads_last {colon closing : Token} {key value : Expr}
    {tokens after rest : List Token} (proper : headKind tokens ≠ .closeBrace)
    (colonKind : colon.kind = .colon) (closingKind : closing.kind = .closeBrace)
    (keyReads : (expression .lowest tokens).Reads key (colon :: after))
    (valueReads : (expression .lowest after).Reads value (closing :: rest)) :
    (pairs tokens).Reads [(key, value)] rest := by
  have closes : headKind (closing :: rest) = .closeBrace := closingKind
  rw [pairs, if_neg proper]
  refine keyReads.andThen fun _ => ?_
  simp only [if_pos colonKind]
  refine (valueReads.andThen fun _ => ?_).weaken _
  simp only [if_pos closes]
  exact Parsed.reads_done

private theorem pairs_reads_more {colon comma : Token} {key value : Expr}
    {entries : List (Expr × Expr)}
    {tokens after rest rest' : List Token} (proper : headKind tokens ≠ .closeBrace)
    (colonKind : colon.kind = .colon) (commaKind : comma.kind = .comma)
    (keyReads : (expression .lowest tokens).Reads key (colon :: after))
    (valueReads : (expression .lowest after).Reads value (comma :: rest))
    (following : (pairs rest).Reads entries rest') :
    (pairs tokens).Reads ((key, value) :: entries) rest' := by
  have notClosing : headKind (comma :: rest) ≠ .closeBrace := by
    rw [headKind, commaKind]
    decide
  rw [pairs, if_neg proper]
  refine keyReads.andThen fun _ => ?_
  simp only [if_pos colonKind]
  refine (valueReads.andThen fun _ => ?_).weaken _
  simp only [if_neg notClosing]
  exact (expect_reads commaKind rest).andThen fun _ => following.map ((key, value) :: ·)

theorem block_reads_nil {closing : Token} (closingKind : closing.kind = .closeBrace)
    (rest : List Token) : (block (closing :: rest)).Reads [] rest := by
  rw [block, if_pos closingKind]
  exact Parsed.reads_done

theorem block_reads_cons {token : Token} {stmt : Stmt} {stmts : List Stmt}
    {tokens rest rest' : List Token} (proper : token.kind ≠ .closeBrace)
    (reads : (statement token tokens).Reads stmt rest)
    (following : (block rest).Reads stmts rest') :
    (block (token :: tokens)).Reads (stmt :: stmts) rest' := by
  rw [block, if_neg proper]
  exact (reads.before fun _ => following).weaken _

theorem endStatement_reads (stmt : Stmt) (tokens : List Token) :
    (endStatement stmt tokens).Reads stmt (skipSemicolon tokens) :=
  Parsed.reads_done

theorem statement_reads_bind {token name assign : Token} {value : Expr} {tokens rest : List Token}
    (kind : token.kind = .kwLet) (nameKind : name.kind = .ident)
    (assignKind : assign.kind = .assign) (reads : (expression .lowest tokens).Reads value rest) :
    (statement token (name :: assign :: tokens)).Reads (.bind token name value)
      (skipSemicolon rest) := by
  rw [statement]
  simp only [kind]
  refine (expect_reads nameKind _).andThen fun _ => ?_
  refine (expect_reads assignKind tokens).andThen fun _ => ?_
  exact reads.andThen fun _ => endStatement_reads _ rest

private theorem statement_reads_ret {token : Token} {value : Expr} {tokens rest : List Token}
    (kind : token.kind = .kwReturn) (reads : (expression .lowest tokens).Reads value rest) :
    (statement token tokens).Reads (.ret token value) (skipSemicolon rest) := by
  rw [statement]
  simp only [kind]
  exact reads.andThen fun _ => endStatement_reads _ rest

theorem statement_reads_expr {token : Token} {expr : Expr} {tokens rest : List Token}
    (starts : token.kind ∈ operandKinds)
    (reads : (expression .lowest (token :: tokens)).Reads expr rest) :
    (statement token tokens).Reads (.expr token expr) (skipSemicolon rest) := by
  have readsFrom : (expressionFrom .lowest token tokens).Reads expr rest := by
    rw [expression] at reads
    exact ⟨reads.value_eq, reads.rest_eq, reads.errors_eq⟩
  rw [statement]
  split
  next kind => exact absurd (kind ▸ starts) (by decide)
  next kind => exact absurd (kind ▸ starts) (by decide)
  next => exact readsFrom.andThen fun _ => endStatement_reads _ rest

theorem skipSemicolon_cons {separator : Token} (kind : separator.kind = .semicolon)
    (rest : List Token) : skipSemicolon (separator :: rest) = rest := by
  rw [skipSemicolon, if_pos kind]

theorem skipSemicolon_of_ne {tokens : List Token} (other : headKind tokens ≠ .semicolon) :
    skipSemicolon tokens = tokens := by
  cases tokens with
  | nil => rfl
  | cons token rest => rw [skipSemicolon, if_neg (show token.kind ≠ .semicolon from other)]

/-! ## Reading whole trees

The tree that is read is the written one except for the tokens of its expression statements. -/

/-- What an expression without parentheses needs around it: it is read for operators that bind
tighter than `minimum`, and the token `next` comes behind it. -/
def Fits (expr : Expr) (minimum : Precedence) (next : TokenKind) : Prop :=
  minimum < expr.leftPower ∧ .ofKind next ≤ expr.rightPower

/-- Reading `tokens` comes down to reading the operators behind them with `expr` on their left,
wherever `fits` holds of the surroundings. -/
def Recovers (expr : Expr) (tokens : List Token) (fits : Precedence → TokenKind → Prop) : Prop :=
  ∃ read, read.dropLeads = expr.dropLeads ∧
    ∀ ⦃minimum : Precedence⦄ ⦃rest rest' : List Token⦄ ⦃result : Expr⦄,
      minimum ≤ .unary → headKind rest ≠ .kwElse → fits minimum (headKind rest) →
      (continuation minimum read rest).Reads result rest' →
      (expression minimum (tokens ++ rest)).Reads result rest'

/-- Reading `tokens` gives the whole of `expr` before any operator is looked at. Only a condition
that has no alternative yet could go on, with an `else`. -/
def RecoversOperand (expr : Expr) (tokens : List Token) : Prop :=
  ∃ token tail read, tokens = token :: tail ∧ read.dropLeads = expr.dropLeads ∧
    ∀ ⦃rest : List Token⦄, (expr.awaitsElse = true → headKind rest ≠ .kwElse) →
      (operand token (tail ++ rest)).Reads read rest

def RecoversAt (position : Position) (expr : Expr) (tokens : List Token) : Prop :=
  Recovers expr tokens fun minimum next => position.Admits expr → Fits expr minimum next

abbrev ClosesList (close : TokenKind) : Prop :=
  EndsExpr close ∧ close ≠ .comma ∧ close ∉ operandKinds

def RecoversList (exprs : List Expr) (tokens : List Token) : Prop :=
  ∃ reads, Expr.dropLeadsAll reads = Expr.dropLeadsAll exprs ∧
    ∀ ⦃closing : Token⦄, ClosesList closing.kind → ∀ rest,
      (expressions closing.kind (tokens ++ closing :: rest)).Reads reads rest ∧
      (exprs ≠ [] → (moreExpressions closing.kind (tokens ++ closing :: rest)).Reads reads rest)

def RecoversPairs (entries : List (Expr × Expr)) (tokens : List Token) : Prop :=
  ∃ reads, Expr.dropLeadsPairs reads = Expr.dropLeadsPairs entries ∧
    ∀ ⦃closing : Token⦄, closing.kind = .closeBrace → ∀ rest,
      (pairs (tokens ++ closing :: rest)).Reads reads rest

def RecoversStmt (stmt : Stmt) (tokens : List Token) : Prop :=
  ∃ token tail read, tokens = token :: tail ∧ read.dropLeads = stmt.dropLeads ∧
    ∀ ⦃rest : List Token⦄, EndsExpr (headKind rest) →
      (statement token (tail ++ rest)).Reads read (skipSemicolon rest)

def RecoversBlock (stmts : List Stmt) (tokens : List Token) : Prop :=
  ∃ reads, Stmt.dropLeadsAll reads = Stmt.dropLeadsAll stmts ∧
    ∀ ⦃closing : Token⦄, closing.kind = .closeBrace → ∀ rest,
      (block (tokens ++ closing :: rest)).Reads reads rest

/-- What is read before any operator is looked at fits all surroundings. -/
theorem RecoversOperand.recovers {expr : Expr} {tokens : List Token}
    (recovers : RecoversOperand expr tokens) (fits : Precedence → TokenKind → Prop) :
    Recovers expr tokens fits := by
  obtain ⟨token, tail, read, rfl, same, reads⟩ := recovers
  exact ⟨read, same, fun _ _ _ _ _ notElse _ continues =>
    expression_reads (reads fun _ => notElse) continues⟩

/-- In front of a token that ends it, an expression is read as it stands. -/
theorem RecoversAt.free {expr : Expr} {tokens : List Token}
    (recovers : RecoversAt .free expr tokens) :
    ∃ read, read.dropLeads = expr.dropLeads ∧
      ∀ ⦃rest : List Token⦄, EndsExpr (headKind rest) →
        (expression .lowest (tokens ++ rest)).Reads read rest := by
  obtain ⟨read, same, reads⟩ := recovers
  refine ⟨read, same, fun rest ends => ?_⟩
  have fits : Fits expr .lowest (headKind rest) :=
    ⟨Expr.lowest_lt_leftPower expr, le_trans ends.2 (Precedence.lowest_le _)⟩
  exact reads (Precedence.lowest_le _) ends.1 (fun _ => fits) (continuation_reads_stop ends.2)

/-- In front of a token that closes it, a list is read as it stands. -/
theorem RecoversList.closed {exprs : List Expr} {tokens : List Token} {close : TokenKind}
    (recovers : RecoversList exprs tokens) (closes : ClosesList close) :
    ∃ reads, Expr.dropLeadsAll reads = Expr.dropLeadsAll exprs ∧
      ∀ ⦃closing : Token⦄, closing.kind = close → ∀ rest,
        (expressions close (tokens ++ closing :: rest)).Reads reads rest := by
  obtain ⟨reads, same, listRead⟩ := recovers
  refine ⟨reads, same, fun closing closingKind rest => ?_⟩
  subst closingKind
  exact (listRead closes rest).1

/-! One statement for each production. -/

theorem recovers_atom {token : Token} {expr : Expr}
    (reads : ∀ rest, (operand token rest).Reads expr rest) : RecoversOperand expr [token] :=
  ⟨token, [], expr, rfl, rfl, fun rest _ => reads rest⟩

/-- Between parentheses anything may be written. -/
theorem recovers_grouped {token closing : Token} {inner : Expr} {tokens : List Token}
    (kind : token.kind = .openParen) (recovers : RecoversAt .free inner tokens)
    (closingKind : closing.kind = .closeParen) :
    RecoversOperand inner (token :: (tokens ++ [closing])) := by
  obtain ⟨read, same, reads⟩ := recovers.free
  refine ⟨token, _, read, rfl, same, fun rest _ => ?_⟩
  rw [List.append_assoc]
  exact operand_reads_grouped kind closingKind (reads (endsExpr_cons closingKind (by decide) rest))

theorem recovers_unary {token : Token} {op : UnaryOp} {inner : Expr} {tokens : List Token}
    (kind : token.kind = op.kind) (recovers : RecoversAt .underUnary inner tokens) :
    Recovers (.unary token op inner) (token :: tokens) (Fits (.unary token op inner)) := by
  obtain ⟨read, same, reads⟩ := recovers
  refine ⟨.unary token op read, by simp only [Expr.dropLeads, same], ?_⟩
  intro minimum rest rest' result weak notElse fits continues
  refine expression_reads (operand_reads_unary kind ?_) continues
  refine reads (le_refl _) notElse (fun admits => ?_) (continuation_reads_stop fits.2)
  have tight := Position.admits_underUnary_iff.mp admits
  exact ⟨tight, le_trans fits.2 (Expr.le_rightPower (le_refl _) tight)⟩

/-- The left operand is read first, and hands over at the operator. The right operand stops where
an operator of the same power comes: that one takes the whole for its left operand. -/
theorem recovers_binary {token : Token} {op : BinaryOp} {left right : Expr}
    {before after : List Token} (recoversLeft : RecoversAt (.leftOf op) left before)
    (kind : token.kind = op.kind) (recoversRight : RecoversAt (.rightOf op) right after) :
    Recovers (.binary token op left right) (before ++ token :: after)
      (Fits (.binary token op left right)) := by
  obtain ⟨readLeft, sameLeft, readsLeft⟩ := recoversLeft
  obtain ⟨readRight, sameRight, readsRight⟩ := recoversRight
  refine ⟨.binary token op readLeft readRight,
    by simp only [Expr.dropLeads, sameLeft, sameRight], ?_⟩
  intro minimum rest rest' result weak notElse fits continues
  have binary_le_unary := le_of_lt op.precedence_lt_unary
  have rightReads : (expression op.precedence (after ++ rest)).Reads readRight rest := by
    refine readsRight binary_le_unary notElse (fun admits => ?_) (continuation_reads_stop fits.2)
    have tight := Position.admits_rightOf_iff.mp admits
    exact ⟨tight, le_trans fits.2 (Expr.le_rightPower binary_le_unary tight)⟩
  rw [List.append_assoc, List.cons_append]
  refine readsLeft weak ?_ (fun admits => ?_)
    (continuation_reads_binary kind fits.1 rightReads continues)
  · rw [headKind, kind]
    cases op <;> decide
  · have tight := Position.admits_leftOf_iff.mp admits
    rw [headKind, kind]
    exact ⟨lt_of_lt_of_le fits.1 (le_trans tight (Expr.rightPower_le_leftPower left)), tight⟩

/-- What is called or indexed hands over at the opening bracket, which binds tighter than every
operator. -/
theorem fits_applied {expr : Expr} {minimum : Precedence} {kind : TokenKind}
    (admits : Position.applied.Admits expr) (weak : minimum ≤ .unary) : Fits expr minimum kind := by
  have tight := Expr.index_le_rightPower (Position.admits_applied_iff.mp admits)
  have weaker : minimum < .index := lt_of_le_of_lt weak (by decide)
  exact ⟨lt_of_lt_of_le weaker (le_trans tight (Expr.rightPower_le_leftPower expr)),
    le_trans (Precedence.le_index _) tight⟩

theorem recovers_call {token closing : Token} {callee : Expr} {arguments : List Expr}
    {before tokens : List Token} (recoversCallee : RecoversAt .applied callee before)
    (kind : token.kind = .openParen) (recoversArguments : RecoversList arguments tokens)
    (closingKind : closing.kind = .closeParen) :
    Recovers (.call token callee arguments) (before ++ token :: (tokens ++ [closing]))
      (Fits (.call token callee arguments)) := by
  obtain ⟨readCallee, sameCallee, readsCallee⟩ := recoversCallee
  obtain ⟨readArguments, sameArguments, readsArguments⟩ :=
    recoversArguments.closed (by decide : ClosesList .closeParen)
  refine ⟨.call token readCallee readArguments,
    by simp only [Expr.dropLeads, sameCallee, sameArguments], ?_⟩
  intro minimum rest rest' result weak notElse fits continues
  rw [List.append_assoc, List.cons_append, List.append_assoc, List.singleton_append]
  refine readsCallee weak ?_ (fun admits => fits_applied admits weak)
    (continuation_reads_call kind weak (readsArguments closingKind rest) continues)
  rw [headKind, kind]
  decide

theorem recovers_index {token closing : Token} {collection position : Expr}
    {before tokens : List Token} (recoversCollection : RecoversAt .applied collection before)
    (kind : token.kind = .openBracket) (recoversPosition : RecoversAt .free position tokens)
    (closingKind : closing.kind = .closeBracket) :
    Recovers (.index token collection position) (before ++ token :: (tokens ++ [closing]))
      (Fits (.index token collection position)) := by
  obtain ⟨readCollection, sameCollection, readsCollection⟩ := recoversCollection
  obtain ⟨readPosition, samePosition, readsPosition⟩ := recoversPosition.free
  refine ⟨.index token readCollection readPosition,
    by simp only [Expr.dropLeads, sameCollection, samePosition], ?_⟩
  intro minimum rest rest' result weak notElse fits continues
  have positionReads := readsPosition (endsExpr_cons closingKind (by decide) rest)
  rw [List.append_assoc, List.cons_append, List.append_assoc, List.singleton_append]
  refine readsCollection weak ?_ (fun admits => fits_applied admits weak)
    (continuation_reads_index kind closingKind weak positionReads continues)
  rw [headKind, kind]
  decide

theorem recovers_list {token closing : Token} {elements : List Expr} {tokens : List Token}
    (kind : token.kind = .openBracket) (recovers : RecoversList elements tokens)
    (closingKind : closing.kind = .closeBracket) :
    RecoversOperand (.list token elements) (token :: (tokens ++ [closing])) := by
  obtain ⟨reads, same, elementsRead⟩ := recovers.closed (by decide : ClosesList .closeBracket)
  refine ⟨token, _, .list token reads, rfl, by simp only [Expr.dropLeads, same], fun rest _ => ?_⟩
  rw [List.append_assoc]
  exact operand_reads_list kind (elementsRead closingKind rest)

theorem recovers_map {token closing : Token} {entries : List (Expr × Expr)} {tokens : List Token}
    (kind : token.kind = .openBrace) (recovers : RecoversPairs entries tokens)
    (closingKind : closing.kind = .closeBrace) :
    RecoversOperand (.map token entries) (token :: (tokens ++ [closing])) := by
  obtain ⟨reads, same, entriesRead⟩ := recovers
  refine ⟨token, _, .map token reads, rfl, by simp only [Expr.dropLeads, same], fun rest _ => ?_⟩
  rw [List.append_assoc]
  exact operand_reads_map kind (entriesRead closingKind rest)

theorem recovers_function {token opening closing brace brace' : Token} {names : List Token}
    {stmts : List Stmt} {tokens body : List Token} (kind : token.kind = .kwFn)
    (openingKind : opening.kind = .openParen) (parameters : Parameters tokens names)
    (closingKind : closing.kind = .closeParen) (braceKind : brace.kind = .openBrace)
    (recovers : RecoversBlock stmts body) (braceKind' : brace'.kind = .closeBrace) :
    RecoversOperand (.function token names ⟨brace, stmts⟩)
      (token :: opening :: (tokens ++ closing :: (brace :: (body ++ [brace'])))) := by
  obtain ⟨reads, same, bodyReads⟩ := recovers
  refine ⟨token, _, .function token names ⟨brace, reads⟩, rfl,
    by simp only [Expr.dropLeads, Block.dropLeads, same], fun rest _ => ?_⟩
  have flat : opening :: (tokens ++ closing :: (brace :: (body ++ [brace']))) ++ rest =
      opening :: (tokens ++ closing :: brace :: (body ++ brace' :: rest)) := by simp
  rw [flat]
  exact operand_reads_function kind openingKind braceKind
    (parameters_reads parameters closingKind _) (bodyReads braceKind' rest)

theorem recovers_conditional {token opening closing brace brace' : Token} {condition : Expr}
    {stmts : List Stmt} {tokens body : List Token} (kind : token.kind = .kwIf)
    (openingKind : opening.kind = .openParen)
    (recoversCondition : RecoversAt .free condition tokens)
    (closingKind : closing.kind = .closeParen) (braceKind : brace.kind = .openBrace)
    (recoversBody : RecoversBlock stmts body) (braceKind' : brace'.kind = .closeBrace) :
    RecoversOperand (.conditional token condition ⟨brace, stmts⟩ none)
      (token :: opening :: (tokens ++ closing :: (brace :: (body ++ [brace'])))) := by
  obtain ⟨read, same, conditionReads⟩ := recoversCondition.free
  obtain ⟨readBody, sameBody, bodyReads⟩ := recoversBody
  refine ⟨token, _, .conditional token read ⟨brace, readBody⟩ none, rfl,
    by simp only [Expr.dropLeads, Block.dropLeads, same, sameBody], fun rest notElse => ?_⟩
  have flat : opening :: (tokens ++ closing :: (brace :: (body ++ [brace']))) ++ rest =
      opening :: (tokens ++ closing :: brace :: (body ++ brace' :: rest)) := by simp
  rw [flat]
  exact operand_reads_conditional kind openingKind closingKind braceKind
    (conditionReads (endsExpr_cons closingKind (by decide) _)) (bodyReads braceKind' rest)
    (notElse rfl)

theorem recovers_alternative {token opening closing brace brace' otherwise brace₂ brace₂' : Token}
    {condition : Expr} {stmts stmts' : List Stmt} {tokens body body' : List Token}
    (kind : token.kind = .kwIf) (openingKind : opening.kind = .openParen)
    (recoversCondition : RecoversAt .free condition tokens)
    (closingKind : closing.kind = .closeParen) (braceKind : brace.kind = .openBrace)
    (recoversBody : RecoversBlock stmts body) (braceKind' : brace'.kind = .closeBrace)
    (otherwiseKind : otherwise.kind = .kwElse) (brace₂Kind : brace₂.kind = .openBrace)
    (recoversBody' : RecoversBlock stmts' body') (brace₂Kind' : brace₂'.kind = .closeBrace) :
    RecoversOperand (.conditional token condition ⟨brace, stmts⟩ (some ⟨brace₂, stmts'⟩))
      (token :: opening :: (tokens ++ closing ::
        ((brace :: (body ++ [brace'])) ++ otherwise :: (brace₂ :: (body' ++ [brace₂']))))) := by
  obtain ⟨read, same, conditionReads⟩ := recoversCondition.free
  obtain ⟨readBody, sameBody, bodyReads⟩ := recoversBody
  obtain ⟨readBody', sameBody', bodyReads'⟩ := recoversBody'
  refine ⟨token, _, .conditional token read ⟨brace, readBody⟩ (some ⟨brace₂, readBody'⟩), rfl,
    by simp only [Expr.dropLeads, Block.dropLeads, same, sameBody, sameBody'], fun rest _ => ?_⟩
  have flat : opening :: (tokens ++ closing ::
        ((brace :: (body ++ [brace'])) ++ otherwise :: (brace₂ :: (body' ++ [brace₂'])))) ++ rest =
      opening :: (tokens ++ closing :: brace :: (body ++ brace' :: otherwise :: brace₂ ::
        (body' ++ brace₂' :: rest))) := by simp
  rw [flat]
  exact operand_reads_alternative kind openingKind closingKind braceKind
    otherwiseKind brace₂Kind (conditionReads (endsExpr_cons closingKind (by decide) _))
    (bodyReads braceKind' _) (bodyReads' brace₂Kind' rest)

theorem headKind_append_ne {tokens : List Token} {kind : TokenKind}
    (starts : headKind tokens ∈ operandKinds) (absent : kind ∉ operandKinds) (rest : List Token) :
    headKind (tokens ++ rest) ≠ kind := by
  intro same
  exact absent (same ▸ starts_append starts rest)

theorem recoversList_none : RecoversList [] [] := by
  refine ⟨[], rfl, fun closing closes rest => ⟨?_, absurd rfl⟩⟩
  rw [List.nil_append, expressions, headKind, if_pos rfl]
  exact Parsed.reads_done

/-- A list that is not empty does not start with the token that closes it. -/
theorem recoversList_of_starts {exprs reads : List Expr} {tokens : List Token}
    (same : Expr.dropLeadsAll reads = Expr.dropLeadsAll exprs)
    (starts : headKind tokens ∈ operandKinds)
    (listRead : ∀ ⦃closing : Token⦄, ClosesList closing.kind → ∀ rest,
      (moreExpressions closing.kind (tokens ++ closing :: rest)).Reads reads rest) :
    RecoversList exprs tokens := by
  refine ⟨reads, same, fun closing closes rest => ⟨?_, fun _ => listRead closes rest⟩⟩
  rw [expressions, if_neg (headKind_append_ne starts closes.2.2 (closing :: rest))]
  exact listRead closes rest

theorem recoversList_last {expr : Expr} {tokens : List Token}
    (starts : headKind tokens ∈ operandKinds) (recovers : RecoversAt .free expr tokens) :
    RecoversList [expr] tokens := by
  obtain ⟨read, same, reads⟩ := recovers.free
  have sameAll : Expr.dropLeadsAll [read] = Expr.dropLeadsAll [expr] := by
    simp only [Expr.dropLeadsAll, same]
  refine recoversList_of_starts sameAll starts fun closing closes rest => ?_
  exact moreExpressions_reads_last rfl closes.2.1 (reads closes.1)

theorem recoversList_more {comma : Token} {expr : Expr} {exprs : List Expr}
    {tokens rest : List Token} (starts : headKind tokens ∈ operandKinds)
    (recovers : RecoversAt .free expr tokens) (commaKind : comma.kind = .comma)
    (recoversRest : RecoversList exprs rest) (nonempty : exprs ≠ []) :
    RecoversList (expr :: exprs) (tokens ++ comma :: rest) := by
  obtain ⟨read, same, reads⟩ := recovers.free
  obtain ⟨readRest, sameRest, readsRest⟩ := recoversRest
  have sameAll : Expr.dropLeadsAll (read :: readRest) = Expr.dropLeadsAll (expr :: exprs) := by
    simp only [Expr.dropLeadsAll, same, sameRest]
  refine recoversList_of_starts sameAll (starts_append starts _) fun closing closes following => ?_
  rw [List.append_assoc, List.cons_append]
  exact moreExpressions_reads_more commaKind (reads (endsExpr_cons commaKind (by decide) _))
    ((readsRest closes following).2 nonempty)

theorem recoversPairs_none : RecoversPairs [] [] :=
  ⟨[], rfl, fun _ closingKind rest => pairs_reads_none closingKind rest⟩

theorem recoversPairs_last {colon : Token} {key value : Expr} {before after : List Token}
    (starts : headKind before ∈ operandKinds) (recoversKey : RecoversAt .free key before)
    (colonKind : colon.kind = .colon) (recoversValue : RecoversAt .free value after) :
    RecoversPairs [(key, value)] (before ++ colon :: after) := by
  obtain ⟨readKey, sameKey, readsKey⟩ := recoversKey.free
  obtain ⟨readValue, sameValue, readsValue⟩ := recoversValue.free
  refine ⟨[(readKey, readValue)], by simp only [Expr.dropLeadsPairs, sameKey, sameValue], ?_⟩
  intro closing closingKind rest
  rw [List.append_assoc, List.cons_append]
  exact pairs_reads_last (headKind_append_ne starts (by decide) _) colonKind closingKind
    (readsKey (endsExpr_cons colonKind (by decide) _))
    (readsValue (endsExpr_cons closingKind (by decide) rest))

/-- After a comma come further pairs, or none. -/
theorem recoversPairs_more {colon comma : Token} {key value : Expr}
    {entries : List (Expr × Expr)} {before after rest : List Token}
    (starts : headKind before ∈ operandKinds) (recoversKey : RecoversAt .free key before)
    (colonKind : colon.kind = .colon) (recoversValue : RecoversAt .free value after)
    (commaKind : comma.kind = .comma) (recoversRest : RecoversPairs entries rest) :
    RecoversPairs ((key, value) :: entries) (before ++ colon :: (after ++ comma :: rest)) := by
  obtain ⟨readKey, sameKey, readsKey⟩ := recoversKey.free
  obtain ⟨readValue, sameValue, readsValue⟩ := recoversValue.free
  obtain ⟨readRest, sameRest, readsRest⟩ := recoversRest
  refine ⟨(readKey, readValue) :: readRest,
    by simp only [Expr.dropLeadsPairs, sameKey, sameValue, sameRest], ?_⟩
  intro closing closingKind following
  rw [List.append_assoc, List.cons_append, List.append_assoc, List.cons_append]
  exact pairs_reads_more (headKind_append_ne starts (by decide) _) colonKind commaKind
    (readsKey (endsExpr_cons colonKind (by decide) _))
    (readsValue (endsExpr_cons commaKind (by decide) _)) (readsRest closingKind following)

theorem recoversStmt_bind {token name assign : Token} {value : Expr} {tokens : List Token}
    (kind : token.kind = .kwLet) (nameKind : name.kind = .ident)
    (assignKind : assign.kind = .assign) (recovers : RecoversAt .free value tokens) :
    RecoversStmt (.bind token name value) (token :: name :: assign :: tokens) := by
  obtain ⟨read, same, reads⟩ := recovers.free
  refine ⟨token, name :: assign :: tokens, .bind token name read, rfl,
    by simp only [Stmt.dropLeads, same], fun rest ends => ?_⟩
  exact statement_reads_bind kind nameKind assignKind (reads ends)

theorem recoversStmt_ret {token : Token} {value : Expr} {tokens : List Token}
    (kind : token.kind = .kwReturn) (recovers : RecoversAt .free value tokens) :
    RecoversStmt (.ret token value) (token :: tokens) := by
  obtain ⟨read, same, reads⟩ := recovers.free
  refine ⟨token, tokens, .ret token read, rfl, by simp only [Stmt.dropLeads, same],
    fun rest ends => ?_⟩
  exact statement_reads_ret kind (reads ends)

theorem recoversStmt_expr {token : Token} {expr : Expr} {tokens : List Token}
    (starts : headKind tokens ∈ operandKinds) (recovers : RecoversAt .free expr tokens) :
    RecoversStmt (.expr token expr) tokens := by
  obtain ⟨read, same, reads⟩ := recovers.free
  cases tokens with
  | nil => exact absurd rfl (ne_nil_of_starts starts)
  | cons first tail =>
      refine ⟨first, tail, .expr first read, rfl, by simp only [Stmt.dropLeads, same],
        fun rest ends => ?_⟩
      exact statement_reads_expr starts (reads ends)

theorem recoversBlock_nil : RecoversBlock [] [] :=
  ⟨[], rfl, fun _ closingKind rest => block_reads_nil closingKind rest⟩

/-- Between a statement and `rest` stands what ends the statement, and reading the statement takes
just that. -/
def Separates (gap rest : List Token) : Prop :=
  ∀ ⦃after : List Token⦄, EndsStmt (headKind after) →
    EndsExpr (headKind (gap ++ (rest ++ after))) ∧
      skipSemicolon (gap ++ (rest ++ after)) = rest ++ after

theorem separates_semicolon {separator : Token} (kind : separator.kind = .semicolon)
    (rest : List Token) : Separates [separator] rest := fun after _ =>
  ⟨endsExpr_cons kind (by decide) _, skipSemicolon_cons kind (rest ++ after)⟩

/-- A statement may end without a `;` where the next one cannot continue it. -/
theorem separates_nil {rest : List Token} {stmts : List Stmt}
    (sequence : Sequence Juxtaposable rest stmts) (juxtaposable : Juxtaposable (headKind rest)) :
    Separates [] rest := by
  intro after ends
  have endsBefore := endsStmt_append sequence juxtaposable ends
  exact ⟨endsBefore.1, skipSemicolon_of_ne endsBefore.2⟩

theorem recoversBlock_cons {stmt : Stmt} {stmts : List Stmt} {tokens gap rest : List Token}
    (starts : headKind tokens ∈ statementKinds) (recovers : RecoversStmt stmt tokens)
    (separates : Separates gap rest) (recoversRest : RecoversBlock stmts rest) :
    RecoversBlock (stmt :: stmts) (tokens ++ (gap ++ rest)) := by
  obtain ⟨token, tail, read, rfl, same, reads⟩ := recovers
  obtain ⟨readRest, sameRest, readsRest⟩ := recoversRest
  refine ⟨read :: readRest, by simp only [Stmt.dropLeadsAll, same, sameRest], ?_⟩
  intro closing closingKind following
  have closingEnds : EndsStmt (headKind (closing :: following)) := by
    rw [headKind, closingKind]
    decide
  have proper : token.kind ≠ .closeBrace := by
    intro closed
    rw [headKind, closed] at starts
    exact absurd starts (by decide)
  obtain ⟨ends, skips⟩ := separates closingEnds
  rw [List.append_assoc, List.append_assoc, List.cons_append]
  refine block_reads_cons proper (reads ends) ?_
  rw [skips]
  exact readsRest closingKind following

/-! The whole grammar, by recursion on how the tokens are written. -/

mutual

theorem bare_recovers {tokens : List Token} {expr : Expr} :
    Bare Juxtaposable tokens expr → Recovers expr tokens (Fits expr)
  | .ident kind => (recovers_atom (operand_reads_ident kind)).recovers _
  | .int kind small => (recovers_atom (operand_reads_int kind small)).recovers _
  | .truth kind => (recovers_atom (operand_reads_truth kind)).recovers _
  | .falsity kind => (recovers_atom (operand_reads_falsity kind)).recovers _
  | .str kind => (recovers_atom (operand_reads_str kind)).recovers _
  | .unary kind inner => recovers_unary kind (written_recovers inner)
  | .binary left kind right =>
      recovers_binary (written_recovers left) kind (written_recovers right)
  | .conditional kind openingKind condition closingKind (.intro braceKind body braceKind') =>
      (recovers_conditional kind openingKind (written_recovers condition) closingKind braceKind
        (sequence_recovers body) braceKind').recovers _
  | .alternative kind openingKind condition closingKind (.intro braceKind body braceKind')
      otherwiseKind (.intro brace₂Kind body' brace₂Kind') =>
      (recovers_alternative kind openingKind (written_recovers condition) closingKind braceKind
        (sequence_recovers body) braceKind' otherwiseKind brace₂Kind (sequence_recovers body')
        brace₂Kind').recovers _
  | .function kind openingKind parameters closingKind (.intro braceKind body braceKind') =>
      (recovers_function kind openingKind parameters closingKind braceKind
        (sequence_recovers body) braceKind').recovers _
  | .call callee kind arguments closingKind =>
      recovers_call (written_recovers callee) kind (listed_recovers arguments) closingKind
  | .list kind elements closingKind =>
      (recovers_list kind (listed_recovers elements) closingKind).recovers _
  | .map kind entries closingKind =>
      (recovers_map kind (paired_recovers entries) closingKind).recovers _
  | .index collection kind position closingKind =>
      recovers_index (written_recovers collection) kind (written_recovers position) closingKind

/-- Expressions are recovered from all tokens that write them, by recursion on how they are
written. -/
theorem written_recovers {position : Position} {tokens : List Token} {expr : Expr} :
    Written Juxtaposable position tokens expr → RecoversAt position expr tokens
  | .bare admits bare => by
      obtain ⟨read, same, reads⟩ := bare_recovers bare
      exact ⟨read, same, fun _ _ _ _ weak notElse fits => reads weak notElse (fits admits)⟩
  | .grouped kind inner closingKind =>
      (recovers_grouped kind (written_recovers inner) closingKind).recovers _

theorem listed_recovers {tokens : List Token} {exprs : List Expr} :
    Listed Juxtaposable tokens exprs → RecoversList exprs tokens
  | .none => recoversList_none
  | .last written => recoversList_last written.starts (written_recovers written)
  | .more written commaKind listed nonempty =>
      recoversList_more written.starts (written_recovers written) commaKind
        (listed_recovers listed) nonempty

theorem paired_recovers {tokens : List Token} {entries : List (Expr × Expr)} :
    Paired Juxtaposable tokens entries → RecoversPairs entries tokens
  | .none => recoversPairs_none
  | .last key colonKind value =>
      recoversPairs_last key.starts (written_recovers key) colonKind (written_recovers value)
  | .trailing key colonKind value commaKind =>
      recoversPairs_more key.starts (written_recovers key) colonKind (written_recovers value)
        commaKind recoversPairs_none
  | .more key colonKind value commaKind entries _ =>
      recoversPairs_more key.starts (written_recovers key) colonKind (written_recovers value)
        commaKind (paired_recovers entries)

theorem single_recovers {tokens : List Token} {stmt : Stmt} :
    Single Juxtaposable tokens stmt → RecoversStmt stmt tokens
  | .bind kind nameKind assignKind value =>
      recoversStmt_bind kind nameKind assignKind (written_recovers value)
  | .ret kind value => recoversStmt_ret kind (written_recovers value)
  | .expr written => recoversStmt_expr written.starts (written_recovers written)

theorem sequence_recovers {tokens : List Token} {stmts : List Stmt} :
    Sequence Juxtaposable tokens stmts → RecoversBlock stmts tokens
  | .nil => recoversBlock_nil
  | .ended single kind sequence =>
      recoversBlock_cons (single_starts single) (single_recovers single)
        (separates_semicolon kind _) (sequence_recovers sequence)
  | .juxtaposed single juxtaposable sequence =>
      recoversBlock_cons (single_starts single) (single_recovers single)
        (separates_nil sequence juxtaposable) (sequence_recovers sequence)

end

/-! ## Whole programs -/

theorem statements_nil : statements [] = ([], []) := by
  rw [statements]

theorem statements_cons (token : Token) (rest : List Token) :
    statements (token :: rest) =
      ((statement token rest).value.toList ++ (statements (statement token rest).rest).1,
        (statement token rest).errors ++ (statements (statement token rest).rest).2) := by
  rw [statements]

theorem statements_cons_of_reads {token : Token} {read : Stmt} {reads : List Stmt}
    {tokens rest : List Token} (first : (statement token tokens).Reads read rest)
    (others : statements rest = (reads, [])) :
    statements (token :: tokens) = (read :: reads, []) := by
  rw [statements_cons, first.value_eq, first.rest_eq, first.errors_eq, others]
  rfl

private theorem statements_step {stmt : Stmt} {stmts : List Stmt} {tokens gap rest : List Token}
    (recovers : RecoversStmt stmt tokens) (separates : Separates gap rest)
    (others : ∃ reads, Stmt.dropLeadsAll reads = Stmt.dropLeadsAll stmts ∧
      statements rest = (reads, [])) :
    ∃ reads, Stmt.dropLeadsAll reads = Stmt.dropLeadsAll (stmt :: stmts) ∧
      statements (tokens ++ (gap ++ rest)) = (reads, []) := by
  obtain ⟨token, tail, read, rfl, same, reads⟩ := recovers
  obtain ⟨readRest, sameRest, readsRest⟩ := others
  refine ⟨read :: readRest, by simp only [Stmt.dropLeadsAll, same, sameRest], ?_⟩
  have atEnd : EndsStmt (headKind []) := by decide
  obtain ⟨ends, skips⟩ := separates atEnd
  rw [List.append_nil] at ends skips
  refine statements_cons_of_reads (reads ends) ?_
  rw [skips, readsRest]

/-- Statements are recovered from tokens that write them, without a fault and up to the tokens that
expression statements keep. -/
theorem statements_of_sequence {tokens : List Token} {stmts : List Stmt} :
    Sequence Juxtaposable tokens stmts →
      ∃ reads, Stmt.dropLeadsAll reads = Stmt.dropLeadsAll stmts ∧
        statements tokens = (reads, [])
  | .nil => ⟨[], rfl, statements_nil⟩
  | .ended single kind sequence =>
      statements_step (single_recovers single) (separates_semicolon kind _)
        (statements_of_sequence sequence)
  | .juxtaposed single juxtaposable sequence =>
      statements_step (single_recovers single) (separates_nil sequence juxtaposable)
        (statements_of_sequence sequence)

/-- Tokens that write statements, with parentheses at least where the operators demand them and a
`;` at least where the next token would go on with the statement, parse without a fault and to
these statements. Only the first tokens that expression statements keep are those of the text. -/
theorem statements_recover_written {tokens : List Token} {stmts : List Stmt}
    (written : Sequence (fun kind => kind ≠ .minus ∧ kind ≠ .openParen ∧ kind ≠ .openBracket)
      tokens stmts) :
    (statements tokens).2 = [] ∧
      Stmt.dropLeadsAll (statements tokens).1 = Stmt.dropLeadsAll stmts := by
  obtain ⟨reads, same, parsed⟩ := statements_of_sequence written
  rw [parsed]
  exact ⟨rfl, same⟩

def adjacentSample : List Stmt :=
  [.expr ⟨.ident, "a"⟩
      (.binary ⟨.minus, "-"⟩ .sub (.ident ⟨.ident, "a"⟩)
        (.binary ⟨.minus, "-"⟩ .sub (.ident ⟨.ident, "b"⟩) (.ident ⟨.ident, "c"⟩))),
    .expr ⟨.bang, "!"⟩
      (.unary ⟨.bang, "!"⟩ .not
        (.index ⟨.openBracket, "["⟩ (.ident ⟨.ident, "d"⟩) (.int ⟨.int, "0"⟩ 0)))]

private theorem adjacentSample_written :
    Sequence Juxtaposable (Lexer.tokens "a - (b - c) !d[0]".toList) adjacentSample := by
  have tokens : Lexer.tokens "a - (b - c) !d[0]".toList =
      ([⟨.ident, "a"⟩] ++ ⟨.minus, "-"⟩ :: ⟨.openParen, "("⟩ ::
          (([⟨.ident, "b"⟩] ++ ⟨.minus, "-"⟩ :: [⟨.ident, "c"⟩]) ++ [⟨.closeParen, ")"⟩])) ++
        (⟨.bang, "!"⟩ :: ([⟨.ident, "d"⟩] ++ ⟨.openBracket, "["⟩ ::
          ([⟨.int, "0"⟩] ++ [⟨.closeBracket, "]"⟩])) ++ []) := by
    cbv
  rw [tokens]
  refine .juxtaposed (.expr (.bare trivial (.binary (.bare trivial (.ident rfl)) rfl
    (.grouped rfl (.bare trivial (.binary (.bare trivial (.ident rfl)) rfl
      (.bare trivial (.ident rfl)))) rfl)))) (by decide) (.juxtaposed (.expr ?_) (by decide) .nil)
  exact .bare trivial (.unary rfl (.bare trivial (.index (.bare trivial (.ident rfl)) rfl
    (.bare trivial (.int rfl (by decide))) rfl)))

theorem statements_recover_written_adjacent :
    Sequence (fun kind => kind ≠ .minus ∧ kind ≠ .openParen ∧ kind ≠ .openBracket)
        (Lexer.tokens "a - (b - c) !d[0]".toList) adjacentSample ∧
      (statements (Lexer.tokens "a - (b - c) !d[0]".toList)).2 = [] ∧
      Stmt.dropLeadsAll (statements (Lexer.tokens "a - (b - c) !d[0]".toList)).1 =
        Stmt.dropLeadsAll adjacentSample :=
  ⟨adjacentSample_written, statements_recover_written adjacentSample_written⟩

end Parser

end Script
