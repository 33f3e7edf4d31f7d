import Script.Proofs.Concatenation
import Script.Proofs.Readings

/-!
# Expressions with something behind them

Where the tokens of an expression that can be called or indexed are followed by others, reading
comes down to reading the operators, arguments and indices behind it. Whatever these add makes the
text of the expression longer, so that an expression which is read back from its own text did not
go on.
-/

set_option autoImplicit false

namespace Script

namespace Parsed

variable {α β : Type} {bound : Nat}

theorem weaken_value {larger : Nat} (parsed : Parsed α bound) (le : bound ≤ larger) :
    (parsed.weaken le).value = parsed.value := rfl

/-- The bound on the tokens that are left is no part of what was read. -/
theorem Reads.of_ending {bound' : Nat} {parsed : Parsed α bound} {parsed' : Parsed α bound'}
    {value : α} {rest : List Token} (reads : parsed'.Reads value rest)
    (same : parsed.ending = parsed'.ending) : parsed.Reads value rest := by
  obtain ⟨sameValue, sameRest, sameErrors⟩ := Ending.mk.inj same
  exact ⟨sameValue ▸ reads.value_eq, sameRest ▸ reads.rest_eq, sameErrors ▸ reads.errors_eq⟩

/-- What comes behind a construct that was read without a fault decides the outcome. -/
theorem Reads.ending_andThen {parsed : Parsed α bound} {value : α} {rest : List Token}
    {next : α → (rest : List Token) → rest.length ≤ bound → Parsed β rest.length}
    (first : parsed.Reads value rest) {ending : Ending β}
    (following : ∀ le, (next value rest le).ending = ending) :
    (parsed.andThen next).ending = ending := by
  obtain ⟨valueIs, rfl, faultless⟩ := first
  rw [← following parsed.rest_le]
  simp [Parsed.ending, Parsed.andThen, valueIs, faultless]

private theorem Reads.following_of_andThen {parsed : Parsed α bound} {value : α} {result : β}
    {rest : List Token}
    {next : α → (rest : List Token) → rest.length ≤ bound → Parsed β rest.length}
    (first : parsed.Reads value rest) (reads : (parsed.andThen next).value = some result) :
    ∃ le, (next value rest le).value = some result := by
  obtain ⟨valueIs, rfl, _⟩ := first
  obtain ⟨value', valueIs', following⟩ := andThen_value_eq_some.mp reads
  cases valueIs.symm.trans valueIs'
  exact ⟨_, following⟩

end Parsed

namespace Parser

open Grammar

/-! ## Going on -/

/-- Reading `tokens` and what is behind them comes down to reading what is behind with `expr` on the
left. -/
def Agrees (expr : Expr) (tokens : List Token) : Prop :=
  ∃ read, read.dropLeads = expr.dropLeads ∧
    ∀ ⦃minimum : Precedence⦄ ⦃rest : List Token⦄, minimum ≤ .unary →
      (expr.awaitsElse = true → headKind rest ≠ .kwElse) →
      (expression minimum (tokens ++ rest)).ending = (continuation minimum read rest).ending

private theorem RecoversOperand.agrees {expr : Expr} {tokens : List Token}
    (recovers : RecoversOperand expr tokens) : Agrees expr tokens := by
  obtain ⟨token, tail, read, rfl, same, reads⟩ := recovers
  refine ⟨read, same, ?_⟩
  intro minimum rest _ notElse
  rw [List.cons_append, expression, expressionFrom]
  exact (reads notElse).ending_andThen fun _ => rfl

private theorem agrees_call {token closing : Token} {callee : Expr} {arguments : List Expr}
    {before tokens : List Token} (agrees : Agrees callee before) (kind : token.kind = .openParen)
    (recovers : RecoversList arguments tokens) (closingKind : closing.kind = .closeParen) :
    Agrees (.call token callee arguments) (before ++ token :: (tokens ++ [closing])) := by
  obtain ⟨readCallee, sameCallee, calleeAgrees⟩ := agrees
  obtain ⟨readArguments, sameArguments, argumentsRead⟩ :=
    recovers.closed (by decide : ClosesList .closeParen)
  refine ⟨.call token readCallee readArguments,
    by simp only [Expr.dropLeads, sameCallee, sameArguments], ?_⟩
  intro minimum rest weak _
  have binds : minimum < .ofKind token.kind := by
    rw [kind]
    exact lt_of_le_of_lt weak (by decide)
  rw [List.append_assoc, List.cons_append, List.append_assoc, List.singleton_append,
    calleeAgrees weak fun _ => by rw [headKind, kind]; decide, continuation, if_pos binds]
  simp only [kind, BinaryOp.ofKind?, if_true]
  exact (argumentsRead closingKind rest).ending_andThen fun _ => rfl

private theorem agrees_index {token closing : Token} {collection position : Expr}
    {before tokens : List Token} (agrees : Agrees collection before)
    (kind : token.kind = .openBracket) (recovers : RecoversAt .free position tokens)
    (closingKind : closing.kind = .closeBracket) :
    Agrees (.index token collection position) (before ++ token :: (tokens ++ [closing])) := by
  obtain ⟨readCollection, sameCollection, collectionAgrees⟩ := agrees
  obtain ⟨readPosition, samePosition, positionReads⟩ := recovers.free
  refine ⟨.index token readCollection readPosition,
    by simp only [Expr.dropLeads, sameCollection, samePosition], ?_⟩
  intro minimum rest weak _
  have binds : minimum < .ofKind token.kind := by
    rw [kind]
    exact lt_of_le_of_lt weak (by decide)
  rw [List.append_assoc, List.cons_append, List.append_assoc, List.singleton_append,
    collectionAgrees weak fun _ => by rw [headKind, kind]; decide, continuation, if_pos binds]
  simp only [kind, BinaryOp.ofKind?, reduceCtorEq, if_false, if_true]
  refine (positionReads (endsExpr_cons closingKind (by decide) rest)).ending_andThen fun _ => ?_
  exact (expect_reads closingKind rest).ending_andThen fun _ => rfl

mutual

/-- No operator may stand in the place of a callee without parentheses, which leaves the cases of
unary and binary expressions void. -/
theorem bare_agrees {tokens : List Token} {expr : Expr} (admits : Position.applied.Admits expr) :
    Bare Juxtaposable tokens expr → Agrees expr tokens
  | .ident kind => (recovers_atom (operand_reads_ident kind)).agrees
  | .int kind small => (recovers_atom (operand_reads_int kind small)).agrees
  | .truth kind => (recovers_atom (operand_reads_truth kind)).agrees
  | .falsity kind => (recovers_atom (operand_reads_falsity kind)).agrees
  | .str kind => (recovers_atom (operand_reads_str kind)).agrees
  | .unary _ _ | .binary _ _ _ => admits.elim
  | .conditional kind openingKind condition closingKind (.intro braceKind body braceKind') =>
      (recovers_conditional kind openingKind (written_recovers condition) closingKind braceKind
        (sequence_recovers body) braceKind').agrees
  | .alternative kind openingKind condition closingKind (.intro braceKind body braceKind')
      otherwiseKind (.intro brace₂Kind body' brace₂Kind') =>
      (recovers_alternative kind openingKind (written_recovers condition) closingKind braceKind
        (sequence_recovers body) braceKind' otherwiseKind brace₂Kind (sequence_recovers body')
        brace₂Kind').agrees
  | .function kind openingKind parameters closingKind (.intro braceKind body braceKind') =>
      (recovers_function kind openingKind parameters closingKind braceKind
        (sequence_recovers body) braceKind').agrees
  | .call callee kind arguments closingKind =>
      agrees_call (written_agrees callee) kind (listed_recovers arguments) closingKind
  | .list kind elements closingKind =>
      (recovers_list kind (listed_recovers elements) closingKind).agrees
  | .map kind entries closingKind =>
      (recovers_map kind (paired_recovers entries) closingKind).agrees
  | .index collection kind position closingKind =>
      agrees_index (written_agrees collection) kind (written_recovers position) closingKind

/-- An expression that can be called or indexed as it is written. -/
theorem written_agrees {tokens : List Token} {expr : Expr} :
    Written Juxtaposable .applied tokens expr → Agrees expr tokens
  | .bare admits bare => bare_agrees admits bare
  | .grouped kind inner closingKind =>
      (recovers_grouped kind (written_recovers inner) closingKind).agrees

end

/-! ## Longer texts -/

/-- What an operator, arguments or an index are added to has a shorter text. -/
theorem length_render_lt_binary (token : Token) (op : BinaryOp) (left right : Expr) :
    left.render.length < (Expr.binary token op left right).render.length := by
  simp only [Expr.render, String.length_append]
  have opening : "(".length = 1 := rfl
  omega

private theorem length_render_lt_call (token : Token) (callee : Expr) (arguments : List Expr) :
    callee.render.length < (Expr.call token callee arguments).render.length := by
  simp only [Expr.render, String.length_append]
  have opening : "(".length = 1 := rfl
  omega

private theorem length_render_lt_index (token : Token) (collection position : Expr) :
    collection.render.length < (Expr.index token collection position).render.length := by
  simp only [Expr.render, String.length_append]
  have opening : "(".length = 1 := rfl
  omega

/-- Reading on either stops, and then in front of no opening bracket, or goes on from a larger
expression. -/
theorem continuation_step {minimum : Precedence} {left expr : Expr} {tokens : List Token}
    (reads : (continuation minimum left tokens).value = some expr) :
    (expr = left ∧ (minimum ≤ .unary →
      headKind tokens ≠ .openParen ∧ headKind tokens ≠ .openBracket)) ∨
    ∃ larger rest, left.render.length < larger.render.length ∧ rest.length < tokens.length ∧
      (continuation minimum larger rest).value = some expr := by
  cases tokens with
  | nil =>
      rw [continuation] at reads
      cases reads
      exact .inl ⟨rfl, fun _ => by decide⟩
  | cons token rest =>
      rw [continuation] at reads
      split at reads
      · next binds =>
        cases opIs : BinaryOp.ofKind? token.kind with
        | some op =>
            simp only [opIs, Parsed.weaken_value] at reads
            obtain ⟨right, _, more⟩ := Parsed.andThen_value_eq_some.mp reads
            exact .inr ⟨_, _, length_render_lt_binary token op left right,
              Nat.lt_succ_of_le (expression op.precedence rest).rest_le, more⟩
        | none =>
            simp only [opIs] at reads
            split at reads
            · rw [Parsed.weaken_value] at reads
              obtain ⟨arguments, _, more⟩ := Parsed.andThen_value_eq_some.mp reads
              exact .inr ⟨_, _, length_render_lt_call token left arguments,
                Nat.lt_succ_of_le (expressions .closeParen rest).rest_le, more⟩
            · next notParen =>
              split at reads
              · rw [Parsed.weaken_value] at reads
                obtain ⟨position, _, closed⟩ := Parsed.andThen_value_eq_some.mp reads
                obtain ⟨_, _, more⟩ := Parsed.andThen_value_eq_some.mp closed
                have shorter := (expression .lowest rest).rest_le
                have shorter' := (expect .closeBracket (expression .lowest rest).rest).rest_le
                exact .inr ⟨_, _, length_render_lt_index token left position,
                  Nat.lt_succ_of_le (Nat.le_trans shorter' shorter), more⟩
              · next notBracket =>
                cases reads
                exact .inl ⟨rfl, fun _ => ⟨notParen, notBracket⟩⟩
      · next loose =>
        cases reads
        refine .inl ⟨rfl, fun weak => ⟨?_, ?_⟩⟩
        · intro opens
          rw [show token.kind = _ from opens] at loose
          exact loose (lt_of_le_of_lt weak (by decide))
        · intro opens
          rw [show token.kind = _ from opens] at loose
          exact loose (lt_of_le_of_lt weak (by decide))

theorem length_render_le_of_continuation {minimum : Precedence} {left expr : Expr}
    {tokens : List Token} (reads : (continuation minimum left tokens).value = some expr) :
    left.render.length ≤ expr.render.length := by
  induction bound : tokens.length using Nat.strong_induction_on generalizing left tokens with
  | _ length ih =>
      rcases continuation_step reads with ⟨rfl, _⟩ | ⟨larger, rest, longer, shorter, more⟩
      · exact le_refl _
      · exact le_trans (le_of_lt longer) (ih rest.length (bound ▸ shorter) more rfl)

/-- In front of an opening bracket an expression goes on, and becomes longer. -/
theorem length_render_lt_of_continuation {minimum : Precedence} {left expr : Expr}
    {tokens : List Token} (weak : minimum ≤ .unary)
    (opens : headKind tokens = .openParen ∨ headKind tokens = .openBracket)
    (reads : (continuation minimum left tokens).value = some expr) :
    left.render.length < expr.render.length := by
  rcases continuation_step reads with ⟨_, closed⟩ | ⟨larger, rest, longer, _, more⟩
  · obtain ⟨notParen, notBracket⟩ := closed weak
    rcases opens with opens | opens
    · exact absurd opens notParen
    · exact absurd opens notBracket
  · exact lt_of_lt_of_le longer (length_render_le_of_continuation more)

/-- An `else` behind a condition belongs to it, and makes it longer. -/
theorem length_render_lt_of_else {token opening closing brace brace' : Token}
    {condition expr : Expr} {stmts : List Stmt} {tokens body rest : List Token}
    (kind : token.kind = .kwIf) (openingKind : opening.kind = .openParen)
    (recoversCondition : RecoversAt .free condition tokens)
    (closingKind : closing.kind = .closeParen) (braceKind : brace.kind = .openBrace)
    (recoversBody : RecoversBlock stmts body) (braceKind' : brace'.kind = .closeBrace)
    (otherwise : headKind rest = .kwElse)
    (reads : (expression .lowest (token :: opening ::
      (tokens ++ closing :: (brace :: (body ++ [brace']))) ++ rest)).value = some expr) :
    (Expr.conditional token condition ⟨brace, stmts⟩ none).render.length < expr.render.length := by
  obtain ⟨read, same, conditionReads⟩ := recoversCondition.free
  obtain ⟨readBody, sameBody, bodyReads⟩ := recoversBody
  obtain ⟨following, more, rfl⟩ : ∃ following more, rest = following :: more := by
    cases rest with
    | nil => cases otherwise
    | cons following more => exact ⟨following, more, rfl⟩
  have flat : token :: opening :: (tokens ++ closing :: (brace :: (body ++ [brace']))) ++
      following :: more = token :: opening ::
        (tokens ++ closing :: brace :: (body ++ brace' :: following :: more)) := by simp
  rw [flat, expression, Parsed.weaken_value, expressionFrom] at reads
  obtain ⟨whole, operandReads, continues⟩ := Parsed.andThen_value_eq_some.mp reads
  have longer := length_render_le_of_continuation continues
  rw [operand] at operandReads
  simp only [kind] at operandReads
  obtain ⟨_, reads₁⟩ := (expect_reads openingKind _).following_of_andThen operandReads
  obtain ⟨_, reads₂⟩ := (conditionReads
    (endsExpr_cons closingKind (by decide) _)).following_of_andThen reads₁
  obtain ⟨_, reads₃⟩ := (expect_reads closingKind _).following_of_andThen reads₂
  obtain ⟨_, reads₄⟩ := (expect_reads braceKind _).following_of_andThen reads₃
  obtain ⟨_, reads₅⟩ := (bodyReads braceKind' _).following_of_andThen reads₄
  simp only [if_pos (show following.kind = .kwElse from otherwise), Parsed.weaken_value] at reads₅
  obtain ⟨brace₂, _, reads₆⟩ := Parsed.andThen_value_eq_some.mp reads₅
  obtain ⟨alternative, _, rfl⟩ := Option.map_eq_some_iff.mp reads₆
  have sameRender : (Expr.conditional token read ⟨brace, readBody⟩ none).render =
      (Expr.conditional token condition ⟨brace, stmts⟩ none).render := by
    rw [← Expr.render_dropLeads, ← Expr.render_dropLeads (.conditional _ condition _ _)]
    simp only [Expr.dropLeads, Block.dropLeads, same, sameBody]
  refine lt_of_lt_of_le ?_ longer
  rw [← sameRender]
  simp only [Expr.render, String.length_append]
  have otherwiseLength : " else ".length = 6 := rfl
  omega

end Parser

end Script
