import Mathlib.Data.List.Permutation
import Script.Proofs.Grammar

/-!
# Every token is accounted for

A source that parses without a fault is a written form of the program it parses to. Each reading
function is described by what it does when it meets no fault: it gives a tree, and the tokens that
it used up write that tree.
-/

set_option autoImplicit false

namespace Script

namespace Parsed

variable {α β : Type} {bound : Nat}

/-- Without a fault there is a tree, and `tokens` are those that were used up followed by those that
are left. -/
def Accounts (parsed : Parsed α bound) (tokens : List Token)
    (post : List Token → α → List Token → Prop) : Prop :=
  parsed.errors = [] → ∃ used value, parsed.value = some value ∧ tokens = used ++ parsed.rest ∧
    post used value parsed.rest

theorem accounts_done {value : α} {rest tokens : List Token} {le : rest.length ≤ bound}
    {post : List Token → α → List Token → Prop} (used : List Token) (split : tokens = used ++ rest)
    (holds : post used value rest) : (done value rest le).Accounts tokens post :=
  fun _ => ⟨used, value, rfl, split, holds⟩

theorem accounts_failed {error : SyntaxError} {rest tokens : List Token}
    {le : rest.length ≤ bound} {post : List Token → α → List Token → Prop} :
    (failed error rest le : Parsed α bound).Accounts tokens post := by
  intro faultless
  cases faultless

theorem Accounts.weaken {parsed : Parsed α bound} {tokens : List Token} {larger : Nat}
    {post : List Token → α → List Token → Prop} (accounts : parsed.Accounts tokens post)
    (le : bound ≤ larger) : (parsed.weaken le).Accounts tokens post :=
  accounts

theorem Accounts.imp {parsed : Parsed α bound} {tokens : List Token}
    {post post' : List Token → α → List Token → Prop} (accounts : parsed.Accounts tokens post)
    (step : ∀ used value rest, tokens = used ++ rest → post used value rest →
      post' used value rest) : parsed.Accounts tokens post' := by
  intro faultless
  obtain ⟨used, value, valueIs, split, holds⟩ := accounts faultless
  exact ⟨used, value, valueIs, split, step used value _ split holds⟩

theorem Accounts.map {parsed : Parsed α bound} {tokens : List Token} {f : α → β}
    {post : List Token → α → List Token → Prop} {post' : List Token → β → List Token → Prop}
    (accounts : parsed.Accounts tokens post)
    (step : ∀ used value rest, post used value rest → post' used (f value) rest) :
    (parsed.map f).Accounts tokens post' := by
  intro faultless
  obtain ⟨used, value, valueIs, split, holds⟩ := accounts faultless
  refine ⟨used, f value, ?_, split, step used value _ holds⟩
  rw [Parsed.map, valueIs, Option.map_some]

theorem Accounts.cons {parsed : Parsed α bound} {token : Token} {tokens : List Token}
    {post : List Token → α → List Token → Prop}
    (accounts : parsed.Accounts tokens fun used => post (token :: used)) :
    parsed.Accounts (token :: tokens) post := by
  intro faultless
  obtain ⟨used, value, valueIs, split, holds⟩ := accounts faultless
  exact ⟨token :: used, value, valueIs, by rw [split, List.cons_append], holds⟩

/-- The tokens that both constructs have used up stand one behind the other. -/
theorem Accounts.andThen {parsed : Parsed α bound}
    {next : α → (rest : List Token) → rest.length ≤ bound → Parsed β rest.length}
    {tokens : List Token} {post : List Token → α → List Token → Prop}
    {post' : List Token → β → List Token → Prop} (first : parsed.Accounts tokens post)
    (second : ∀ used value rest le, post used value rest →
      (next value rest le).Accounts rest fun used' => post' (used ++ used')) :
    (parsed.andThen next).Accounts tokens post' := by
  intro faultless
  unfold Parsed.andThen at faultless ⊢
  cases valueCase : parsed.value with
  | none =>
      simp only [valueCase] at faultless
      obtain ⟨_, _, valueIs, _⟩ := first faultless
      rw [valueCase] at valueIs
      cases valueIs
  | some value =>
      simp only [valueCase, List.append_eq_nil_iff] at faultless
      obtain ⟨used, value', valueIs, split, holds⟩ := first faultless.1
      rw [valueCase] at valueIs
      cases valueIs
      obtain ⟨used', result, resultIs, split', holds'⟩ :=
        second used value parsed.rest parsed.rest_le holds faultless.2
      refine ⟨used ++ used', result, resultIs, ?_, holds'⟩
      rw [List.append_assoc, ← split', ← split]

/-- The first part of a sequence of statements cannot be dropped without a fault. -/
theorem Accounts.before {first : Parsed α bound}
    {others : (rest : List Token) → rest.length ≤ bound → Parsed (List α) rest.length}
    {tokens : List Token} {post : List Token → α → List Token → Prop}
    {post' : List Token → List α → List Token → Prop} (accounts : first.Accounts tokens post)
    (following : ∀ used value rest le, post used value rest →
      (others rest le).Accounts rest fun used' values => post' (used ++ used') (value :: values)) :
    (first.before others).Accounts tokens post' := by
  intro faultless
  simp only [Parsed.before, List.append_eq_nil_iff] at faultless
  obtain ⟨used, value, valueIs, split, holds⟩ := accounts faultless.1
  obtain ⟨used', values, valuesIs, split', holds'⟩ :=
    following used value first.rest first.rest_le holds faultless.2
  refine ⟨used ++ used', value :: values, ?_, ?_, holds'⟩
  · simp [Parsed.before, valueIs, valuesIs]
  · rw [List.append_assoc, Parsed.before, ← split', ← split]

end Parsed

namespace Parser

open Grammar

/-- A token behind which no `;` is missing: it does not go on with the expression before it. -/
abbrev StandsApart (kind : TokenKind) : Prop := ¬ Continues kind

/-! ## Tokens and parameter lists -/

theorem exists_cons_of_headKind {tokens : List Token} {kind : TokenKind}
    (head : headKind tokens = kind) (proper : kind ≠ .eof) :
    ∃ token rest, tokens = token :: rest ∧ token.kind = kind := by
  cases tokens with
  | nil => exact absurd head.symm proper
  | cons token rest => exact ⟨token, rest, rfl, head⟩

theorem expect_accounts (kind : TokenKind) (tokens : List Token) :
    (expect kind tokens).Accounts tokens fun used token _ =>
      used = [token] ∧ token.kind = kind := by
  cases tokens with
  | nil => exact Parsed.accounts_failed
  | cons token rest =>
      rw [expect]
      split
      · next fits => exact Parsed.accounts_done [token] rfl ⟨rfl, fits⟩
      · exact Parsed.accounts_failed

def Enclosed {α : Type} (close : TokenKind) (writes : List Token → α → Prop)
    (used : List Token) (value : α) (_rest : List Token) : Prop :=
  ∃ tokens closing, used = tokens ++ [closing] ∧ closing.kind = close ∧ writes tokens value

theorem moreParameters_accounts (tokens : List Token) :
    (moreParameters tokens).Accounts tokens (Enclosed .closeParen fun inner names =>
      ∀ name : Token, name.kind = .ident → Parameters (name :: inner) (name :: names)) := by
  fun_induction moreParameters tokens with
  | case1 => exact Parsed.accounts_failed
  | case2 => exact Parsed.accounts_failed
  | case3 comma commaKind name rest nameKind ih =>
      refine .cons (.cons ((ih.map ?_).weaken _))
      rintro used names rest ⟨inner, closing, rfl, closingKind, writes⟩
      refine ⟨comma :: name :: inner, closing, rfl, closingKind, ?_⟩
      intro first firstKind
      exact .more firstKind commaKind (writes name nameKind) (List.cons_ne_nil _ _)
  | case4 => exact Parsed.accounts_failed
  | case5 closing rest notComma closingKind =>
      exact Parsed.accounts_done [closing] rfl
        ⟨[], closing, rfl, closingKind, fun _ nameKind => .last nameKind⟩
  | case6 => exact Parsed.accounts_failed

theorem parameters_accounts (tokens : List Token) :
    (parameters tokens).Accounts tokens (Enclosed .closeParen Parameters) := by
  rw [parameters]
  split
  · next closes =>
    obtain ⟨closing, rest, rfl, closingKind⟩ := exists_cons_of_headKind closes (by decide)
    exact Parsed.accounts_done [closing] rfl ⟨[], closing, rfl, closingKind, .none⟩
  · refine (expect_accounts .ident tokens).andThen ?_
    rintro _ name rest _ ⟨rfl, nameKind⟩
    refine (moreParameters_accounts rest).map ?_
    rintro used names _ ⟨inner, closing, rfl, closingKind, writes⟩
    exact ⟨name :: inner, closing, rfl, closingKind, writes name nameKind⟩

/-! ## Expressions and statements

The reader of operators keeps what `Held` says of the expression it has built so far: it is in
parentheses, or every operator outside of them binds tighter than the operator in front of the
expression and at least as tight as the token behind it. -/

/-- How the tokens read so far write `expr`, when operators weaker than `minimum` are left alone and
a token of the kind `next` follows. -/
inductive Held (minimum : Precedence) (next : TokenKind) : List Token → Expr → Prop where
  | grouped {opening closing : Token} {tokens : List Token} {expr : Expr} :
      opening.kind = .openParen → Written StandsApart .free tokens expr →
      closing.kind = .closeParen → Held minimum next (opening :: (tokens ++ [closing])) expr
  | bare {tokens : List Token} {expr : Expr} :
      Bare StandsApart tokens expr → minimum < expr.leftPower →
      .ofKind next ≤ expr.rightPower → Held minimum next tokens expr

/-- An expression that was read for a minimal power is written at every position that admits such
expressions. -/
theorem Held.written {minimum : Precedence} {next : TokenKind} {tokens : List Token} {expr : Expr}
    {position : Position} (held : Held minimum next tokens expr)
    (admits : minimum < expr.leftPower → .ofKind next ≤ expr.rightPower → position.Admits expr) :
    Written StandsApart position tokens expr := by
  cases held with
  | grouped opening inner closing => exact .grouped opening inner closing
  | bare bare left right => exact .bare (admits left right) bare

private theorem Held.free {minimum : Precedence} {next : TokenKind} {tokens : List Token}
    {expr : Expr}
    (held : Held minimum next tokens expr) : Written StandsApart .free tokens expr :=
  held.written fun _ _ => Position.admits_free expr

/-- An expression that no operator can take apart. -/
theorem Held.closed {minimum : Precedence} {next : TokenKind} {tokens : List Token} {expr : Expr}
    (weak : minimum ≤ .unary) (bare : Bare StandsApart tokens expr)
    (left : expr.leftPower = .index) (right : expr.rightPower = .index) :
    Held minimum next tokens expr :=
  .bare bare (left ▸ lt_of_le_of_lt weak (by decide)) (right ▸ Precedence.le_index _)

def ReadAt (minimum : Precedence) (used : List Token) (expr : Expr) (rest : List Token) : Prop :=
  Held minimum (headKind rest) used expr ∧ .ofKind (headKind rest) ≤ minimum

private theorem ReadAt.underUnary {used rest : List Token} {operand : Expr} {token : Token}
    {op : UnaryOp}
    {minimum : Precedence} (readAt : ReadAt .unary used operand rest) (kind : token.kind = op.kind)
    (weak : minimum ≤ .unary) :
    Held minimum (headKind rest) (token :: used) (.unary token op operand) := by
  obtain ⟨held, le⟩ := readAt
  have written : Written StandsApart .underUnary used operand :=
    held.written fun left _ => Position.admits_underUnary_iff.mpr left
  have left : minimum < .index := lt_of_le_of_lt weak (by decide)
  exact .bare (.unary kind written) left le

/-- An operator that binds tighter than `minimum` takes what is held for its left operand. -/
theorem ReadAt.rightOf {minimum : Precedence} {token : Token} {op : BinaryOp} {left right : Expr}
    {before used rest : List Token} (readAt : ReadAt op.precedence used right rest)
    (held : Held minimum token.kind before left) (kind : token.kind = op.kind)
    (tighter : minimum < .ofKind token.kind) :
    Held minimum (headKind rest) (before ++ token :: used) (.binary token op left right) := by
  obtain ⟨heldRight, le⟩ := readAt
  have power : Precedence.ofKind token.kind = op.precedence := by
    rw [kind]
    rfl
  rw [power] at tighter
  have leftWritten : Written StandsApart (.leftOf op) before left :=
    held.written fun _ rightPower => Position.admits_leftOf_iff.mpr (power ▸ rightPower)
  have rightWritten : Written StandsApart (.rightOf op) used right :=
    heldRight.written fun leftPower _ => Position.admits_rightOf_iff.mpr leftPower
  exact .bare (.binary leftWritten kind rightWritten) tighter le

/-- In front of an opening bracket, what is held can be called or indexed. -/
theorem Held.applied {minimum : Precedence} {next : TokenKind} {tokens : List Token} {expr : Expr}
    (held : Held minimum next tokens expr) (opens : .call ≤ Precedence.ofKind next) :
    Written StandsApart .applied tokens expr :=
  held.written fun _ right => Position.admits_applied_iff.mpr (le_trans opens right)

def Ended (used : List Token) (stmt : Stmt) (rest : List Token) : Prop :=
  (∃ tokens separator, used = tokens ++ [separator] ∧ separator.kind = .semicolon ∧
    Single StandsApart tokens stmt) ∨
  (Single StandsApart used stmt ∧ StandsApart (headKind rest))

theorem standsApart_of_le {kind : TokenKind} (le : Precedence.ofKind kind ≤ .lowest) :
    StandsApart kind := by
  rw [StandsApart, ← Precedence.lowest_lt_ofKind_iff]
  exact not_lt_of_ge le

/-- Behind the last statement of a block comes the closing brace, which stands apart too. -/
theorem StandsApart.inside {tokens inner rest : List Token} {closing : Token}
    (apart : StandsApart (headKind tokens)) (split : tokens = inner ++ [closing] ++ rest) :
    StandsApart (headKind inner) := by
  cases inner with
  | nil => exact standsApart_of_le (by decide)
  | cons token inner =>
      subst split
      exact apart

theorem endStatement_accounts {used tokens : List Token} {stmt : Stmt}
    (single : Single StandsApart used stmt) (apart : StandsApart (headKind tokens)) :
    (endStatement stmt tokens).Accounts tokens fun used' => Ended (used ++ used') := by
  cases tokens with
  | nil =>
      refine Parsed.accounts_done [] rfl (.inr ⟨?_, apart⟩)
      rwa [List.append_nil]
  | cons token rest =>
      rw [endStatement]
      by_cases semicolon : token.kind = .semicolon
      · simp only [skipSemicolon, if_pos semicolon]
        exact Parsed.accounts_done [token] rfl (.inl ⟨used, token, rfl, semicolon, single⟩)
      · simp only [skipSemicolon, if_neg semicolon]
        refine Parsed.accounts_done [] rfl (.inr ⟨?_, apart⟩)
        rwa [List.append_nil]

mutual

theorem expression_accounts {minimum : Precedence} (weak : minimum ≤ .unary)
    (tokens : List Token) : (expression minimum tokens).Accounts tokens (ReadAt minimum) := by
  cases tokens with
  | nil =>
      rw [expression]
      exact Parsed.accounts_failed
  | cons token rest =>
      rw [expression]
      exact (expressionFrom_accounts weak token rest).weaken _
termination_by (tokens.length, 2)

theorem expressionFrom_accounts {minimum : Precedence} (weak : minimum ≤ .unary) (token : Token)
    (rest : List Token) :
    (expressionFrom minimum token rest).Accounts (token :: rest) (ReadAt minimum) := by
  rw [expressionFrom]
  refine (operand_accounts token rest).andThen ?_
  intro used left rest' _ held
  exact continuation_accounts weak (held minimum weak)
termination_by (rest.length + 1, 1)

theorem operand_accounts (token : Token) (rest : List Token) :
    (operand token rest).Accounts (token :: rest) fun used expr rest' =>
      ∀ minimum ≤ .unary, Held minimum (headKind rest') used expr := by
  rw [operand]
  split
  case h_1 kind =>
      exact Parsed.accounts_done [token] rfl fun _ weak => .closed weak (.ident kind) rfl rfl
  case h_2 kind =>
      rw [integer]
      split
      · next inRange =>
        exact Parsed.accounts_done [token] rfl fun _ weak =>
          .closed weak (.int kind inRange) rfl rfl
      · exact Parsed.accounts_failed
  case h_3 kind =>
      exact Parsed.accounts_done [token] rfl fun _ weak => .closed weak (.str kind) rfl rfl
  case h_4 kind =>
      exact Parsed.accounts_done [token] rfl fun _ weak => .closed weak (.truth kind) rfl rfl
  case h_5 kind =>
      exact Parsed.accounts_done [token] rfl fun _ weak => .closed weak (.falsity kind) rfl rfl
  case h_6 kind =>
      refine .cons ((expression_accounts (le_refl _) rest).map ?_)
      intro used inner rest' readAt minimum weak
      exact readAt.underUnary kind weak
  case h_7 kind =>
      refine .cons ((expression_accounts (le_refl _) rest).map ?_)
      intro used inner rest' readAt minimum weak
      exact readAt.underUnary kind weak
  case h_8 kind =>
      refine .cons ((expression_accounts (by decide) rest).andThen ?_)
      rintro used inner rest' _ ⟨held, _⟩
      refine (expect_accounts .closeParen rest').map ?_
      rintro _ closing _ ⟨rfl, closingKind⟩ minimum weak
      exact .grouped kind held.free closingKind
  case h_9 kind =>
      refine .cons ((expect_accounts .openParen rest).andThen ?_)
      rintro _ opening rest₁ _ ⟨rfl, openingKind⟩
      refine (expression_accounts (by decide) rest₁).andThen ?_
      rintro condition' condition rest₂ _ ⟨held, _⟩
      refine (expect_accounts .closeParen rest₂).andThen ?_
      rintro _ closing rest₃ _ ⟨rfl, closingKind⟩
      refine (expect_accounts .openBrace rest₃).andThen ?_
      rintro _ brace rest₄ _ ⟨rfl, braceKind⟩
      refine (block_accounts rest₄).andThen ?_
      rintro _ consequence rest₅ _ ⟨body, endBrace, rfl, endKind, sequence⟩
      have braced := Braced.intro braceKind sequence endKind
      have plain := Bare.conditional kind openingKind held.free closingKind braced
      cases rest₅ with
      | nil =>
          refine Parsed.accounts_done [] rfl fun _ weak => .closed weak ?_ rfl rfl
          simpa using plain
      | cons following rest₆ =>
        dsimp only
        split
        · next otherwiseKind =>
          refine .cons (((expect_accounts .openBrace rest₆).andThen ?_).weaken _)
          rintro _ brace' rest₇ _ ⟨rfl, braceKind'⟩
          refine (block_accounts rest₇).map ?_
          rintro _ alternative _ ⟨body', endBrace', rfl, endKind', sequence'⟩ minimum weak
          have braced' := Braced.intro braceKind' sequence' endKind'
          refine .closed weak ?_ rfl rfl
          simpa using Bare.alternative kind openingKind held.free closingKind braced
            otherwiseKind braced'
        · refine Parsed.accounts_done [] rfl fun _ weak => .closed weak ?_ rfl rfl
          simpa using plain
  case h_10 kind =>
      refine .cons ((expect_accounts .openParen rest).andThen ?_)
      rintro _ opening rest₁ _ ⟨rfl, openingKind⟩
      refine (parameters_accounts rest₁).andThen ?_
      rintro _ names rest₂ _ ⟨tokens, closing, rfl, closingKind, parameters⟩
      refine (expect_accounts .openBrace rest₂).andThen ?_
      rintro _ brace rest₃ _ ⟨rfl, braceKind⟩
      refine (block_accounts rest₃).map ?_
      rintro _ body _ ⟨inner, endBrace, rfl, endKind, sequence⟩ minimum weak
      refine .closed weak ?_ rfl rfl
      simpa using Bare.function kind openingKind parameters closingKind
        (.intro braceKind sequence endKind)
  case h_11 kind =>
      refine .cons ((expressions_accounts .closeBracket (by decide) rest).map ?_)
      rintro _ elements _ ⟨tokens, closing, rfl, closingKind, listed⟩ minimum weak
      exact .closed weak (.list kind listed closingKind) rfl rfl
  case h_12 kind =>
      refine .cons ((pairs_accounts rest).map ?_)
      rintro _ pairs _ ⟨tokens, closing, rfl, closingKind, paired⟩ minimum weak
      exact .closed weak (.map kind paired closingKind) rfl rfl
  case h_13 => exact Parsed.accounts_failed
termination_by (rest.length + 1, 0)
decreasing_by
  all_goals try simp only [List.length_cons] at *
  all_goals exact Prod.Lex.left _ _ (by omega)

theorem continuation_accounts {minimum : Precedence} (weak : minimum ≤ .unary) {left : Expr}
    {before tokens : List Token} (held : Held minimum (headKind tokens) before left) :
    (continuation minimum left tokens).Accounts tokens fun used =>
      ReadAt minimum (before ++ used) :=
  match tokens, held with
  | [], held => by
      rw [continuation]
      refine Parsed.accounts_done [] rfl ⟨?_, Precedence.lowest_le _⟩
      rwa [List.append_nil]
  | token :: rest, held => by
      rw [continuation]
      split
      · next tighter =>
        split
        · next op opIs =>
          have kind : token.kind = op.kind := BinaryOp.ofKind?_eq_some_iff.mp opIs
          refine .cons (((expression_accounts (le_of_lt op.precedence_lt_unary) rest).andThen
            ?_).weaken _)
          intro used right rest' _ readAt
          have extended := readAt.rightOf held kind tighter
          simpa using continuation_accounts weak extended
        · next notBinary =>
          split
          · next kind =>
            refine .cons (((expressions_accounts .closeParen (by decide) rest).andThen ?_).weaken _)
            rintro _ arguments rest' _ ⟨inner, closing, rfl, closingKind, listed⟩
            have callee := held.applied (show .call ≤ Precedence.ofKind token.kind by
              rw [kind]; decide)
            have extended : Held minimum (headKind rest') (before ++ token :: (inner ++ [closing]))
                (.call token left arguments) :=
              .closed weak (.call callee kind listed closingKind) rfl rfl
            simpa using continuation_accounts weak extended
          · next notCall =>
            split
            · next kind =>
              refine .cons (((expression_accounts (by decide) rest).andThen ?_).weaken _)
              rintro used position rest₁ _ ⟨heldPosition, _⟩
              refine (expect_accounts .closeBracket rest₁).andThen ?_
              rintro _ closing rest₂ _ ⟨rfl, closingKind⟩
              have collection := held.applied (show .call ≤ Precedence.ofKind token.kind by
                rw [kind]; decide)
              have extended : Held minimum (headKind rest₂) (before ++ token :: (used ++ [closing]))
                  (.index token left position) :=
                .closed weak (.index collection kind heldPosition.free closingKind) rfl rfl
              simpa using continuation_accounts weak extended
            · next notIndex =>
              -- A token that binds tighter than anything is one of the three above.
              have continues : Continues token.kind :=
                Precedence.lowest_lt_ofKind_iff.mp
                  (lt_of_le_of_lt (Precedence.lowest_le minimum) tighter)
              rcases continues with ⟨op, kind⟩ | kind | kind
              · rw [BinaryOp.ofKind?_eq_some_iff.mpr kind] at notBinary
                cases notBinary
              · exact absurd kind notCall
              · exact absurd kind notIndex
      · next loose =>
        refine Parsed.accounts_done [] rfl ⟨?_, not_lt.mp loose⟩
        rwa [List.append_nil]
termination_by (tokens.length, 0)

theorem expressions_accounts (close : TokenKind) (proper : close ≠ .eof) (tokens : List Token) :
    (expressions close tokens).Accounts tokens (Enclosed close (Listed StandsApart)) := by
  rw [expressions]
  split
  · next closes =>
    obtain ⟨closing, rest, rfl, closingKind⟩ := exists_cons_of_headKind closes proper
    exact Parsed.accounts_done [closing] rfl ⟨[], closing, rfl, closingKind, .none⟩
  · refine (moreExpressions_accounts close tokens).imp ?_
    rintro _ exprs _ _ ⟨inner, closing, rfl, closingKind, listed, _⟩
    exact ⟨inner, closing, rfl, closingKind, listed⟩
termination_by (tokens.length, 4)

theorem moreExpressions_accounts (close : TokenKind) (tokens : List Token) :
    (moreExpressions close tokens).Accounts tokens (Enclosed close fun inner exprs =>
      Listed StandsApart inner exprs ∧ exprs ≠ []) := by
  rw [moreExpressions]
  refine (expression_accounts (by decide) tokens).andThen ?_
  rintro used first rest _ ⟨held, _⟩
  cases rest with
  | nil => exact Parsed.accounts_failed
  | cons token rest =>
    dsimp only
    split
    · next commaKind =>
      refine .cons (((moreExpressions_accounts close rest).map ?_).weaken _)
      rintro _ exprs _ ⟨inner, closing, rfl, closingKind, listed, nonempty⟩
      refine ⟨used ++ token :: inner, closing, by simp, closingKind, ?_, List.cons_ne_nil _ _⟩
      exact .more held.free commaKind listed nonempty
    · split
      · next closingKind =>
        exact Parsed.accounts_done [token] rfl
          ⟨used, token, rfl, closingKind, .last held.free, List.cons_ne_nil _ _⟩
      · exact Parsed.accounts_failed
termination_by (tokens.length, 3)

theorem pairs_accounts (tokens : List Token) :
    (pairs tokens).Accounts tokens (Enclosed .closeBrace (Paired StandsApart)) := by
  rw [pairs]
  split
  · next closes =>
    obtain ⟨closing, rest, rfl, closingKind⟩ := exists_cons_of_headKind closes (by decide)
    exact Parsed.accounts_done [closing] rfl ⟨[], closing, rfl, closingKind, .none⟩
  · refine (expression_accounts (by decide) tokens).andThen ?_
    rintro before key rest₁ _ ⟨heldKey, _⟩
    cases rest₁ with
    | nil => exact Parsed.accounts_failed
    | cons colon rest₂ =>
        dsimp only
        split
        · next colonKind =>
          refine .cons (((expression_accounts (by decide) rest₂).andThen ?_).weaken _)
          rintro after value rest₃ _ ⟨heldValue, _⟩
          split
          · next closes =>
            obtain ⟨closing, rest, rfl, closingKind⟩ :=
              exists_cons_of_headKind closes (by decide)
            exact Parsed.accounts_done [closing] rfl
              ⟨before ++ colon :: after, closing, by simp, closingKind,
                .last heldKey.free colonKind heldValue.free⟩
          · refine (expect_accounts .comma rest₃).andThen ?_
            rintro _ comma rest₄ _ ⟨rfl, commaKind⟩
            refine (pairs_accounts rest₄).map ?_
            rintro _ pairs _ ⟨inner, closing, rfl, closingKind, paired⟩
            refine ⟨before ++ colon :: (after ++ comma :: inner), closing, by simp,
              closingKind, ?_⟩
            -- Without further pairs the comma just read was the last one.
            cases pairs with
            | nil =>
                cases paired
                exact .trailing heldKey.free colonKind heldValue.free commaKind
            | cons pair pairs =>
                exact .more heldKey.free colonKind heldValue.free commaKind paired
                  (List.cons_ne_nil _ _)
        · exact Parsed.accounts_failed
termination_by (tokens.length, 3)
decreasing_by
  · exact Prod.Lex.right _ (by omega)
  all_goals simp only [List.length_cons] at *
  all_goals exact Prod.Lex.left _ _ (by omega)

theorem block_accounts (tokens : List Token) :
    (block tokens).Accounts tokens (Enclosed .closeBrace (Sequence StandsApart)) :=
  match tokens with
  | [] => by
      rw [block]
      intro faultless
      cases faultless
  | token :: rest => by
      rw [block]
      split
      · next closingKind =>
        exact Parsed.accounts_done [token] rfl ⟨[], token, rfl, closingKind, .nil⟩
      · refine ((statement_accounts token rest).before ?_).weaken _
        intro used stmt rest' _ ended
        refine (block_accounts rest').imp ?_
        rintro _ stmts after split ⟨inner, closing, rfl, closingKind, sequence⟩
        rcases ended with ⟨tokens, separator, rfl, separatorKind, single⟩ | ⟨single, apart⟩
        · exact ⟨tokens ++ separator :: inner, closing, by simp, closingKind,
            .ended single separatorKind sequence⟩
        · refine ⟨used ++ inner, closing, by simp, closingKind, .juxtaposed single ?_ sequence⟩
          exact apart.inside split
termination_by (tokens.length, 3)

/-- The statement was written by the tokens that were used up, and was ended or stands apart from
the next. -/
theorem statement_accounts (token : Token) (rest : List Token) :
    (statement token rest).Accounts (token :: rest) Ended := by
  rw [statement]
  split
  case h_1 kind =>
      refine .cons ((expect_accounts .ident rest).andThen ?_)
      rintro _ name rest₁ _ ⟨rfl, nameKind⟩
      refine (expect_accounts .assign rest₁).andThen ?_
      rintro _ assign rest₂ _ ⟨rfl, assignKind⟩
      refine (expression_accounts (by decide) rest₂).andThen ?_
      rintro used value rest₃ _ ⟨held, le⟩
      exact endStatement_accounts (.bind kind nameKind assignKind held.free) (standsApart_of_le le)
  case h_2 kind =>
      refine .cons ((expression_accounts (by decide) rest).andThen ?_)
      rintro used value rest' _ ⟨held, le⟩
      exact endStatement_accounts (.ret kind held.free) (standsApart_of_le le)
  case h_3 =>
      refine (expressionFrom_accounts (by decide) token rest).andThen ?_
      rintro used expression rest' _ ⟨held, le⟩
      exact endStatement_accounts (.expr held.free) (standsApart_of_le le)
termination_by (rest.length + 1, 2)

end

/-! ## Programs -/

/-- Tokens that are read without a fault write the statements that are read from them. -/
theorem statements_written (tokens : List Token) (faultless : (statements tokens).2 = []) :
    Sequence StandsApart tokens (statements tokens).1 := by
  fun_induction statements tokens with
  | case1 => exact .nil
  | case2 token rest first others ih =>
      obtain ⟨firstFaultless, othersFaultless⟩ := List.append_eq_nil_iff.mp faultless
      obtain ⟨used, stmt, stmtIs, split, ended⟩ := statement_accounts token rest firstFaultless
      have sequence := ih othersFaultless
      rw [split, show first.value = some stmt from stmtIs]
      rcases ended with ⟨tokens, separator, rfl, separatorKind, single⟩ | ⟨single, apart⟩
      · rw [List.append_assoc]
        exact .ended single separatorKind sequence
      · exact .juxtaposed single apart sequence

end Parser

/-- A source holds a program if reading all of its tokens meets no fault. -/
theorem Program.ofSource_eq_ok_iff {source : String} {program : Program} :
    Program.ofSource source = .ok program ↔
      (Parser.statements (Lexer.tokens source.toList)).1 = program.statements ∧
        (Parser.statements (Lexer.tokens source.toList)).2 = [] := by
  simp only [Program.ofSource, Program.parse, List.isEmpty_iff]
  constructor
  · intro parsed
    split at parsed
    · next faultless =>
      cases parsed
      exact ⟨rfl, faultless⟩
    · cases parsed
  · rintro ⟨stmtsAre, faultless⟩
    rw [if_pos faultless, stmtsAre]

/-- A source that parses without a fault is a written form of its program: its tokens, each used
once and in order, write the statements with parentheses at least where they are demanded, and a
statement without a `;` is not followed by a token that would go on with it. -/
theorem Program.tokens_written_of_ofSource {source : String} {program : Program}
    (parsed : Program.ofSource source = .ok program) :
    Grammar.Sequence (fun kind => ¬ Grammar.Continues kind) (Lexer.tokens source.toList)
      program.statements := by
  obtain ⟨stmtsAre, faultless⟩ := Program.ofSource_eq_ok_iff.mp parsed
  rw [← stmtsAre]
  exact Parser.statements_written _ faultless

def groupedSample : Program :=
  ⟨[.expr ⟨.openParen, "("⟩
      (.binary ⟨.star, "*"⟩ .mul
        (.binary ⟨.plus, "+"⟩ .add (.ident ⟨.ident, "a"⟩)
          (.unary ⟨.minus, "-"⟩ .neg (.int ⟨.int, "1"⟩ 1)))
        (.index ⟨.openBracket, "["⟩ (.ident ⟨.ident, "b"⟩) (.int ⟨.int, "0"⟩ 0))),
    .expr ⟨.ident, "c"⟩ (.ident ⟨.ident, "c"⟩)]⟩

theorem Program.tokens_written_of_ofSource_grouped :
    Program.ofSource "(a + -1) * b[0] c" = .ok groupedSample ∧
      Grammar.Sequence (fun kind => ¬ Grammar.Continues kind)
        (Lexer.tokens "(a + -1) * b[0] c".toList) groupedSample.statements := by
  have parsed : Program.ofSource "(a + -1) * b[0] c" = .ok groupedSample := by cbv
  exact ⟨parsed, Program.tokens_written_of_ofSource parsed⟩

end Script
