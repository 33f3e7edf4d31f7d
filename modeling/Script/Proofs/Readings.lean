import Script.Syntax.Parser

/-!
# What parsing consists of

Reading a construct reads other constructs on the way, and goes on with the tokens that these leave.
A plan says which ones, for each construct and without reading any of them: it stops with an ending,
or it asks for a reading and continues with whatever that reading gives. Malformed input takes part
like any other: a reading that gives no tree still leaves tokens.

Rounds of a loop count as readings. The statements behind the first, the operators behind an operand
and the items behind a comma are read by a reading of their own.

The rules that say what a reading ends with know of plans only. A derivation is finite, so that a
reading has an ending exactly if it comes to an end.
-/

set_option autoImplicit false

namespace Script

inductive Construct where
  | program | block | statement
  | expression | expressionFrom | operand | continuation
  | expressions | moreExpressions | pairs
  | parameters | moreParameters
  deriving DecidableEq, Repr

@[reducible]
def Construct.Tree : Construct → Type
  | program | block => List Stmt
  | statement => Stmt
  | expression | expressionFrom | operand | continuation => Expr
  | expressions | moreExpressions => List Expr
  | pairs => List (Expr × Expr)
  | parameters | moreParameters => List Token

inductive Bracket where
  | round | square
  deriving DecidableEq, Repr

def Bracket.close : Bracket → TokenKind
  | round => .closeParen
  | square => .closeBracket

/-- A construct that is about to be read, with the tokens that are left. -/
inductive Reading : Construct → Type where
  | program (tokens : List Token) : Reading .program
  | block (tokens : List Token) : Reading .block
  | statement (token : Token) (rest : List Token) : Reading .statement
  | expression (minimum : Precedence) (tokens : List Token) : Reading .expression
  | expressionFrom (minimum : Precedence) (token : Token) (rest : List Token) :
      Reading .expressionFrom
  | operand (token : Token) (rest : List Token) : Reading .operand
  | continuation (minimum : Precedence) (left : Expr) (tokens : List Token) :
      Reading .continuation
  | expressions (bracket : Bracket) (tokens : List Token) : Reading .expressions
  | moreExpressions (bracket : Bracket) (tokens : List Token) : Reading .moreExpressions
  | pairs (tokens : List Token) : Reading .pairs
  | parameters (tokens : List Token) : Reading .parameters
  | moreParameters (tokens : List Token) : Reading .moreParameters

structure Ending (α : Type) where
  tree : Option α
  rest : List Token
  errors : List SyntaxError

def Parsed.ending {α : Type} {bound : Nat} (parsed : Parsed α bound) : Ending α :=
  ⟨parsed.value, parsed.rest, parsed.errors⟩

inductive Plan (α : Type) : Type where
  | stop (tree : Option α) (errors : List SyntaxError) (rest : List Token)
  | start {construct : Construct} (reading : Reading construct)
      (next : Option construct.Tree → List Token → Plan α)

namespace Plan

variable {α : Type}

def done (tree : α) (rest : List Token) : Plan α := .stop (some tree) [] rest

def failed (error : SyntaxError) (rest : List Token) : Plan α := .stop none [error] rest

/-- Go on with the tree of a reading. Without one the construct is malformed too, and the reading
has reported why. -/
def need {construct : Construct} (reading : Reading construct)
    (next : construct.Tree → List Token → Plan α) : Plan α :=
  .start reading fun tree rest =>
    match tree with
    | none => .stop none [] rest
    | some tree => next tree rest

def expect (kind : TokenKind) (tokens : List Token) (next : Token → List Token → Plan α) : Plan α :=
  match tokens with
  | [] => failed (.unexpected kind .eof) []
  | token :: rest =>
      if token.kind = kind then next token rest
      else failed (.unexpected kind token.kind) (token :: rest)

end Plan

namespace Reading

open Script.Parser (headKind skipSemicolon)

def plan : {construct : Construct} → Reading construct → Plan construct.Tree
  | _, program [] => .done [] []
  | _, program (token :: rest) =>
      .start (statement token rest) fun first rest' =>
      .need (program rest') fun others rest'' => .done (first.toList ++ others) rest''
  | _, block [] => .stop (some []) [.unexpected .closeBrace .eof] []
  | _, block (token :: rest) =>
      if token.kind = .closeBrace then .done [] rest
      else
        .start (statement token rest) fun first rest' =>
        .need (block rest') fun others rest'' => .done (first.toList ++ others) rest''
  | _, statement token rest =>
      match token.kind with
      | .kwLet =>
          .expect .ident rest fun name rest₁ =>
          .expect .assign rest₁ fun _ rest₂ =>
          .need (expression .lowest rest₂) fun value rest₃ =>
            .done (.bind token name value) (skipSemicolon rest₃)
      | .kwReturn =>
          .need (expression .lowest rest) fun value rest' =>
            .done (.ret token value) (skipSemicolon rest')
      | _ =>
          .need (expressionFrom .lowest token rest) fun expression rest' =>
            .done (.expr token expression) (skipSemicolon rest')
  | _, expression _ [] => .failed (.noOperand .eof) []
  | _, expression minimum (token :: rest) =>
      .need (expressionFrom minimum token rest) fun expr rest' => .done expr rest'
  | _, expressionFrom minimum token rest =>
      .need (operand token rest) fun left rest' =>
      .need (continuation minimum left rest') fun expr rest'' => .done expr rest''
  | _, operand token rest =>
      match token.kind with
      | .ident => .done (.ident token) rest
      | .int =>
          if Parser.digitsValue token.text.toList ≤ Parser.maxInteger then
            .done (.int token (Int64.ofNat (Parser.digitsValue token.text.toList))) rest
          else .failed (.integerTooLarge token.text) rest
      | .str => .done (.str token) rest
      | .kwTrue => .done (.bool token true) rest
      | .kwFalse => .done (.bool token false) rest
      | .bang =>
          .need (expression .unary rest) fun inner rest' => .done (.unary token .not inner) rest'
      | .minus =>
          .need (expression .unary rest) fun inner rest' => .done (.unary token .neg inner) rest'
      | .openParen =>
          .need (expression .lowest rest) fun inner rest' =>
          .expect .closeParen rest' fun _ rest'' => .done inner rest''
      | .kwIf =>
          .expect .openParen rest fun _ rest₁ =>
          .need (expression .lowest rest₁) fun condition rest₂ =>
          .expect .closeParen rest₂ fun _ rest₃ =>
          .expect .openBrace rest₃ fun opening rest₄ =>
          .need (block rest₄) fun consequence rest₅ =>
            if headKind rest₅ = .kwElse then
              .expect .openBrace (rest₅.drop 1) fun opening' rest₇ =>
              .need (block rest₇) fun alternative rest₈ =>
                .done (.conditional token condition ⟨opening, consequence⟩
                  (some ⟨opening', alternative⟩)) rest₈
            else .done (.conditional token condition ⟨opening, consequence⟩ none) rest₅
      | .kwFn =>
          .expect .openParen rest fun _ rest₁ =>
          .need (parameters rest₁) fun names rest₂ =>
          .expect .openBrace rest₂ fun opening rest₃ =>
          .need (block rest₃) fun body rest₄ => .done (.function token names ⟨opening, body⟩) rest₄
      | .openBracket =>
          .need (expressions .square rest) fun elements rest' => .done (.list token elements) rest'
      | .openBrace => .need (pairs rest) fun entries rest' => .done (.map token entries) rest'
      | kind => .failed (.noOperand kind) rest
  | _, continuation _ left [] => .done left []
  | _, continuation minimum left (token :: rest) =>
      if minimum < .ofKind token.kind then
        match BinaryOp.ofKind? token.kind with
        | some op =>
            .need (expression op.precedence rest) fun right rest' =>
            .need (continuation minimum (.binary token op left right) rest') .done
        | none =>
            if token.kind = .openParen then
              .need (expressions .round rest) fun arguments rest' =>
              .need (continuation minimum (.call token left arguments) rest') .done
            else if token.kind = .openBracket then
              .need (expression .lowest rest) fun position rest₁ =>
              .expect .closeBracket rest₁ fun _ rest₂ =>
              .need (continuation minimum (.index token left position) rest₂) .done
            else .done left (token :: rest)
      else .done left (token :: rest)
  | _, expressions bracket tokens =>
      if headKind tokens = bracket.close then .done [] (tokens.drop 1)
      else .need (moreExpressions bracket tokens) .done
  | _, moreExpressions bracket tokens =>
      .need (expression .lowest tokens) fun first rest =>
        if headKind rest = .comma then
          .need (moreExpressions bracket (rest.drop 1)) fun others rest' =>
            .done (first :: others) rest'
        else .expect bracket.close rest fun _ rest' => .done [first] rest'
  | _, pairs tokens =>
      if headKind tokens = .closeBrace then .done [] (tokens.drop 1)
      else
        .need (expression .lowest tokens) fun key rest₁ =>
        .expect .colon rest₁ fun _ rest₂ =>
        .need (expression .lowest rest₂) fun value rest₃ =>
          if headKind rest₃ = .closeBrace then .done [(key, value)] (rest₃.drop 1)
          else
            .expect .comma rest₃ fun _ rest₄ =>
            .need (pairs rest₄) fun others rest₅ => .done ((key, value) :: others) rest₅
  | _, parameters tokens =>
      if headKind tokens = .closeParen then .done [] (tokens.drop 1)
      else
        .expect .ident tokens fun name rest =>
        .need (moreParameters rest) fun names rest' => .done (name :: names) rest'
  | _, moreParameters tokens =>
      if headKind tokens = .comma then
        .expect .ident (tokens.drop 1) fun name rest =>
        .need (moreParameters rest) fun names rest' => .done (name :: names) rest'
      else .expect .closeParen tokens fun _ rest => .done [] rest

/-- What the parser makes of a reading. A program is read to the end of its tokens. -/
def finish : {construct : Construct} → Reading construct → Ending construct.Tree
  | _, program tokens =>
      ⟨some (Parser.statements tokens).1, [], (Parser.statements tokens).2⟩
  | _, block tokens => (Parser.block tokens).ending
  | _, statement token rest => (Parser.statement token rest).ending
  | _, expression minimum tokens => (Parser.expression minimum tokens).ending
  | _, expressionFrom minimum token rest => (Parser.expressionFrom minimum token rest).ending
  | _, operand token rest => (Parser.operand token rest).ending
  | _, continuation minimum left tokens => (Parser.continuation minimum left tokens).ending
  | _, expressions bracket tokens => (Parser.expressions bracket.close tokens).ending
  | _, moreExpressions bracket tokens => (Parser.moreExpressions bracket.close tokens).ending
  | _, pairs tokens => (Parser.pairs tokens).ending
  | _, parameters tokens => (Parser.parameters tokens).ending
  | _, moreParameters tokens => (Parser.moreParameters tokens).ending

end Reading

/-! ## The rules -/

def Ending.behind {α : Type} (errors : List SyntaxError) (ending : Ending α) : Ending α :=
  ⟨ending.tree, ending.rest, errors ++ ending.errors⟩

/-- `plan.Follows ending`: doing what the plan says comes to an end, with `ending`. -/
inductive Plan.Follows : {α : Type} → Plan α → Ending α → Prop where
  | stop {α : Type} {tree : Option α} {errors : List SyntaxError} {rest : List Token} :
      Follows (.stop tree errors rest) ⟨tree, rest, errors⟩
  | start {α : Type} {construct : Construct} {reading : Reading construct}
      {next : Option construct.Tree → List Token → Plan α} {first : Ending construct.Tree}
      {last : Ending α} :
      Follows reading.plan first → Follows (next first.tree first.rest) last →
      Follows (.start reading next) (last.behind first.errors)

def Reading.Ends {construct : Construct} (reading : Reading construct)
    (ending : Ending construct.Tree) : Prop :=
  reading.plan.Follows ending

/-- A plan has one ending, because the readings that it starts have one. -/
theorem Plan.Follows.unique {α : Type} {plan : Plan α} {ending other : Ending α}
    (follows : plan.Follows ending) (follows' : plan.Follows other) : ending = other := by
  induction follows with
  | stop =>
      cases follows'
      rfl
  | start _ _ firstUnique lastUnique =>
      cases follows' with
      | start first' last' =>
          cases firstUnique first'
          cases lastUnique last'
          rfl

/-! ## Plans describe the parser -/

def Plan.result {α : Type} : Plan α → Ending α
  | .stop tree errors rest => ⟨tree, rest, errors⟩
  | .start reading next =>
      (next reading.finish.tree reading.finish.rest).result.behind reading.finish.errors

namespace Parsed

variable {α β : Type} {bound : Nat}

def IsResultOf (parsed : Parsed α bound) (plan : Plan α) : Prop := parsed.ending = plan.result

theorem isResultOf_done {value : α} {rest : List Token} {le : rest.length ≤ bound} :
    (done value rest le).IsResultOf (.done value rest) := rfl

theorem isResultOf_failed {error : SyntaxError} {rest : List Token} {le : rest.length ≤ bound} :
    (failed error rest le : Parsed α bound).IsResultOf (.failed error rest) := rfl

theorem IsResultOf.weaken {parsed : Parsed α bound} {plan : Plan α} {larger : Nat}
    (isResult : parsed.IsResultOf plan) (le : bound ≤ larger) :
    (parsed.weaken le).IsResultOf plan := isResult

variable {construct : Construct} (reading : Reading construct)
  {parsed : Parsed construct.Tree bound}

/-- A construct that is read first is a reading that the plan starts. -/
theorem isResultOf_need
    {next : construct.Tree → (rest : List Token) → rest.length ≤ bound → Parsed β rest.length}
    {plans : construct.Tree → List Token → Plan β} (reads : reading.finish = parsed.ending)
    (following : ∀ value rest le, (next value rest le).IsResultOf (plans value rest)) :
    (parsed.andThen next).IsResultOf (.need reading plans) := by
  unfold IsResultOf Plan.need Plan.result andThen
  rw [reads]
  cases valueCase : parsed.value with
  | none => simp [ending, valueCase, Plan.result, Ending.behind]
  | some value =>
      have follows := following value parsed.rest parsed.rest_le
      unfold IsResultOf at follows
      simp [ending, valueCase, ← follows, Ending.behind]

theorem isResultOf_map {f : construct.Tree → β} (reads : reading.finish = parsed.ending) :
    (parsed.map f).IsResultOf (.need reading fun value rest => .done (f value) rest) := by
  unfold IsResultOf Plan.need Plan.result Parsed.map
  rw [reads]
  cases valueCase : parsed.value with
  | none => simp [ending, valueCase, Plan.result, Ending.behind]
  | some value => simp [ending, valueCase, Plan.done, Plan.result, Ending.behind]

theorem isResultOf_self (reads : reading.finish = parsed.ending) :
    parsed.IsResultOf (.need reading .done) := by
  have unchanged : parsed.map id = parsed := by simp [Parsed.map]
  rw [← unchanged]
  exact isResultOf_map reading reads

theorem isResultOf_expect {kind : TokenKind} {tokens : List Token}
    {next : Token → (rest : List Token) → rest.length ≤ tokens.length → Parsed β rest.length}
    {plans : Token → List Token → Plan β}
    (following : ∀ token rest le, (next token rest le).IsResultOf (plans token rest)) :
    ((Parser.expect kind tokens).andThen next).IsResultOf (.expect kind tokens plans) := by
  cases tokens with
  | nil => rfl
  | cons token rest =>
      rw [Parser.expect, Plan.expect]
      by_cases fits : token.kind = kind
      · rw [if_pos fits, if_pos fits, andThen_done]
        exact following token rest _
      · rw [if_neg fits, if_neg fits]
        rfl

/-- The last token that is required decides nothing but where to go on. -/
theorem isResultOf_expect_map {kind : TokenKind} {tokens : List Token} {f : Token → β} :
    ((Parser.expect kind tokens).map f).IsResultOf
      (.expect kind tokens fun token rest => .done (f token) rest) := by
  cases tokens with
  | nil => rfl
  | cons token rest =>
      rw [Parser.expect, Plan.expect]
      by_cases fits : token.kind = kind
      · rw [if_pos fits, if_pos fits]
        rfl
      · rw [if_neg fits, if_neg fits]
        rfl

end Parsed

namespace Reading

theorem finish_program (tokens : List Token) :
    (program tokens).finish = (program tokens).plan.result := by
  cases tokens with
  | nil =>
      rw [finish, Parser.statements]
      rfl
  | cons token rest =>
      rw [finish, Parser.statements]
      simp [plan, Plan.need, Plan.done, Plan.result, finish, Ending.behind, Parsed.ending]

theorem finish_block (tokens : List Token) :
    (block tokens).finish = (block tokens).plan.result := by
  cases tokens with
  | nil =>
      rw [finish, Parser.block]
      rfl
  | cons token rest =>
      rw [finish, Parser.block, plan]
      by_cases closes : token.kind = .closeBrace
      · rw [if_pos closes, if_pos closes]
        rfl
      · rw [if_neg closes, if_neg closes]
        simp only [Parsed.ending, Parsed.weaken, Parsed.before, Plan.result, Plan.need, finish,
          Ending.behind]
        cases (Parser.block (Parser.statement token rest).rest).value with
        | none => simp [Plan.result]
        | some others => simp [Plan.done, Plan.result]

theorem finish_statement (token : Token) (rest : List Token) :
    (statement token rest).finish = (statement token rest).plan.result := by
  change (Parser.statement token rest).IsResultOf _
  rw [Parser.statement, plan]
  cases kind : token.kind with
  | kwLet =>
      refine Parsed.isResultOf_expect fun name rest₁ _ => ?_
      refine Parsed.isResultOf_expect fun _ rest₂ _ => ?_
      exact Parsed.isResultOf_need (expression .lowest rest₂) rfl fun _ _ _ =>
        Parsed.isResultOf_done
  | kwReturn =>
      exact Parsed.isResultOf_need (expression .lowest rest) rfl fun _ _ _ =>
        Parsed.isResultOf_done
  | _ =>
      exact Parsed.isResultOf_need (expressionFrom .lowest token rest) rfl fun _ _ _ =>
        Parsed.isResultOf_done

theorem finish_operand (token : Token) (rest : List Token) :
    (operand token rest).finish = (operand token rest).plan.result := by
  change (Parser.operand token rest).IsResultOf _
  rw [Parser.operand, plan]
  cases kind : token.kind with
  | ident | str | kwTrue | kwFalse => exact Parsed.isResultOf_done
  | int =>
      dsimp only [Parser.integer]
      split
      · exact Parsed.isResultOf_done
      · exact Parsed.isResultOf_failed
  | bang | minus => exact Parsed.isResultOf_map (expression .unary rest) rfl
  | openParen =>
      exact Parsed.isResultOf_need (expression .lowest rest) rfl fun _ _ _ =>
        Parsed.isResultOf_expect_map
  | kwIf =>
      refine Parsed.isResultOf_expect fun _ rest₁ _ => ?_
      refine Parsed.isResultOf_need (expression .lowest rest₁) rfl fun condition rest₂ _ => ?_
      refine Parsed.isResultOf_expect fun _ rest₃ _ => ?_
      refine Parsed.isResultOf_expect fun opening rest₄ _ => ?_
      refine Parsed.isResultOf_need (block rest₄) rfl fun consequence rest₅ _ => ?_
      cases rest₅ with
      | nil => exact Parsed.isResultOf_done
      | cons following rest₆ =>
          dsimp only
          rw [Parser.headKind]
          by_cases alternative : following.kind = .kwElse
          · rw [if_pos alternative, if_pos alternative]
            refine Parsed.IsResultOf.weaken (Parsed.isResultOf_expect fun _ rest₇ _ => ?_) _
            exact Parsed.isResultOf_map (block rest₇) rfl
          · rw [if_neg alternative, if_neg alternative]
            exact Parsed.isResultOf_done
  | kwFn =>
      refine Parsed.isResultOf_expect fun _ rest₁ _ => ?_
      refine Parsed.isResultOf_need (parameters rest₁) rfl fun names rest₂ _ => ?_
      refine Parsed.isResultOf_expect fun opening rest₃ _ => ?_
      exact Parsed.isResultOf_map (block rest₃) rfl
  | openBracket => exact Parsed.isResultOf_map (expressions .square rest) rfl
  | openBrace => exact Parsed.isResultOf_map (pairs rest) rfl
  | _ => exact Parsed.isResultOf_failed

theorem finish_continuation (minimum : Precedence) (left : Expr) (tokens : List Token) :
    (continuation minimum left tokens).finish =
      (continuation minimum left tokens).plan.result := by
  change (Parser.continuation minimum left tokens).IsResultOf _
  cases tokens with
  | nil =>
      rw [Parser.continuation]
      exact Parsed.isResultOf_done
  | cons token rest =>
      rw [Parser.continuation, plan]
      split
      · cases BinaryOp.ofKind? token.kind with
        | some op =>
            refine .weaken (Parsed.isResultOf_need (expression op.precedence rest) rfl
              fun right rest' _ => ?_) _
            exact Parsed.isResultOf_self
              (continuation minimum (.binary token op left right) rest') rfl
        | none =>
            dsimp only
            split
            · refine .weaken (Parsed.isResultOf_need (expressions .round rest) rfl
                fun arguments rest' _ => ?_) _
              exact Parsed.isResultOf_self
                (continuation minimum (.call token left arguments) rest') rfl
            · split
              · refine .weaken (Parsed.isResultOf_need (expression .lowest rest) rfl
                  fun position rest₁ _ => Parsed.isResultOf_expect fun _ rest₂ _ => ?_) _
                exact Parsed.isResultOf_self
                  (continuation minimum (.index token left position) rest₂) rfl
              · exact Parsed.isResultOf_done
      · exact Parsed.isResultOf_done

theorem finish_moreExpressions (bracket : Bracket) (tokens : List Token) :
    (moreExpressions bracket tokens).finish = (moreExpressions bracket tokens).plan.result := by
  change (Parser.moreExpressions bracket.close tokens).IsResultOf _
  rw [Parser.moreExpressions, plan]
  refine Parsed.isResultOf_need (expression .lowest tokens) rfl fun first rest _ => ?_
  cases rest with
  | nil => exact Parsed.isResultOf_failed
  | cons token rest =>
      dsimp only
      rw [Parser.headKind]
      by_cases goesOn : token.kind = .comma
      · rw [if_pos goesOn, if_pos goesOn]
        exact .weaken (Parsed.isResultOf_map (moreExpressions bracket rest) rfl) _
      · rw [if_neg goesOn, if_neg goesOn, Plan.expect]
        by_cases closes : token.kind = bracket.close
        · rw [if_pos closes, if_pos closes]
          exact Parsed.isResultOf_done
        · rw [if_neg closes, if_neg closes]
          exact Parsed.isResultOf_failed

theorem finish_pairs (tokens : List Token) :
    (pairs tokens).finish = (pairs tokens).plan.result := by
  change (Parser.pairs tokens).IsResultOf _
  rw [Parser.pairs, plan]
  split
  · exact Parsed.isResultOf_done
  · refine Parsed.isResultOf_need (expression .lowest tokens) rfl fun key rest₁ _ => ?_
    cases rest₁ with
    | nil => exact Parsed.isResultOf_failed
    | cons colon rest₂ =>
        rw [Plan.expect]
        dsimp only
        split
        · refine .weaken (Parsed.isResultOf_need (expression .lowest rest₂) rfl
            fun value rest₃ _ => ?_) _
          split
          · exact Parsed.isResultOf_done
          · exact Parsed.isResultOf_expect fun _ rest₄ _ =>
              Parsed.isResultOf_map (pairs rest₄) rfl
        · exact Parsed.isResultOf_failed

theorem finish_moreParameters (tokens : List Token) :
    (moreParameters tokens).finish = (moreParameters tokens).plan.result := by
  change (Parser.moreParameters tokens).IsResultOf _
  rw [Parser.moreParameters.eq_def, plan]
  cases tokens with
  | nil => exact Parsed.isResultOf_failed
  | cons token rest =>
      dsimp only
      rw [Parser.headKind]
      by_cases goesOn : token.kind = .comma
      · rw [if_pos goesOn, if_pos goesOn]
        cases rest with
        | nil => exact Parsed.isResultOf_failed
        | cons name rest =>
            dsimp only
            rw [List.drop_succ_cons, List.drop_zero, Plan.expect]
            by_cases named : name.kind = .ident
            · rw [if_pos named, if_pos named]
              exact .weaken (Parsed.isResultOf_map (moreParameters rest) rfl) _
            · rw [if_neg named, if_neg named]
              exact Parsed.isResultOf_failed
      · rw [if_neg goesOn, if_neg goesOn, Plan.expect]
        by_cases closes : token.kind = .closeParen
        · rw [if_pos closes, if_pos closes]
          exact Parsed.isResultOf_done
        · rw [if_neg closes, if_neg closes]
          exact Parsed.isResultOf_failed

/-- The parser does what the plans say. -/
theorem finish_eq_result {construct : Construct} (reading : Reading construct) :
    reading.finish = reading.plan.result := by
  cases reading with
  | program tokens => exact finish_program tokens
  | block tokens => exact finish_block tokens
  | statement token rest => exact finish_statement token rest
  | expression minimum tokens =>
      change (Parser.expression minimum tokens).IsResultOf _
      cases tokens with
      | nil =>
          rw [Parser.expression]
          exact Parsed.isResultOf_failed
      | cons token rest =>
          rw [Parser.expression]
          exact .weaken (Parsed.isResultOf_self (expressionFrom minimum token rest) rfl) _
  | expressionFrom minimum token rest =>
      change (Parser.expressionFrom minimum token rest).IsResultOf _
      rw [Parser.expressionFrom]
      exact Parsed.isResultOf_need (operand token rest) rfl fun left rest' _ =>
        Parsed.isResultOf_self (continuation minimum left rest') rfl
  | operand token rest => exact finish_operand token rest
  | continuation minimum left tokens => exact finish_continuation minimum left tokens
  | expressions bracket tokens =>
      change (Parser.expressions bracket.close tokens).IsResultOf _
      rw [Parser.expressions, plan]
      split
      · exact Parsed.isResultOf_done
      · exact Parsed.isResultOf_self (moreExpressions bracket tokens) rfl
  | moreExpressions bracket tokens => exact finish_moreExpressions bracket tokens
  | pairs tokens => exact finish_pairs tokens
  | parameters tokens =>
      change (Parser.parameters tokens).IsResultOf _
      rw [Parser.parameters, plan]
      split
      · exact Parsed.isResultOf_done
      · exact Parsed.isResultOf_expect fun name rest _ =>
          Parsed.isResultOf_map (moreParameters rest) rfl
  | moreParameters tokens => exact finish_moreParameters tokens

end Reading

end Script
