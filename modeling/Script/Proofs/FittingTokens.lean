import Mathlib.Data.Nat.Digits.Defs
import Script.Proofs.CodeParts
import Script.Proofs.ParserTermination
import Script.Proofs.SourceCoverage

/-!
# Nodes and faults fit their tokens

A tree says many things twice: the token of a node is what is displayed, its value or operator is
what is evaluated. Both agree at every node of a tree that was parsed, also where the source has
faults and parts of it were dropped.

Every numeral of a source is taken as an operand, whether or not the statement around it comes to
anything: no construct requires a numeral, and a token that is not taken stays for the next
statement. So the numerals that are refused are those that denote too much, each of them once and in
the order of the source.
-/

set_option autoImplicit false

namespace Script

/-! ## Numerals -/

/-- The number that decimal digits denote: each digit counts for its power of ten. -/
def Text.denoted (digits : List Char) : Nat :=
  Nat.ofDigits 10 (digits.reverse.map fun digit => digit.toNat - '0'.toNat)

/-- Reading digits from the left, as the parser does, gives the number that they denote. -/
theorem Parser.digitsValue_eq_denoted (digits : List Char) :
    digitsValue digits = Text.denoted digits := by
  induction digits using List.reverseRecOn with
  | nil => rfl
  | append_singleton digits digit ih =>
      simp only [digitsValue, Text.denoted, List.foldl_append, List.foldl_cons, List.foldl_nil,
        List.reverse_append, List.reverse_cons, List.reverse_nil, List.nil_append,
        List.singleton_append, List.map_cons, Nat.ofDigits_cons] at ih ⊢
      omega

theorem Parser.maxInteger_eq : maxInteger = 2 ^ 63 - 1 := by decide

/-! ## Numerals that are refused -/

/-- The texts of the numerals that denote more than the largest integer, in order. -/
def Token.overlarge (tokens : List Token) : List String :=
  (tokens.filter fun token =>
    token.kind = .int ∧ 2 ^ 63 - 1 < Text.denoted token.text.toList).map Token.text

def SyntaxError.refused (errors : List SyntaxError) : List String :=
  errors.filterMap fun
    | .integerTooLarge digits => some digits
    | _ => none

open Token (overlarge)
open SyntaxError (refused)

@[simp]
theorem SyntaxError.refused_append (first second : List SyntaxError) :
    refused (first ++ second) = refused first ++ refused second :=
  List.filterMap_append

private theorem Token.overlarge_cons_of_ne {token : Token} (other : token.kind ≠ .int)
    (rest : List Token) : overlarge (token :: rest) = overlarge rest := by
  simp [overlarge, other]

private theorem Token.overlarge_cons_of_le {token : Token}
    (small : Text.denoted token.text.toList ≤ 2 ^ 63 - 1) (rest : List Token) :
    overlarge (token :: rest) = overlarge rest := by
  have notOver : ¬ (token.kind = .int ∧ 2 ^ 63 - 1 < Text.denoted token.text.toList) :=
    fun exceeds => absurd exceeds.2 (Nat.not_lt.mpr small)
  simp only [overlarge, List.filter_cons, decide_eq_true_eq, if_neg notOver]

private theorem Token.overlarge_cons_of_lt {token : Token} (kind : token.kind = .int)
    (large : 2 ^ 63 - 1 < Text.denoted token.text.toList) (rest : List Token) :
    overlarge (token :: rest) = token.text :: overlarge rest := by
  have exceeds : token.kind = .int ∧ 2 ^ 63 - 1 < Text.denoted token.text.toList := ⟨kind, large⟩
  simp only [overlarge, List.filter_cons, decide_eq_true_eq, if_pos exceeds, List.map_cons]

private theorem Token.overlarge_drop {tokens : List Token} {kind : TokenKind}
    (heads : Parser.headKind tokens = kind) (other : kind ≠ .int) :
    overlarge tokens = overlarge (tokens.drop 1) := by
  cases tokens with
  | nil => rfl
  | cons token rest =>
      subst heads
      exact overlarge_cons_of_ne other rest

private theorem Token.overlarge_skipSemicolon (tokens : List Token) :
    overlarge tokens = overlarge (Parser.skipSemicolon tokens) := by
  cases tokens with
  | nil => rfl
  | cons token rest =>
      simp only [Parser.skipSemicolon]
      split
      · next semicolon => exact overlarge_cons_of_ne (by simp [semicolon]) rest
      · rfl

namespace Plan

variable {α : Type} {current : List Token}

/-- `plan.Tallies current`: what the plan reports of the numerals in `current`, and what it leaves
of them, are the overlarge ones. -/
def Tallies : Plan α → List Token → Prop
  | .stop _ errors rest, current => overlarge current = refused errors ++ overlarge rest
  | .start reading next, current =>
      overlarge current = overlarge reading.ahead ∧ ∀ tree rest, (next tree rest).Tallies rest

private theorem Tallies.of_eq {plan : Plan α} {rest : List Token} (tallies : plan.Tallies rest)
    (same : overlarge current = overlarge rest) : plan.Tallies current := by
  cases plan with
  | stop => exact same.trans tallies
  | start => exact ⟨same.trans tallies.1, tallies.2⟩

theorem tallies_done {tree : α} {rest : List Token} (same : overlarge current = overlarge rest) :
    (done tree rest).Tallies current := same

theorem tallies_failed {error : SyntaxError} {rest : List Token} (other : refused [error] = [])
    (same : overlarge current = overlarge rest) : (failed error rest : Plan α).Tallies current := by
  simp [failed, Tallies, other, same]

/-- The reading reports its own numerals, and what goes on after it those that are left. -/
theorem tallies_need {construct : Construct} {reading : Reading construct}
    {next : construct.Tree → List Token → Plan α}
    (same : overlarge current = overlarge reading.ahead)
    (following : ∀ tree rest, (next tree rest).Tallies rest) :
    (need reading next).Tallies current := by
  constructor
  · exact same
  · intro tree rest
    cases tree with
    | none => rfl
    | some tree => exact following tree rest

theorem tallies_last {construct : Construct} {reading : Reading construct}
    {tree : construct.Tree → α} (same : overlarge current = overlarge reading.ahead) :
    (need reading fun last rest => done (tree last) rest).Tallies current :=
  tallies_need same fun _ _ => tallies_done rfl

theorem tallies_expect {kind : TokenKind} {tokens : List Token}
    {next : Token → List Token → Plan α} (other : kind ≠ .int)
    (same : overlarge current = overlarge tokens)
    (following : ∀ token rest, (next token rest).Tallies rest) :
    (expect kind tokens next).Tallies current := by
  cases tokens with
  | nil => exact tallies_failed rfl same
  | cons token rest =>
      simp only [expect]
      split
      · next fits =>
        have skipped := Token.overlarge_cons_of_ne (fits ▸ other) rest
        exact (following token rest).of_eq (same.trans skipped)
      · exact tallies_failed rfl same

end Plan

namespace Reading

private theorem statement_tallies (token : Token) (rest : List Token) :
    (statement token rest).plan.Tallies (token :: rest) := by
  simp only [plan]
  split
  · next kind =>
    apply Plan.tallies_expect (by decide) (Token.overlarge_cons_of_ne (by simp [kind]) rest)
    intro name rest₁
    apply Plan.tallies_expect (by decide) rfl
    intro equals rest₂
    exact Plan.tallies_need rfl fun _ rest₃ =>
      Plan.tallies_done (Token.overlarge_skipSemicolon rest₃)
  · next kind =>
    exact Plan.tallies_need (Token.overlarge_cons_of_ne (by simp [kind]) rest) fun _ rest' =>
      Plan.tallies_done (Token.overlarge_skipSemicolon rest')
  · exact Plan.tallies_need rfl fun _ rest' =>
      Plan.tallies_done (Token.overlarge_skipSemicolon rest')

private theorem numeral_tallies {token : Token} (rest : List Token) (kind : token.kind = .int) :
    (operand token rest).plan.Tallies (token :: rest) := by
  simp only [plan, kind, Parser.digitsValue_eq_denoted, Parser.maxInteger_eq]
  split
  · next small => exact Plan.tallies_done (Token.overlarge_cons_of_le small rest)
  · next large => exact Token.overlarge_cons_of_lt kind (Nat.not_le.mp large) rest

private theorem operand_tallies (token : Token) (rest : List Token) :
    (operand token rest).plan.Tallies (token :: rest) := by
  by_cases isInt : token.kind = .int
  · exact numeral_tallies rest isInt
  have skipped := Token.overlarge_cons_of_ne isInt rest
  simp only [plan]
  cases kind : token.kind with
  | int => exact absurd kind isInt
  | ident | str | kwTrue | kwFalse => exact Plan.tallies_done skipped
  | bang | minus | openBracket | openBrace => exact Plan.tallies_last skipped
  | openParen =>
      apply Plan.tallies_need skipped
      intro inner rest'
      exact Plan.tallies_expect (by decide) rfl fun _ _ => Plan.tallies_done rfl
  | kwIf =>
      apply Plan.tallies_expect (by decide) skipped
      intro opening rest₁
      apply Plan.tallies_need rfl
      intro condition rest₂
      apply Plan.tallies_expect (by decide) rfl
      intro closing rest₃
      apply Plan.tallies_expect (by decide) rfl
      intro brace rest₄
      apply Plan.tallies_need rfl
      intro consequence rest₅
      split
      · next isElse =>
        apply Plan.tallies_expect (by decide) (Token.overlarge_drop isElse (by decide))
        intro brace' rest₆
        exact Plan.tallies_last rfl
      · exact Plan.tallies_done rfl
  | kwFn =>
      apply Plan.tallies_expect (by decide) skipped
      intro opening rest₁
      apply Plan.tallies_need rfl
      intro names rest₂
      apply Plan.tallies_expect (by decide) rfl
      intro brace rest₃
      exact Plan.tallies_last rfl
  | _ => exact Plan.tallies_failed rfl skipped

private theorem continuation_tallies (minimum : Precedence) (left : Expr) (tokens : List Token) :
    (continuation minimum left tokens).plan.Tallies tokens := by
  cases tokens with
  | nil => exact Plan.tallies_done rfl
  | cons token rest =>
      simp only [plan]
      split
      · cases isOp : BinaryOp.ofKind? token.kind with
        | some op =>
            have other : token.kind ≠ .int := by
              rw [BinaryOp.ofKind?_eq_some_iff.mp isOp]
              cases op <;> decide
            apply Plan.tallies_need (Token.overlarge_cons_of_ne other rest)
            intro right rest'
            exact Plan.tallies_last rfl
        | none =>
            dsimp only
            split
            · next kind =>
              apply Plan.tallies_need (Token.overlarge_cons_of_ne (by simp [kind]) rest)
              intro arguments rest'
              exact Plan.tallies_last rfl
            · split
              · next kind =>
                apply Plan.tallies_need (Token.overlarge_cons_of_ne (by simp [kind]) rest)
                intro position rest₁
                apply Plan.tallies_expect (by decide) rfl
                intro closing rest₂
                exact Plan.tallies_last rfl
              · exact Plan.tallies_done rfl
      · exact Plan.tallies_done rfl

private theorem pairs_tallies (tokens : List Token) : (pairs tokens).plan.Tallies tokens := by
  simp only [plan]
  split
  · next closes => exact Plan.tallies_done (Token.overlarge_drop closes (by decide))
  · apply Plan.tallies_need rfl
    intro key rest₁
    apply Plan.tallies_expect (by decide) rfl
    intro colon rest₂
    apply Plan.tallies_need rfl
    intro value rest₃
    split
    · next closes => exact Plan.tallies_done (Token.overlarge_drop closes (by decide))
    · apply Plan.tallies_expect (by decide) rfl
      intro comma rest₄
      exact Plan.tallies_last rfl

/-- A numeral is taken as an operand only, and reported there if it denotes too much. -/
theorem plan_tallies {construct : Construct} (reading : Reading construct) :
    reading.plan.Tallies reading.ahead := by
  cases reading with
  | program tokens =>
      cases tokens with
      | nil => exact Plan.tallies_done rfl
      | cons token rest => exact ⟨rfl, fun _ _ => Plan.tallies_last rfl⟩
  | block tokens =>
      cases tokens with
      | nil => rfl
      | cons token rest =>
          simp only [plan]
          split
          · next closes =>
            exact Plan.tallies_done (Token.overlarge_cons_of_ne (by simp [closes]) rest)
          · exact ⟨rfl, fun _ _ => Plan.tallies_last rfl⟩
  | statement token rest => exact statement_tallies token rest
  | expression minimum tokens =>
      cases tokens with
      | nil => exact Plan.tallies_failed rfl rfl
      | cons token rest => exact Plan.tallies_last rfl
  | expressionFrom minimum token rest =>
      exact Plan.tallies_need rfl fun _ _ => Plan.tallies_last rfl
  | operand token rest => exact operand_tallies token rest
  | continuation minimum left tokens => exact continuation_tallies minimum left tokens
  | expressions bracket tokens =>
      simp only [plan]
      split
      · next closes =>
        exact Plan.tallies_done (Token.overlarge_drop closes (by cases bracket <;> decide))
      · exact Plan.tallies_last rfl
  | moreExpressions bracket tokens =>
      apply Plan.tallies_need rfl
      intro first rest
      split
      · next comma => exact Plan.tallies_last (Token.overlarge_drop comma (by decide))
      · exact Plan.tallies_expect (by cases bracket <;> decide) rfl fun _ _ =>
          Plan.tallies_done rfl
  | pairs tokens => exact pairs_tallies tokens
  | parameters tokens =>
      simp only [plan]
      split
      · next closes => exact Plan.tallies_done (Token.overlarge_drop closes (by decide))
      · exact Plan.tallies_expect (by decide) rfl fun _ _ => Plan.tallies_last rfl
  | moreParameters tokens =>
      simp only [plan]
      split
      · next comma =>
        exact Plan.tallies_expect (by decide) (Token.overlarge_drop comma (by decide)) fun _ _ =>
          Plan.tallies_last rfl
      · exact Plan.tallies_expect (by decide) rfl fun _ _ => Plan.tallies_done rfl

end Reading

private theorem Plan.Follows.tally {α : Type} {plan : Plan α} {ending : Ending α}
    (follows : plan.Follows ending) {current : List Token} (tallies : plan.Tallies current) :
    overlarge current = refused ending.errors ++ overlarge ending.rest := by
  induction follows generalizing current with
  | stop => exact tallies
  | @start _ _ reading next first last _ _ firstTally lastTally =>
      obtain ⟨same, following⟩ := tallies
      rw [same, firstTally reading.plan_tallies, lastTally (following _ _)]
      simp [Ending.behind]

private theorem Program.refused_parse (source : String) :
    refused (parse source).2 = overlarge (Lexer.tokens source.toList) := by
  let whole : Reading .program := .program (Lexer.tokens source.toList)
  have tally := Plan.Follows.tally whole.ends_finish whole.plan_tallies
  simp only [whole, Reading.finish, Reading.ahead] at tally
  rw [tally]
  simp [overlarge, parse]

/-! ## Nodes -/

def Token.IsName (token : Token) : Prop :=
  token.kind = .ident ∧ token.text.toList ≠ [] ∧
    (∀ c ∈ token.text.toList, c.isAlpha = true ∨ c = '_') ∧ TokenKind.keyword? token.text = none

/-- A numeral for the value: digits, of which there may be more than are needed. -/
def Token.IsNumeral (token : Token) (value : Int64) : Prop :=
  token.kind = .int ∧ token.text.toList ≠ [] ∧ (∀ c ∈ token.text.toList, c.isDigit = true) ∧
    value.toInt = Text.denoted token.text.toList ∧ Text.denoted token.text.toList ≤ 2 ^ 63 - 1

/-- The token of a node is one that introduces such a node, and what the node says besides is what
its token says. -/
def Code.Fits : Code → Prop
  | .expr (.ident token) => token.IsName
  | .expr (.int token value) => token.IsNumeral value
  | .expr (.bool token value) =>
      token = ⟨if value then .kwTrue else .kwFalse, if value then "true" else "false"⟩
  | .expr (.str token) => token.kind = .str ∧ '"' ∉ token.text.toList
  | .expr (.unary token op _) => UnaryOp.ofKind? token.kind = some op ∧ op.symbol = token.text
  | .expr (.binary token op _ _) => BinaryOp.ofKind? token.kind = some op ∧ op.symbol = token.text
  | .expr (.conditional token _ _ _) => token = ⟨.kwIf, "if"⟩
  | .expr (.function token parameters _) =>
      token = ⟨.kwFn, "fn"⟩ ∧ ∀ name ∈ parameters, name.IsName
  | .expr (.call token _ _) => token = ⟨.openParen, "("⟩
  | .expr (.list token _) => token = ⟨.openBracket, "["⟩
  | .expr (.map token _) => token = ⟨.openBrace, "\x7b"⟩
  | .expr (.index token _ _) => token = ⟨.openBracket, "["⟩
  | .block ⟨token, _⟩ => token = ⟨.openBrace, "\x7b"⟩
  | .stmt (.bind token name _) => token = ⟨.kwLet, "let"⟩ ∧ name.IsName
  | .stmt (.ret token _) => token = ⟨.kwReturn, "return"⟩
  | .stmt (.expr _ _) => True

private theorem Lexer.isNameChar_iff {c : Char} :
    isNameChar c = true ↔ c.isAlpha = true ∨ c = '_' := by
  delta Char.isAlpha Char.isUpper Char.isLower
  simp [isNameChar, Char.le_def, or_comm]

private theorem Lexer.isDigit_iff {c : Char} : isDigit c = true ↔ c.isDigit = true := by
  simp [isDigit, Char.isDigit, Char.le_def]

private theorem Token.Is.isName {token : Token} (is : token.Is .ident) : token.IsName := by
  obtain ⟨kind, spelled⟩ := is
  have describes := spelled.describes (by simp [kind])
  rw [kind] at describes
  cases describes with
  | spelled spelling => cases spelling
  | name nonempty named unspelled =>
      refine ⟨kind, nonempty, fun c member => Lexer.isNameChar_iff.mp (named c member), ?_⟩
      cases reserved : TokenKind.keyword? token.text with
      | none => rfl
      | some keyword => exact absurd (TokenKind.spelling_of_keyword reserved).2 (unspelled keyword)

private theorem Token.Is.isNumeral {token : Token} (is : token.Is .int)
    (small : Parser.digitsValue token.text.toList ≤ Parser.maxInteger) :
    token.IsNumeral (Int64.ofNat (Parser.digitsValue token.text.toList)) := by
  obtain ⟨kind, spelled⟩ := is
  have describes := spelled.describes (by simp [kind])
  rw [kind] at describes
  rw [Parser.digitsValue_eq_denoted, Parser.maxInteger_eq] at small
  rw [Parser.digitsValue_eq_denoted]
  cases describes with
  | spelled spelling => cases spelling
  | number nonempty digits =>
      refine ⟨kind, nonempty, fun c member => Lexer.isDigit_iff.mp (digits c member), ?_, small⟩
      exact Int64.toInt_ofNat_of_lt (Nat.lt_of_le_of_lt small (by decide))

private theorem Code.Coherent.fits {code : Code} (coherent : code.Coherent) : code.Fits := by
  cases code with
  | expr expr =>
      cases expr with
      | ident token => exact Token.Is.isName coherent
      | int token value =>
          obtain ⟨is, small, rfl⟩ := coherent
          exact is.isNumeral small
      | bool token value => cases value <;> exact Token.Is.eq_of_spelling coherent rfl
      | str token => exact ⟨coherent.1, coherent.2.quoteless coherent.1⟩
      | unary token op operand =>
          have spelled : token = ⟨op.kind, op.symbol⟩ :=
            coherent.1.eq_of_spelling (by cases op <;> rfl)
          subst spelled
          exact ⟨UnaryOp.ofKind?_eq_some_iff.mpr rfl, rfl⟩
      | binary token op left right =>
          have spelled : token = ⟨op.kind, op.symbol⟩ :=
            coherent.1.eq_of_spelling (by cases op <;> rfl)
          subst spelled
          exact ⟨BinaryOp.ofKind?_eq_some_iff.mpr rfl, rfl⟩
      | conditional token condition consequence alternative =>
          cases alternative <;> exact coherent.1.eq_of_spelling rfl
      | function token parameters body =>
          exact ⟨coherent.1.eq_of_spelling rfl,
            fun name member => (coherent.2.1 name member).isName⟩
      | call | list | map | index => exact coherent.1.eq_of_spelling rfl
  | block block =>
      obtain ⟨token, statements⟩ := block
      exact coherent.1.eq_of_spelling rfl
  | stmt stmt =>
      cases stmt with
      | bind token name value => exact ⟨coherent.1.eq_of_spelling rfl, coherent.2.1.isName⟩
      | ret token value => exact coherent.1.eq_of_spelling rfl
      | expr token expression => trivial

/-- Every node of a program that was parsed fits its token, whether or not the source has faults,
and exactly the numerals that denote more than the largest integer are refused. -/
theorem Program.parse_fits (source : String) :
    (∀ code, (parse source).1.Contains code → code.Fits) ∧
      refused (parse source).2 = overlarge (Lexer.tokens source.toList) := by
  constructor
  · intro code contains
    exact (Program.coherent_of_contains contains).fits
  · exact refused_parse source

end Script
