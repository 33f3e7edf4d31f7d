import Script.Syntax.Parser
import Script.Proofs.TokenSpelling

/-!
# Trees that fit their tokens

A tree is coherent when each node carries a token of the class that introduces it, spelled as that
class demands, and when the values of its literals are those of their tokens. Parsing builds only
coherent trees, also from a source with faults.
-/

set_option autoImplicit false

namespace Script

mutual

def Expr.Coherent : Expr → Prop
  | .ident token => token.Is .ident
  | .int token value =>
      token.Is .int ∧ Parser.digitsValue token.text.toList ≤ Parser.maxInteger ∧
        value = Int64.ofNat (Parser.digitsValue token.text.toList)
  | .bool token true => token.Is .kwTrue
  | .bool token false => token.Is .kwFalse
  | .str token => token.Is .str
  | .unary token op operand => token.Is op.kind ∧ operand.Coherent
  | .binary token op left right => token.Is op.kind ∧ left.Coherent ∧ right.Coherent
  | .conditional token condition consequence none =>
      token.Is .kwIf ∧ condition.Coherent ∧ consequence.Coherent
  | .conditional token condition consequence (some alternative) =>
      token.Is .kwIf ∧ condition.Coherent ∧ consequence.Coherent ∧ alternative.Coherent
  | .function token parameters body =>
      token.Is .kwFn ∧ (∀ name ∈ parameters, name.Is .ident) ∧ body.Coherent
  | .call token callee arguments =>
      token.Is .openParen ∧ callee.Coherent ∧ Expr.CoherentAll arguments
  | .list token elements => token.Is .openBracket ∧ Expr.CoherentAll elements
  | .map token pairs => token.Is .openBrace ∧ Expr.CoherentPairs pairs
  | .index token collection position =>
      token.Is .openBracket ∧ collection.Coherent ∧ position.Coherent

def Expr.CoherentAll : List Expr → Prop
  | [] => True
  | expr :: rest => expr.Coherent ∧ Expr.CoherentAll rest

def Expr.CoherentPairs : List (Expr × Expr) → Prop
  | [] => True
  | (key, value) :: rest => key.Coherent ∧ value.Coherent ∧ Expr.CoherentPairs rest

def Block.Coherent : Block → Prop
  | ⟨token, statements⟩ => token.Is .openBrace ∧ Stmt.CoherentAll statements

def Stmt.CoherentAll : List Stmt → Prop
  | [] => True
  | stmt :: rest => stmt.Coherent ∧ Stmt.CoherentAll rest

def Stmt.Coherent : Stmt → Prop
  | .bind token name value => token.Is .kwLet ∧ name.Is .ident ∧ value.Coherent
  | .ret token value => token.Is .kwReturn ∧ value.Coherent
  | .expr _ expression => expression.Coherent

end

/-! ## Parsing well-spelled tokens -/

def Token.AllSpelled (tokens : List Token) : Prop := ∀ token ∈ tokens, token.WellSpelled

theorem Token.AllSpelled.tail {token : Token} {rest : List Token}
    (spelled : AllSpelled (token :: rest)) : AllSpelled rest :=
  fun other member => spelled other (List.mem_cons_of_mem token member)

theorem Token.AllSpelled.head {token : Token} {rest : List Token} {kind : TokenKind}
    (spelled : AllSpelled (token :: rest)) (is : token.kind = kind) : token.Is kind :=
  ⟨is, spelled token List.mem_cons_self⟩

theorem Token.AllSpelled.drop {tokens : List Token} (spelled : AllSpelled tokens) (count : Nat) :
    AllSpelled (tokens.drop count) :=
  fun token member => spelled token (List.mem_of_mem_drop member)

namespace Parsed

variable {α β : Type} {bound : Nat}

structure Yields (parsed : Parsed α bound) (holds : α → Prop) : Prop where
  value : ∀ value, parsed.value = some value → holds value
  rest : Token.AllSpelled parsed.rest

theorem yields_done {value : α} {rest : List Token} {le : rest.length ≤ bound}
    {holds : α → Prop} (spelled : Token.AllSpelled rest) (held : holds value) :
    (done value rest le).Yields holds := by
  refine ⟨?_, spelled⟩
  rintro _ ⟨⟩
  exact held

theorem yields_failed {error : SyntaxError} {rest : List Token} {le : rest.length ≤ bound}
    {holds : α → Prop} (spelled : Token.AllSpelled rest) :
    (failed error rest le : Parsed α bound).Yields holds := by
  refine ⟨?_, spelled⟩
  rintro _ ⟨⟩

theorem Yields.weaken {parsed : Parsed α bound} {holds : α → Prop} {larger : Nat}
    (yields : parsed.Yields holds) (le : bound ≤ larger) : (parsed.weaken le).Yields holds :=
  ⟨yields.value, yields.rest⟩

theorem Yields.map {parsed : Parsed α bound} {holds : α → Prop} {holds' : β → Prop} {f : α → β}
    (yields : parsed.Yields holds) (step : ∀ value, holds value → holds' (f value)) :
    (parsed.map f).Yields holds' := by
  refine ⟨fun result resultIs => ?_, yields.rest⟩
  obtain ⟨value, valueIs, rfl⟩ := Option.map_eq_some_iff.mp resultIs
  exact step value (yields.value value valueIs)

/-- What is read next starts with tokens that are well spelled, since those are what the first
construct left. -/
theorem Yields.andThen {parsed : Parsed α bound} {holds : α → Prop} {holds' : β → Prop}
    {next : α → (rest : List Token) → rest.length ≤ bound → Parsed β rest.length}
    (first : parsed.Yields holds)
    (second : ∀ value rest le, holds value → Token.AllSpelled rest →
      (next value rest le).Yields holds') :
    (parsed.andThen next).Yields holds' := by
  unfold Parsed.andThen
  cases valueCase : parsed.value with
  | none =>
      refine ⟨?_, first.rest⟩
      rintro _ ⟨⟩
  | some value =>
      have following := second value parsed.rest parsed.rest_le (first.value value valueCase)
        first.rest
      exact ⟨following.value, following.rest⟩

/-- A malformed statement leaves the other statements of its sequence as they are. -/
theorem Yields.before {first : Parsed α bound} {holds : α → Prop}
    {others : (rest : List Token) → rest.length ≤ bound → Parsed (List α) rest.length}
    {holdsAll : List α → Prop} (yields : first.Yields holds)
    (following : ∀ rest le, Token.AllSpelled rest → (others rest le).Yields holdsAll)
    (cons : ∀ value values, holds value → holdsAll values → holdsAll (value :: values)) :
    (first.before others).Yields holdsAll := by
  have later := following first.rest first.rest_le yields.rest
  refine ⟨fun result resultIs => ?_, later.rest⟩
  obtain ⟨values, valuesAre, rfl⟩ := Option.map_eq_some_iff.mp resultIs
  have laterHolds := later.value values valuesAre
  cases firstCase : first.value with
  | none => exact laterHolds
  | some value => exact cons value values (yields.value value firstCase) laterHolds

end Parsed

namespace Parser

theorem expect_yields (kind : TokenKind) {tokens : List Token}
    (spelled : Token.AllSpelled tokens) :
    (expect kind tokens).Yields fun token => token.Is kind := by
  cases tokens with
  | nil => exact Parsed.yields_failed spelled
  | cons token rest =>
      rw [expect]
      split
      · next fits => exact Parsed.yields_done spelled.tail (spelled.head fits)
      · exact Parsed.yields_failed spelled

private theorem skipSemicolon_allSpelled {tokens : List Token} (spelled : Token.AllSpelled tokens) :
    Token.AllSpelled (skipSemicolon tokens) := by
  cases tokens with
  | nil => exact spelled
  | cons token rest =>
      rw [skipSemicolon]
      split
      · exact spelled.tail
      · exact spelled

private theorem endStatement_yields {stmt : Stmt} {tokens : List Token}
    (spelled : Token.AllSpelled tokens) (coherent : stmt.Coherent) :
    (endStatement stmt tokens).Yields Stmt.Coherent :=
  Parsed.yields_done (skipSemicolon_allSpelled spelled) coherent

private theorem moreParameters_yields (tokens : List Token) (spelled : Token.AllSpelled tokens) :
    (moreParameters tokens).Yields fun names => ∀ name ∈ names, name.Is .ident := by
  fun_induction moreParameters tokens with
  | case1 => exact Parsed.yields_failed spelled
  | case2 => exact Parsed.yields_failed spelled.tail
  | case3 comma commaKind name rest nameKind ih =>
      have nameIs := spelled.tail.head nameKind
      refine ((ih spelled.tail.tail).map ?_).weaken _
      exact fun names later => List.forall_mem_cons.mpr ⟨nameIs, later⟩
  | case4 => exact Parsed.yields_failed spelled.tail
  | case5 => exact Parsed.yields_done spelled.tail (fun _ member => absurd member List.not_mem_nil)
  | case6 => exact Parsed.yields_failed spelled

private theorem parameters_yields {tokens : List Token} (spelled : Token.AllSpelled tokens) :
    (parameters tokens).Yields fun names => ∀ name ∈ names, name.Is .ident := by
  rw [parameters]
  split
  · exact Parsed.yields_done (spelled.drop 1) (fun _ member => absurd member List.not_mem_nil)
  · refine (expect_yields .ident spelled).andThen fun name rest _ nameIs spelledRest => ?_
    refine (moreParameters_yields rest spelledRest).map ?_
    exact fun names later => List.forall_mem_cons.mpr ⟨nameIs, later⟩

mutual

/-- The parser makes coherent trees from tokens that are well spelled. The proof recurses as the
parser does. -/
theorem expression_yields (minimum : Precedence) (tokens : List Token)
    (spelled : Token.AllSpelled tokens) : (expression minimum tokens).Yields Expr.Coherent :=
  match tokens, spelled with
  | [], spelled => by
      rw [expression]
      exact Parsed.yields_failed spelled
  | token :: rest, spelled => by
      rw [expression]
      exact (expressionFrom_yields minimum token rest spelled).weaken _
termination_by (tokens.length, 2)

theorem expressionFrom_yields (minimum : Precedence) (token : Token) (rest : List Token)
    (spelled : Token.AllSpelled (token :: rest)) :
    (expressionFrom minimum token rest).Yields Expr.Coherent := by
  rw [expressionFrom]
  refine (operand_yields token rest spelled).andThen fun left rest' _ coherent spelled' => ?_
  exact continuation_yields minimum left rest' coherent spelled'
termination_by (rest.length + 1, 1)

theorem operand_yields (token : Token) (rest : List Token)
    (spelled : Token.AllSpelled (token :: rest)) : (operand token rest).Yields Expr.Coherent := by
  rw [operand]
  split
  case h_1 kind | h_3 kind | h_4 kind | h_5 kind =>
      exact Parsed.yields_done spelled.tail (spelled.head kind)
  case h_2 kind =>
      rw [integer]
      split
      · next inRange => exact Parsed.yields_done spelled.tail ⟨spelled.head kind, inRange, rfl⟩
      · exact Parsed.yields_failed spelled.tail
  case h_6 kind | h_7 kind =>
      refine (expression_yields .unary rest spelled.tail).map fun inner coherent => ?_
      exact ⟨spelled.head kind, coherent⟩
  case h_8 =>
      refine (expression_yields .lowest rest spelled.tail).andThen ?_
      intro inner rest' _ coherent spelled'
      exact (expect_yields .closeParen spelled').map fun _ _ => coherent
  case h_9 kind =>
      refine (expect_yields .openParen spelled.tail).andThen fun _ rest₁ _ _ spelled₁ => ?_
      refine (expression_yields .lowest rest₁ spelled₁).andThen ?_
      intro condition rest₂ _ conditionCoherent spelled₂
      refine (expect_yields .closeParen spelled₂).andThen fun _ rest₃ _ _ spelled₃ => ?_
      refine (expect_yields .openBrace spelled₃).andThen fun brace rest₄ _ braceIs spelled₄ => ?_
      refine (block_yields rest₄ spelled₄).andThen fun body rest₅ _ bodyCoherent spelled₅ => ?_
      have plain : (Expr.conditional token condition ⟨brace, body⟩ none).Coherent :=
        ⟨spelled.head kind, conditionCoherent, braceIs, bodyCoherent⟩
      cases rest₅ with
      | nil => exact Parsed.yields_done spelled₅ plain
      | cons following rest₆ =>
          dsimp only
          split
          · refine ((expect_yields .openBrace spelled₅.tail).andThen ?_).weaken _
            intro brace' rest₇ _ braceIs' spelled₇
            refine (block_yields rest₇ spelled₇).map fun body' bodyCoherent' => ?_
            exact ⟨spelled.head kind, conditionCoherent, ⟨braceIs, bodyCoherent⟩, braceIs',
              bodyCoherent'⟩
          · exact Parsed.yields_done spelled₅ plain
  case h_10 kind =>
      refine (expect_yields .openParen spelled.tail).andThen fun _ rest₁ _ _ spelled₁ => ?_
      refine (parameters_yields spelled₁).andThen fun names rest₂ _ namesAre spelled₂ => ?_
      refine (expect_yields .openBrace spelled₂).andThen fun brace rest₃ _ braceIs spelled₃ => ?_
      refine (block_yields rest₃ spelled₃).map fun body bodyCoherent => ?_
      exact ⟨spelled.head kind, namesAre, braceIs, bodyCoherent⟩
  case h_11 kind =>
      refine (expressions_yields .closeBracket rest spelled.tail).map fun elements coherent => ?_
      exact ⟨spelled.head kind, coherent⟩
  case h_12 kind =>
      refine (pairs_yields rest spelled.tail).map fun entries coherent => ?_
      exact ⟨spelled.head kind, coherent⟩
  case h_13 => exact Parsed.yields_failed spelled.tail
termination_by (rest.length + 1, 0)
decreasing_by
  all_goals try simp only [List.length_cons] at *
  all_goals exact Prod.Lex.left _ _ (by omega)

theorem continuation_yields (minimum : Precedence) (left : Expr) (tokens : List Token)
    (coherent : left.Coherent) (spelled : Token.AllSpelled tokens) :
    (continuation minimum left tokens).Yields Expr.Coherent :=
  match tokens, spelled with
  | [], spelled => by
      rw [continuation]
      exact Parsed.yields_done spelled coherent
  | token :: rest, spelled => by
      rw [continuation]
      split
      · split
        · next op opIs =>
          have tokenIs := spelled.head (BinaryOp.ofKind?_eq_some_iff.mp opIs)
          refine ((expression_yields op.precedence rest spelled.tail).andThen ?_).weaken _
          intro right rest' _ rightCoherent spelled'
          exact continuation_yields minimum (.binary token op left right) rest'
            ⟨tokenIs, coherent, rightCoherent⟩ spelled'
        · split
          · next kind =>
            refine ((expressions_yields .closeParen rest spelled.tail).andThen ?_).weaken _
            intro arguments rest' _ argumentsCoherent spelled'
            exact continuation_yields minimum (.call token left arguments) rest'
              ⟨spelled.head kind, coherent, argumentsCoherent⟩ spelled'
          · split
            · next kind =>
              refine ((expression_yields .lowest rest spelled.tail).andThen ?_).weaken _
              intro position rest₁ _ positionCoherent spelled₁
              refine (expect_yields .closeBracket spelled₁).andThen fun _ rest₂ _ _ spelled₂ => ?_
              exact continuation_yields minimum (.index token left position) rest₂
                ⟨spelled.head kind, coherent, positionCoherent⟩ spelled₂
            · exact Parsed.yields_done spelled coherent
      · exact Parsed.yields_done spelled coherent
termination_by (tokens.length, 0)

theorem expressions_yields (close : TokenKind) (tokens : List Token)
    (spelled : Token.AllSpelled tokens) :
    (expressions close tokens).Yields Expr.CoherentAll := by
  rw [expressions]
  split
  · exact Parsed.yields_done (spelled.drop 1) trivial
  · exact moreExpressions_yields close tokens spelled
termination_by (tokens.length, 4)

theorem moreExpressions_yields (close : TokenKind) (tokens : List Token)
    (spelled : Token.AllSpelled tokens) :
    (moreExpressions close tokens).Yields Expr.CoherentAll := by
  rw [moreExpressions]
  refine (expression_yields .lowest tokens spelled).andThen fun first rest _ coherent spelled' => ?_
  cases rest with
  | nil => exact Parsed.yields_failed spelled'
  | cons token rest =>
      dsimp only
      split
      · refine ((moreExpressions_yields close rest spelled'.tail).map ?_).weaken _
        exact fun others later => ⟨coherent, later⟩
      · split
        · exact Parsed.yields_done spelled'.tail ⟨coherent, trivial⟩
        · exact Parsed.yields_failed spelled'
termination_by (tokens.length, 3)

theorem pairs_yields (tokens : List Token) (spelled : Token.AllSpelled tokens) :
    (pairs tokens).Yields Expr.CoherentPairs := by
  rw [pairs]
  split
  · exact Parsed.yields_done (spelled.drop 1) trivial
  · refine (expression_yields .lowest tokens spelled).andThen ?_
    intro key rest₁ _ keyCoherent spelled₁
    cases rest₁ with
    | nil => exact Parsed.yields_failed spelled₁
    | cons colon rest₂ =>
        dsimp only
        split
        · refine ((expression_yields .lowest rest₂ spelled₁.tail).andThen ?_).weaken _
          intro value rest₃ _ valueCoherent spelled₃
          split
          · exact Parsed.yields_done (spelled₃.drop 1) ⟨keyCoherent, valueCoherent, trivial⟩
          · refine (expect_yields .comma spelled₃).andThen fun _ rest₄ _ _ spelled₄ => ?_
            refine (pairs_yields rest₄ spelled₄).map fun entries later => ?_
            exact ⟨keyCoherent, valueCoherent, later⟩
        · exact Parsed.yields_failed spelled₁
termination_by (tokens.length, 3)
decreasing_by
  · exact Prod.Lex.right _ (by omega)
  all_goals simp only [List.length_cons] at *
  all_goals exact Prod.Lex.left _ _ (by omega)

theorem block_yields (tokens : List Token) (spelled : Token.AllSpelled tokens) :
    (block tokens).Yields Stmt.CoherentAll :=
  match tokens, spelled with
  | [], spelled => by
      rw [block]
      exact ⟨fun _ valueIs => Option.some.inj valueIs ▸ trivial, spelled⟩
  | token :: rest, spelled => by
      rw [block]
      split
      · exact Parsed.yields_done spelled.tail trivial
      · refine ((statement_yields token rest spelled).before ?_ ?_).weaken _
        · exact fun rest' _ spelled' => block_yields rest' spelled'
        · exact fun stmt stmts first later => ⟨first, later⟩
termination_by (tokens.length, 3)

theorem statement_yields (token : Token) (rest : List Token)
    (spelled : Token.AllSpelled (token :: rest)) :
    (statement token rest).Yields Stmt.Coherent := by
  rw [statement]
  split
  case h_1 kind =>
      refine (expect_yields .ident spelled.tail).andThen fun name rest₁ _ nameIs spelled₁ => ?_
      refine (expect_yields .assign spelled₁).andThen fun _ rest₂ _ _ spelled₂ => ?_
      refine (expression_yields .lowest rest₂ spelled₂).andThen ?_
      intro value rest₃ _ coherent spelled₃
      exact endStatement_yields spelled₃ ⟨spelled.head kind, nameIs, coherent⟩
  case h_2 kind =>
      refine (expression_yields .lowest rest spelled.tail).andThen ?_
      intro value rest' _ coherent spelled'
      exact endStatement_yields spelled' ⟨spelled.head kind, coherent⟩
  case h_3 =>
      refine (expressionFrom_yields .lowest token rest spelled).andThen ?_
      intro expr rest' _ coherent spelled'
      exact endStatement_yields spelled' coherent
termination_by (rest.length + 1, 2)

end

private theorem statements_coherent (tokens : List Token) (spelled : Token.AllSpelled tokens) :
    Stmt.CoherentAll (statements tokens).1 := by
  fun_induction statements tokens with
  | case1 => trivial
  | case2 token rest first others ih =>
      have yields := statement_yields token rest spelled
      have later := ih yields.rest
      change Stmt.CoherentAll ((statement token rest).value.toList ++ others.1)
      cases firstCase : (statement token rest).value with
      | none => exact later
      | some stmt => exact ⟨yields.value stmt firstCase, later⟩

end Parser

/-- Every tree that is built from a source is coherent, whether or not the source has faults. -/
theorem Program.parse_coherent (source : String) :
    Stmt.CoherentAll (Program.parse source).1.statements :=
  Parser.statements_coherent _ (Lexer.tokens_wellSpelled source.toList)

end Script
