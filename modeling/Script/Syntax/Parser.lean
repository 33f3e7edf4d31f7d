import Script.Syntax.Basic
import Script.Syntax.Error
import Script.Token.Lexer

/-!
# Parsing

Reading a program from its tokens, by precedence climbing. An empty list of tokens stands for the
end of the source. Every function returns the tokens that it leaves, with a proof that there are
no more of them than it was given, and every recursive call sits behind at least one token that
was taken: that is why parsing ends on every input, malformed or not.

A construct that cannot be completed has no tree. Its faults are recorded in the order in which
they are met, the enclosing statement is dropped, and reading goes on with the first token that
was not taken. A token that starts no expression counts as taken; a token that stands in the place
of a required one does not.
-/

set_option autoImplicit false

namespace Script

/-- What reading a construct gives: its tree unless it was malformed, the tokens that are left and
the faults that were met. At most `bound` tokens are left. -/
structure Parsed (α : Type) (bound : Nat) where
  value : Option α
  rest : List Token
  errors : List SyntaxError
  rest_le : rest.length ≤ bound

namespace Parsed

variable {α β : Type} {bound : Nat}

def done (value : α) (rest : List Token) (le : rest.length ≤ bound := by simp) :
    Parsed α bound :=
  ⟨some value, rest, [], le⟩

/-- A construct was malformed, and reading goes on with `rest`. -/
def failed (error : SyntaxError) (rest : List Token) (le : rest.length ≤ bound := by simp) :
    Parsed α bound :=
  ⟨none, rest, [error], le⟩

def weaken {larger : Nat} (parsed : Parsed α bound) (le : bound ≤ larger) : Parsed α larger :=
  ⟨parsed.value, parsed.rest, parsed.errors, Nat.le_trans parsed.rest_le le⟩

/-- Go on with what is left, unless the construct was malformed. -/
def andThen (parsed : Parsed α bound)
    (next : α → (rest : List Token) → rest.length ≤ bound → Parsed β rest.length) :
    Parsed β bound :=
  match parsed.value with
  | none => ⟨none, parsed.rest, parsed.errors, parsed.rest_le⟩
  | some value =>
      let following := next value parsed.rest parsed.rest_le
      ⟨following.value, following.rest, parsed.errors ++ following.errors,
        Nat.le_trans following.rest_le parsed.rest_le⟩

/-- Go on with what is left whether or not the construct was malformed, and put its tree, if it
has one, in front of the others. -/
def before (first : Parsed α bound)
    (others : (rest : List Token) → rest.length ≤ bound → Parsed (List α) rest.length) :
    Parsed (List α) bound :=
  let following := others first.rest first.rest_le
  ⟨following.value.map (first.value.toList ++ ·), following.rest,
    first.errors ++ following.errors, Nat.le_trans following.rest_le first.rest_le⟩

def map (f : α → β) (parsed : Parsed α bound) : Parsed β bound :=
  ⟨parsed.value.map f, parsed.rest, parsed.errors, parsed.rest_le⟩

@[simp]
theorem weaken_done {larger : Nat} (value : α) (rest : List Token)
    (rest_le : rest.length ≤ bound) (le : bound ≤ larger) :
    (done value rest rest_le).weaken le = done value rest (Nat.le_trans rest_le le) := rfl

@[simp]
theorem weaken_failed {larger : Nat} (error : SyntaxError) (rest : List Token)
    (rest_le : rest.length ≤ bound) (le : bound ≤ larger) :
    (failed error rest rest_le : Parsed α bound).weaken le =
      failed error rest (Nat.le_trans rest_le le) := rfl

@[simp]
theorem map_done (f : α → β) (value : α) (rest : List Token) (rest_le : rest.length ≤ bound) :
    (done value rest rest_le).map f = done (f value) rest rest_le := rfl

@[simp]
theorem map_failed (f : α → β) (error : SyntaxError) (rest : List Token)
    (rest_le : rest.length ≤ bound) :
    (failed error rest rest_le : Parsed α bound).map f = failed error rest rest_le := rfl

@[simp]
theorem andThen_done (value : α) (rest : List Token) (rest_le : rest.length ≤ bound)
    (next : α → (rest : List Token) → rest.length ≤ bound → Parsed β rest.length) :
    (done value rest rest_le).andThen next = (next value rest rest_le).weaken rest_le := by
  simp [done, andThen, weaken]

@[simp]
theorem andThen_failed (error : SyntaxError) (rest : List Token) (rest_le : rest.length ≤ bound)
    (next : α → (rest : List Token) → rest.length ≤ bound → Parsed β rest.length) :
    (failed error rest rest_le : Parsed α bound).andThen next = failed error rest rest_le := rfl

/-- A sequence gives a tree exactly when both of its parts do. -/
theorem andThen_value_eq_some {parsed : Parsed α bound}
    {next : α → (rest : List Token) → rest.length ≤ bound → Parsed β rest.length} {result : β} :
    (parsed.andThen next).value = some result ↔
      ∃ value, parsed.value = some value ∧
        (next value parsed.rest parsed.rest_le).value = some result := by
  unfold andThen
  cases shape : parsed.value with
  | none => simp
  | some value => simp

end Parsed

namespace Parser

/-- The class of the first token, the end of input when there is none. -/
def headKind : List Token → TokenKind
  | [] => .eof
  | token :: _ => token.kind

/-- Take a token of the required class. Any other token stays. -/
def expect (kind : TokenKind) (tokens : List Token) : Parsed Token tokens.length :=
  match tokens with
  | [] => .failed (.unexpected kind .eof) []
  | token :: rest =>
      if token.kind = kind then .done token rest
      else .failed (.unexpected kind token.kind) (token :: rest)

theorem expect_cons {kind : TokenKind} {token : Token} (rest : List Token)
    (fits : token.kind = kind) :
    expect kind (token :: rest) = .done token rest (Nat.le_succ _) := by
  rw [expect, if_pos fits]

def skipSemicolon (tokens : List Token) : List Token :=
  match tokens with
  | [] => []
  | token :: rest => if token.kind = .semicolon then rest else token :: rest

theorem skipSemicolon_length_le (tokens : List Token) :
    (skipSemicolon tokens).length ≤ tokens.length := by
  unfold skipSemicolon
  split
  · simp
  · split <;> simp

def endStatement (stmt : Stmt) (tokens : List Token) : Parsed Stmt tokens.length :=
  .done stmt (skipSemicolon tokens) (skipSemicolon_length_le tokens)

def digitsValue (digits : List Char) : Nat :=
  digits.foldl (fun value digit => 10 * value + (digit.toNat - '0'.toNat)) 0

def maxInteger : Nat := 9223372036854775807

/-- An integer literal, malformed when it denotes more than the largest integer. -/
def integer (token : Token) (rest : List Token) : Parsed Expr rest.length :=
  let value := digitsValue token.text.toList
  if value ≤ maxInteger then .done (.int token (Int64.ofNat value)) rest
  else .failed (.integerTooLarge token.text) rest

/-- The parameters that follow the first one, through the closing parenthesis. -/
def moreParameters (tokens : List Token) : Parsed (List Token) tokens.length :=
  match tokens with
  | [] => .failed (.unexpected .closeParen .eof) []
  | token :: rest =>
      if token.kind = .comma then
        match rest with
        | [] => .failed (.unexpected .ident .eof) []
        | name :: rest =>
            if name.kind = .ident then
              ((moreParameters rest).map (name :: ·)).weaken (by simp; omega)
            else .failed (.unexpected .ident name.kind) (name :: rest)
      else if token.kind = .closeParen then .done [] rest
      else .failed (.unexpected .closeParen token.kind) (token :: rest)

/-- The parameters of a function, from after the opening through the closing parenthesis. -/
def parameters (tokens : List Token) : Parsed (List Token) tokens.length :=
  if headKind tokens = .closeParen then
    .done [] (tokens.drop 1)
  else
    (expect .ident tokens).andThen fun name rest _ =>
      (moreParameters rest).map (name :: ·)

mutual

/-- An expression that starts with the first of the tokens and extends over every operator that
binds tighter than `minimum`. -/
def expression (minimum : Precedence) (tokens : List Token) : Parsed Expr tokens.length :=
  match tokens with
  | [] => .failed (.noOperand .eof) []
  | token :: rest => (expressionFrom minimum token rest).weaken (by simp)
termination_by (tokens.length, 2)

def expressionFrom (minimum : Precedence) (token : Token) (rest : List Token) :
    Parsed Expr rest.length :=
  (operand token rest).andThen fun left rest' _ => continuation minimum left rest'
termination_by (rest.length + 1, 1)

/-- The part of an expression that needs no left operand: a literal, an identifier, a unary
expression, a group, a condition, a function, a list or a map. -/
def operand (token : Token) (rest : List Token) : Parsed Expr rest.length :=
  match token.kind with
  | .ident => .done (.ident token) rest
  | .int => integer token rest
  | .str => .done (.str token) rest
  | .kwTrue => .done (.bool token true) rest
  | .kwFalse => .done (.bool token false) rest
  | .bang => (expression .unary rest).map (.unary token .not)
  | .minus => (expression .unary rest).map (.unary token .neg)
  | .openParen =>
      (expression .lowest rest).andThen fun inner rest' _ =>
        (expect .closeParen rest').map fun _ => inner
  | .kwIf =>
      (expect .openParen rest).andThen fun _ rest₁ _ =>
      (expression .lowest rest₁).andThen fun condition rest₂ _ =>
      (expect .closeParen rest₂).andThen fun _ rest₃ _ =>
      (expect .openBrace rest₃).andThen fun opening rest₄ _ =>
      (block rest₄).andThen fun consequence rest₅ _ =>
        match rest₅ with
        | [] => .done (.conditional token condition ⟨opening, consequence⟩ none) []
        | following :: rest₆ =>
            if following.kind = .kwElse then
              ((expect .openBrace rest₆).andThen fun opening' rest₇ _ =>
                (block rest₇).map fun alternative =>
                  .conditional token condition ⟨opening, consequence⟩
                    (some ⟨opening', alternative⟩)).weaken (by simp)
            else
              .done (.conditional token condition ⟨opening, consequence⟩ none)
                (following :: rest₆)
  | .kwFn =>
      (expect .openParen rest).andThen fun _ rest₁ _ =>
      (parameters rest₁).andThen fun names rest₂ _ =>
      (expect .openBrace rest₂).andThen fun opening rest₃ _ =>
        (block rest₃).map fun body => .function token names ⟨opening, body⟩
  | .openBracket => (expressions .closeBracket rest).map (.list token)
  | .openBrace => (pairs rest).map (.map token)
  | kind => .failed (.noOperand kind) rest
termination_by (rest.length + 1, 0)
decreasing_by
  all_goals try simp only [List.length_cons] at *
  all_goals exact Prod.Lex.left _ _ (by omega)

/-- Extend `left` by the operators, calls and indices that follow and bind tighter than
`minimum`. -/
def continuation (minimum : Precedence) (left : Expr) (tokens : List Token) :
    Parsed Expr tokens.length :=
  match tokens with
  | [] => .done left []
  | token :: rest =>
      if minimum < .ofKind token.kind then
        match BinaryOp.ofKind? token.kind with
        | some op =>
            ((expression op.precedence rest).andThen fun right rest' _ =>
              continuation minimum (.binary token op left right) rest').weaken (by simp)
        | none =>
            if token.kind = .openParen then
              ((expressions .closeParen rest).andThen fun arguments rest' _ =>
                continuation minimum (.call token left arguments) rest').weaken (by simp)
            else if token.kind = .openBracket then
              ((expression .lowest rest).andThen fun position rest₁ _ =>
                (expect .closeBracket rest₁).andThen fun _ rest₂ _ =>
                  continuation minimum (.index token left position) rest₂).weaken (by simp)
            else .done left (token :: rest)
      else .done left (token :: rest)
termination_by (tokens.length, 0)

/-- Expressions with commas between them, through the token that closes the list. There is no
comma after the last one. -/
def expressions (close : TokenKind) (tokens : List Token) :
    Parsed (List Expr) tokens.length :=
  if headKind tokens = close then .done [] (tokens.drop 1)
  else moreExpressions close tokens
termination_by (tokens.length, 4)

def moreExpressions (close : TokenKind) (tokens : List Token) :
    Parsed (List Expr) tokens.length :=
  (expression .lowest tokens).andThen fun first rest _ =>
    match rest with
    | [] => .failed (.unexpected close .eof) []
    | token :: rest =>
        if token.kind = .comma then
          ((moreExpressions close rest).map (first :: ·)).weaken (by simp)
        else if token.kind = close then .done [first] rest
        else .failed (.unexpected close token.kind) (token :: rest)
termination_by (tokens.length, 3)

/-- The pairs of a map literal, through the closing brace. A comma may follow the last pair. -/
def pairs (tokens : List Token) : Parsed (List (Expr × Expr)) tokens.length :=
  if headKind tokens = .closeBrace then .done [] (tokens.drop 1)
  else
    (expression .lowest tokens).andThen fun key rest₁ _ =>
    match rest₁ with
    | [] => .failed (.unexpected .colon .eof) []
    | colon :: rest₂ =>
        if colon.kind = .colon then
          ((expression .lowest rest₂).andThen fun value rest₃ _ =>
            if headKind rest₃ = .closeBrace then .done [(key, value)] (rest₃.drop 1)
            else
              (expect .comma rest₃).andThen fun _ rest₄ _ =>
                (pairs rest₄).map ((key, value) :: ·)).weaken (by simp)
        else .failed (.unexpected .colon colon.kind) (colon :: rest₂)
termination_by (tokens.length, 3)
decreasing_by
  · exact Prod.Lex.right _ (by omega)
  all_goals simp only [List.length_cons] at *
  all_goals exact Prod.Lex.left _ _ (by omega)

/-- The statements of a block, from after its opening through its closing brace. The end of the
input closes a block too, and is a fault. -/
def block (tokens : List Token) : Parsed (List Stmt) tokens.length :=
  match tokens with
  | [] => ⟨some [], [], [.unexpected .closeBrace .eof], by simp⟩
  | token :: rest =>
      if token.kind = .closeBrace then .done [] rest
      else ((statement token rest).before fun rest' _ => block rest').weaken (by simp)
termination_by (tokens.length, 3)

/-- The statement whose first token is `token`, with the `;` that may follow it. -/
def statement (token : Token) (rest : List Token) : Parsed Stmt rest.length :=
  match token.kind with
  | .kwLet =>
      (expect .ident rest).andThen fun name rest₁ _ =>
      (expect .assign rest₁).andThen fun _ rest₂ _ =>
      (expression .lowest rest₂).andThen fun value rest₃ _ =>
        endStatement (.bind token name value) rest₃
  | .kwReturn =>
      (expression .lowest rest).andThen fun value rest' _ =>
        endStatement (.ret token value) rest'
  | _ =>
      (expressionFrom .lowest token rest).andThen fun expression rest' _ =>
        endStatement (.expr token expression) rest'
termination_by (rest.length + 1, 2)

end

/-- The statements of a whole source, and every fault in it. A malformed statement is left out. -/
def statements (tokens : List Token) : List Stmt × List SyntaxError :=
  match tokens with
  | [] => ([], [])
  | token :: rest =>
      let first := statement token rest
      let others := statements first.rest
      (first.value.toList ++ others.1, first.errors ++ others.2)
termination_by tokens.length
decreasing_by
  have left := (statement token rest).rest_le
  simp only [List.length_cons]
  omega

end Parser

namespace Program

/-- The program that a source text holds, and every fault in it in the order of their discovery.
The program leaves out the statements that were malformed. -/
def parse (source : String) : Program × List SyntaxError :=
  let parsed := Parser.statements (Lexer.tokens source.toList)
  (⟨parsed.1⟩, parsed.2)

/-- The program that a source text without faults holds, or else its faults. -/
def ofSource (source : String) : Except (List SyntaxError) Program :=
  let parsed := parse source
  if parsed.2.isEmpty then .ok parsed.1 else .error parsed.2

end Program

end Script
