import Mathlib.Order.Defs.LinearOrder
import Script.Syntax.Parser

/-!
# Written forms

Which sequences of tokens write a given tree, independently of how tokens are read. Every token is
used exactly once and in order. Grouping parentheses may stand around any expression, and they may
be left out except where the operator around the expression demands them.
-/

set_option autoImplicit false

namespace Script

/-! ## Positions

An expression can stand on either side of a binary operator, behind a unary operator, in front of
the arguments of a call or of an index, or where nothing around it competes for its parts. -/

inductive Position where
  | free
  | leftOf (op : BinaryOp)
  | rightOf (op : BinaryOp)
  | underUnary
  | applied

/-- Whether an expression may stand at a position without parentheses around it. Binary operators
group to the left: equal power is admitted on the left and refused on the right. -/
def Position.Admits : Position → Expr → Prop
  | leftOf op, .binary _ inner _ _ => ¬ inner.precedence < op.precedence
  | rightOf op, .binary _ inner _ _ => ¬ inner.precedence ≤ op.precedence
  | underUnary, .binary _ _ _ _ => False
  | applied, .binary _ _ _ _ => False
  | applied, .unary _ _ _ => False
  | _, _ => True

namespace Grammar

/-- The tokens that would make an expression go on if they came behind it: binary operators, and
the brackets that open arguments or an index. -/
def Continues (kind : TokenKind) : Prop :=
  (∃ op : BinaryOp, kind = op.kind) ∨ kind = .openParen ∨ kind = .openBracket

/-! ## Relations

The relations on trees share a parameter: the kinds of tokens that may come right behind a
statement that no `;` ends. The end of the enclosing block or program is always given as the end of
input. No relation looks at the token of an expression statement. -/

inductive Parameters : List Token → List Token → Prop where
  | none : Parameters [] []
  | last {name : Token} : name.kind = .ident → Parameters [name] [name]
  | more {name comma : Token} {names tokens : List Token} :
      name.kind = .ident → comma.kind = .comma → Parameters tokens names → names ≠ [] →
      Parameters (name :: comma :: tokens) (name :: names)

section
variable (mayFollow : TokenKind → Prop)

mutual

/-- Tokens that write an expression without parentheses around the whole of it. -/
inductive Bare : List Token → Expr → Prop where
  | ident {token : Token} : token.kind = .ident → Bare [token] (.ident token)
  | int {token : Token} :
      token.kind = .int → Parser.digitsValue token.text.toList ≤ Parser.maxInteger →
      Bare [token] (.int token (Int64.ofNat (Parser.digitsValue token.text.toList)))
  | truth {token : Token} : token.kind = .kwTrue → Bare [token] (.bool token true)
  | falsity {token : Token} : token.kind = .kwFalse → Bare [token] (.bool token false)
  | str {token : Token} : token.kind = .str → Bare [token] (.str token)
  | unary {token : Token} {op : UnaryOp} {tokens : List Token} {operand : Expr} :
      token.kind = op.kind → Written .underUnary tokens operand →
      Bare (token :: tokens) (.unary token op operand)
  | binary {token : Token} {op : BinaryOp} {before after : List Token} {left right : Expr} :
      Written (.leftOf op) before left → token.kind = op.kind →
      Written (.rightOf op) after right →
      Bare (before ++ token :: after) (.binary token op left right)
  | conditional {token opening closing : Token} {tokens braced : List Token}
      {condition : Expr} {consequence : Block} :
      token.kind = .kwIf → opening.kind = .openParen → Written .free tokens condition →
      closing.kind = .closeParen → Braced braced consequence →
      Bare (token :: opening :: (tokens ++ closing :: braced))
        (.conditional token condition consequence none)
  | alternative {token opening closing otherwise : Token} {tokens braced braced' : List Token}
      {condition : Expr} {consequence alternative : Block} :
      token.kind = .kwIf → opening.kind = .openParen → Written .free tokens condition →
      closing.kind = .closeParen → Braced braced consequence →
      otherwise.kind = .kwElse → Braced braced' alternative →
      Bare (token :: opening :: (tokens ++ closing :: (braced ++ otherwise :: braced')))
        (.conditional token condition consequence (some alternative))
  | function {token opening closing : Token} {tokens names braced : List Token} {body : Block} :
      token.kind = .kwFn → opening.kind = .openParen → Parameters tokens names →
      closing.kind = .closeParen → Braced braced body →
      Bare (token :: opening :: (tokens ++ closing :: braced)) (.function token names body)
  | call {token closing : Token} {before tokens : List Token} {callee : Expr}
      {arguments : List Expr} :
      Written .applied before callee → token.kind = .openParen → Listed tokens arguments →
      closing.kind = .closeParen →
      Bare (before ++ token :: (tokens ++ [closing])) (.call token callee arguments)
  | list {token closing : Token} {tokens : List Token} {elements : List Expr} :
      token.kind = .openBracket → Listed tokens elements → closing.kind = .closeBracket →
      Bare (token :: (tokens ++ [closing])) (.list token elements)
  | map {token closing : Token} {tokens : List Token} {pairs : List (Expr × Expr)} :
      token.kind = .openBrace → Paired tokens pairs → closing.kind = .closeBrace →
      Bare (token :: (tokens ++ [closing])) (.map token pairs)
  | index {token closing : Token} {before tokens : List Token} {collection position : Expr} :
      Written .applied before collection → token.kind = .openBracket →
      Written .free tokens position → closing.kind = .closeBracket →
      Bare (before ++ token :: (tokens ++ [closing])) (.index token collection position)

/-- Tokens that write an expression at a position, with any number of parentheses around it. -/
inductive Written : Position → List Token → Expr → Prop where
  | bare {position : Position} {tokens : List Token} {expr : Expr} :
      position.Admits expr → Bare tokens expr → Written position tokens expr
  | grouped {position : Position} {opening closing : Token} {tokens : List Token} {expr : Expr} :
      opening.kind = .openParen → Written .free tokens expr → closing.kind = .closeParen →
      Written position (opening :: (tokens ++ [closing])) expr

inductive Listed : List Token → List Expr → Prop where
  | none : Listed [] []
  | last {tokens : List Token} {expr : Expr} : Written .free tokens expr → Listed tokens [expr]
  | more {comma : Token} {tokens rest : List Token} {expr : Expr} {exprs : List Expr} :
      Written .free tokens expr → comma.kind = .comma → Listed rest exprs → exprs ≠ [] →
      Listed (tokens ++ comma :: rest) (expr :: exprs)

/-- Keys and values with commas between the pairs. One more comma may follow the last pair. -/
inductive Paired : List Token → List (Expr × Expr) → Prop where
  | none : Paired [] []
  | last {colon : Token} {before after : List Token} {key value : Expr} :
      Written .free before key → colon.kind = .colon → Written .free after value →
      Paired (before ++ colon :: after) [(key, value)]
  | trailing {colon comma : Token} {before after : List Token} {key value : Expr} :
      Written .free before key → colon.kind = .colon → Written .free after value →
      comma.kind = .comma → Paired (before ++ colon :: (after ++ [comma])) [(key, value)]
  | more {colon comma : Token} {before after rest : List Token} {key value : Expr}
      {pairs : List (Expr × Expr)} :
      Written .free before key → colon.kind = .colon → Written .free after value →
      comma.kind = .comma → Paired rest pairs → pairs ≠ [] →
      Paired (before ++ colon :: (after ++ comma :: rest)) ((key, value) :: pairs)

inductive Braced : List Token → Block → Prop where
  | intro {opening closing : Token} {tokens : List Token} {statements : List Stmt} :
      opening.kind = .openBrace → Sequence tokens statements → closing.kind = .closeBrace →
      Braced (opening :: (tokens ++ [closing])) ⟨opening, statements⟩

inductive Single : List Token → Stmt → Prop where
  | bind {token name assign : Token} {tokens : List Token} {value : Expr} :
      token.kind = .kwLet → name.kind = .ident → assign.kind = .assign →
      Written .free tokens value →
      Single (token :: name :: assign :: tokens) (.bind token name value)
  | ret {token : Token} {tokens : List Token} {value : Expr} :
      token.kind = .kwReturn → Written .free tokens value →
      Single (token :: tokens) (.ret token value)
  | expr {token : Token} {tokens : List Token} {expression : Expr} :
      Written .free tokens expression → Single tokens (.expr token expression)

/-- Statements in order, each with at most one `;` behind it. -/
inductive Sequence : List Token → List Stmt → Prop where
  | nil : Sequence [] []
  | ended {separator : Token} {tokens rest : List Token} {stmt : Stmt} {stmts : List Stmt} :
      Single tokens stmt → separator.kind = .semicolon → Sequence rest stmts →
      Sequence (tokens ++ separator :: rest) (stmt :: stmts)
  | juxtaposed {tokens rest : List Token} {stmt : Stmt} {stmts : List Stmt} :
      Single tokens stmt → mayFollow (Parser.headKind rest) → Sequence rest stmts →
      Sequence (tokens ++ rest) (stmt :: stmts)

end

end

/-! ## First tokens -/

def operandKinds : List TokenKind :=
  [.ident, .int, .str, .kwTrue, .kwFalse, .bang, .minus, .openParen, .kwIf, .kwFn, .openBracket,
    .openBrace]

theorem kind_mem_operandKinds (op : UnaryOp) : op.kind ∈ operandKinds := by
  cases op <;> decide

theorem headKind_append {tokens : List Token} (nonempty : tokens ≠ []) (rest : List Token) :
    Parser.headKind (tokens ++ rest) = Parser.headKind tokens := by
  cases tokens with
  | nil => exact absurd rfl nonempty
  | cons token tokens => rfl

theorem ne_nil_of_starts {tokens : List Token}
    (starts : Parser.headKind tokens ∈ operandKinds) : tokens ≠ [] := by
  rintro rfl
  exact absurd starts (by decide)

theorem starts_append {tokens : List Token} (starts : Parser.headKind tokens ∈ operandKinds)
    (rest : List Token) : Parser.headKind (tokens ++ rest) ∈ operandKinds := by
  rw [headKind_append (ne_nil_of_starts starts)]
  exact starts

variable {mayFollow : TokenKind → Prop}

mutual

theorem Bare.starts {tokens : List Token} {expr : Expr} :
    Bare mayFollow tokens expr → Parser.headKind tokens ∈ operandKinds
  | .ident kind | .int kind _ | .truth kind | .falsity kind | .str kind
  | .conditional kind _ _ _ _ | .alternative kind _ _ _ _ _ _ | .function kind _ _ _ _
  | .list kind _ _ | .map kind _ _ => by
      rw [Parser.headKind, kind]
      decide
  | .unary kind _ => by
      rw [Parser.headKind, kind]
      exact kind_mem_operandKinds _
  | .binary left _ _ => starts_append left.starts _
  | .call callee _ _ _ => starts_append callee.starts _
  | .index collection _ _ _ => starts_append collection.starts _

/-- However it is written, an expression starts with a token that starts an operand. -/
theorem Written.starts {position : Position} {tokens : List Token} {expr : Expr} :
    Written mayFollow position tokens expr → Parser.headKind tokens ∈ operandKinds
  | .bare _ bare => bare.starts
  | .grouped opening _ _ => by
      rw [Parser.headKind, opening]
      decide

end

/-! ## Last tokens -/

def EndsWith (kinds : List TokenKind) (tokens : List Token) : Prop :=
  ∃ last, tokens.getLast? = some last ∧ last.kind ∈ kinds

section

variable {kinds : List TokenKind}

theorem endsWith_append {tokens : List Token} (ends : EndsWith kinds tokens)
    (before : List Token) : EndsWith kinds (before ++ tokens) := by
  obtain ⟨last, isLast, kind⟩ := ends
  exact ⟨last, by rw [List.getLast?_append, isLast, Option.some_or], kind⟩

theorem endsWith_cons {tokens : List Token} (ends : EndsWith kinds tokens) (token : Token) :
    EndsWith kinds (token :: tokens) :=
  endsWith_append ends [token]

theorem endsWith_singleton {token : Token} {kind : TokenKind} (is : token.kind = kind)
    (member : kind ∈ kinds) : EndsWith kinds [token] :=
  ⟨token, rfl, is ▸ member⟩

theorem Braced.endsWith {tokens : List Token} {block : Block}
    (braced : Braced mayFollow tokens block) (member : .closeBrace ∈ kinds) :
    EndsWith kinds tokens := by
  cases braced with
  | intro _ _ closing =>
      exact endsWith_cons (endsWith_append (endsWith_singleton closing member) _) _

end

def closingKinds : List TokenKind :=
  [.ident, .int, .str, .kwTrue, .kwFalse, .closeParen, .closeBracket, .closeBrace]

mutual

theorem Bare.closes {tokens : List Token} {expr : Expr} :
    Bare mayFollow tokens expr → EndsWith closingKinds tokens
  | .ident kind | .int kind _ | .truth kind | .falsity kind | .str kind =>
      endsWith_singleton kind (by decide)
  | .unary _ operand => endsWith_cons operand.closes _
  | .binary _ _ right => endsWith_append (endsWith_cons right.closes _) _
  | .conditional _ _ _ _ braced =>
      endsWith_cons (endsWith_cons (endsWith_append
        (endsWith_cons (braced.endsWith (by decide)) _) _) _) _
  | .alternative _ _ _ _ _ _ braced =>
      endsWith_cons (endsWith_cons (endsWith_append (endsWith_cons (endsWith_append
        (endsWith_cons (braced.endsWith (by decide)) _) _) _) _) _) _
  | .function _ _ _ _ braced =>
      endsWith_cons (endsWith_cons (endsWith_append
        (endsWith_cons (braced.endsWith (by decide)) _) _) _) _
  | .call _ _ _ closing | .index _ _ _ closing =>
      endsWith_append (endsWith_cons (endsWith_append
        (endsWith_singleton closing (by decide)) _) _) _
  | .list _ _ closing | .map _ _ closing =>
      endsWith_cons (endsWith_append (endsWith_singleton closing (by decide)) _) _

/-- However it is written, an expression ends with a token that ends an operand. -/
theorem Written.closes {position : Position} {tokens : List Token} {expr : Expr} :
    Written mayFollow position tokens expr → EndsWith closingKinds tokens
  | .bare _ bare => bare.closes
  | .grouped _ _ closing =>
      endsWith_cons (endsWith_append (endsWith_singleton closing (by decide)) _) _

end

theorem Single.closes {tokens : List Token} {stmt : Stmt}
    (single : Single mayFollow tokens stmt) : EndsWith closingKinds tokens := by
  cases single with
  | bind _ _ _ value => exact endsWith_cons (endsWith_cons (endsWith_cons value.closes _) _) _
  | ret _ value => exact endsWith_cons value.closes _
  | expr written => exact written.closes

/-! ## Fewer followers -/

section
variable {mayFollow' : TokenKind → Prop}

mutual

theorem Bare.imp (follows : ∀ kind, mayFollow kind → mayFollow' kind)
    {tokens : List Token} {expr : Expr} :
    Bare mayFollow tokens expr → Bare mayFollow' tokens expr
  | .ident kind => .ident kind
  | .int kind small => .int kind small
  | .truth kind => .truth kind
  | .falsity kind => .falsity kind
  | .str kind => .str kind
  | .unary kind operand => .unary kind (operand.imp follows)
  | .binary left kind right => .binary (left.imp follows) kind (right.imp follows)
  | .conditional kind opening condition closing braced =>
      .conditional kind opening (condition.imp follows) closing (braced.imp follows)
  | .alternative kind opening condition closing braced otherwise braced' =>
      .alternative kind opening (condition.imp follows) closing (braced.imp follows) otherwise
        (braced'.imp follows)
  | .function kind opening names closing braced =>
      .function kind opening names closing (braced.imp follows)
  | .call callee kind arguments closing =>
      .call (callee.imp follows) kind (arguments.imp follows) closing
  | .list kind elements closing => .list kind (elements.imp follows) closing
  | .map kind pairs closing => .map kind (pairs.imp follows) closing
  | .index collection kind position closing =>
      .index (collection.imp follows) kind (position.imp follows) closing

theorem Written.imp (follows : ∀ kind, mayFollow kind → mayFollow' kind)
    {position : Position} {tokens : List Token} {expr : Expr} :
    Written mayFollow position tokens expr → Written mayFollow' position tokens expr
  | .bare admits bare => .bare admits (bare.imp follows)
  | .grouped opening inner closing => .grouped opening (inner.imp follows) closing

theorem Listed.imp (follows : ∀ kind, mayFollow kind → mayFollow' kind)
    {tokens : List Token} {exprs : List Expr} :
    Listed mayFollow tokens exprs → Listed mayFollow' tokens exprs
  | .none => .none
  | .last written => .last (written.imp follows)
  | .more written comma others nonempty =>
      .more (written.imp follows) comma (others.imp follows) nonempty

theorem Paired.imp (follows : ∀ kind, mayFollow kind → mayFollow' kind)
    {tokens : List Token} {pairs : List (Expr × Expr)} :
    Paired mayFollow tokens pairs → Paired mayFollow' tokens pairs
  | .none => .none
  | .last key colon value => .last (key.imp follows) colon (value.imp follows)
  | .trailing key colon value comma => .trailing (key.imp follows) colon (value.imp follows) comma
  | .more key colon value comma others nonempty =>
      .more (key.imp follows) colon (value.imp follows) comma (others.imp follows) nonempty

theorem Braced.imp (follows : ∀ kind, mayFollow kind → mayFollow' kind)
    {tokens : List Token} {block : Block} :
    Braced mayFollow tokens block → Braced mayFollow' tokens block
  | .intro opening sequence closing => .intro opening (sequence.imp follows) closing

/-- Tokens that write a statement still do so when more may follow a statement without a `;`. -/
theorem Single.imp (follows : ∀ kind, mayFollow kind → mayFollow' kind)
    {tokens : List Token} {stmt : Stmt} :
    Single mayFollow tokens stmt → Single mayFollow' tokens stmt
  | .bind kind name assign value => .bind kind name assign (value.imp follows)
  | .ret kind value => .ret kind (value.imp follows)
  | .expr written => .expr (written.imp follows)

theorem Sequence.imp (follows : ∀ kind, mayFollow kind → mayFollow' kind)
    {tokens : List Token} {stmts : List Stmt} :
    Sequence mayFollow tokens stmts → Sequence mayFollow' tokens stmts
  | .nil => .nil
  | .ended single separator sequence => .ended (single.imp follows) separator (sequence.imp follows)
  | .juxtaposed single apart sequence =>
      .juxtaposed (single.imp follows) (follows _ apart) (sequence.imp follows)

end

end

end Grammar

/-! ## Binding power of whole expressions

What an expression without parentheses needs of the text on its two sides: to its left something
that binds weaker than `leftPower`, and to its right nothing that binds tighter than
`rightPower`. -/

namespace Expr

def leftPower : Expr → Precedence
  | binary _ op _ _ => op.precedence
  | _ => .index

def rightPower : Expr → Precedence
  | binary _ op _ _ => op.precedence
  | unary _ _ _ => .unary
  | _ => .index

end Expr

namespace Precedence

private theorem rank_injective {first second : Precedence} (same : first.rank = second.rank) :
    first = second := by
  revert same
  cases first <;> cases second <;> decide

instance : LinearOrder Precedence where
  le_refl precedence := Nat.le_refl precedence.rank
  le_trans _ _ _ := Nat.le_trans
  lt_iff_le_not_ge _ _ := Nat.lt_iff_le_and_not_ge
  le_antisymm _ _ le ge := rank_injective (Nat.le_antisymm le ge)
  le_total first second := Nat.le_total first.rank second.rank
  toDecidableLE := inferInstance
  toDecidableLT := inferInstance
  toDecidableEq := inferInstance

theorem lowest_le (precedence : Precedence) : .lowest ≤ precedence := Nat.zero_le precedence.rank

theorem le_index (precedence : Precedence) : precedence ≤ .index := by
  cases precedence <;> decide

end Precedence

theorem BinaryOp.precedence_lt_unary (op : BinaryOp) : op.precedence < .unary := by
  cases op <;> decide

theorem BinaryOp.lowest_lt_precedence (op : BinaryOp) : .lowest < op.precedence := by
  cases op <;> decide

namespace Expr

theorem lowest_lt_leftPower (expr : Expr) : .lowest < expr.leftPower := by
  cases expr with
  | binary _ op _ _ => exact op.lowest_lt_precedence
  | _ => exact (by decide : Precedence.lowest < .index)

/-- Only unary expressions have two powers: they may stand behind every operator, and not in front
of all. -/
theorem rightPower_le_leftPower (expr : Expr) : expr.rightPower ≤ expr.leftPower := by
  cases expr with
  | binary _ op _ _ => exact le_refl op.precedence
  | unary _ _ _ => exact Precedence.le_index _
  | _ => exact le_refl _

theorem le_rightPower {precedence : Precedence} {expr : Expr} (weak : precedence ≤ .unary)
    (less : precedence < expr.leftPower) : precedence ≤ expr.rightPower := by
  cases expr with
  | binary _ _ _ _ => exact le_of_lt less
  | unary _ _ _ => exact weak
  | _ => exact Precedence.le_index _

theorem index_le_rightPower {expr : Expr} (tight : .call ≤ expr.rightPower) :
    .index ≤ expr.rightPower := by
  cases expr with
  | binary _ op _ _ => exact absurd (lt_of_le_of_lt tight op.precedence_lt_unary) (by decide)
  | unary _ _ _ => exact absurd tight (by decide : ¬ Precedence.call ≤ .unary)
  | _ => exact le_refl _

end Expr

namespace Position

theorem admits_free (expr : Expr) : free.Admits expr := by
  cases expr <;> trivial

theorem admits_leftOf_iff {op : BinaryOp} {expr : Expr} :
    (leftOf op).Admits expr ↔ op.precedence ≤ expr.rightPower := by
  cases expr with
  | binary _ inner _ _ => exact not_lt
  | unary _ _ _ => exact ⟨fun _ => le_of_lt op.precedence_lt_unary, fun _ => trivial⟩
  | _ => exact ⟨fun _ => Precedence.le_index _, fun _ => trivial⟩

theorem admits_rightOf_iff {op : BinaryOp} {expr : Expr} :
    (rightOf op).Admits expr ↔ op.precedence < expr.leftPower := by
  have weaker : op.precedence < .index := lt_trans op.precedence_lt_unary (by decide)
  cases expr with
  | binary _ inner _ _ => exact not_le
  | _ => exact ⟨fun _ => weaker, fun _ => trivial⟩

theorem admits_underUnary_iff {expr : Expr} :
    underUnary.Admits expr ↔ .unary < expr.leftPower := by
  cases expr with
  | binary _ op _ _ => exact ⟨False.elim, fun less => lt_asymm op.precedence_lt_unary less⟩
  | _ => exact ⟨fun _ => (by decide : Precedence.unary < .index), fun _ => trivial⟩

theorem admits_applied_iff {expr : Expr} : applied.Admits expr ↔ .call ≤ expr.rightPower := by
  cases expr with
  | binary _ op _ _ =>
      constructor
      · exact False.elim
      · intro le
        exact absurd (lt_of_le_of_lt le op.precedence_lt_unary) (by decide)
  | unary _ _ _ => exact ⟨False.elim, fun le => absurd le (by decide : ¬ Precedence.call ≤ .unary)⟩
  | _ => exact ⟨fun _ => (by decide : Precedence.call ≤ .index), fun _ => trivial⟩

end Position

namespace Precedence

/-- A token that binds at all goes on with the expression before it. -/
theorem lowest_lt_ofKind_iff {kind : TokenKind} :
    .lowest < ofKind kind ↔ Grammar.Continues kind := by
  constructor
  · intro binds
    cases kind
    case star => exact .inl ⟨.mul, rfl⟩
    case slash => exact .inl ⟨.div, rfl⟩
    case plus => exact .inl ⟨.add, rfl⟩
    case minus => exact .inl ⟨.sub, rfl⟩
    case less => exact .inl ⟨.lt, rfl⟩
    case greater => exact .inl ⟨.gt, rfl⟩
    case equal => exact .inl ⟨.eq, rfl⟩
    case notEqual => exact .inl ⟨.ne, rfl⟩
    case openParen => exact .inr (.inl rfl)
    case openBracket => exact .inr (.inr rfl)
    all_goals exact absurd binds (by decide)
  · rintro (⟨op, rfl⟩ | rfl | rfl)
    · exact op.lowest_lt_precedence
    · decide
    · decide

end Precedence

end Script
