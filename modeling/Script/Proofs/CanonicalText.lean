import Script.Proofs.Coherence
import Script.Proofs.ParserCompleteness
import Script.Proofs.ParserSoundness

/-!
# Canonical text is read back

The canonical text of a coherent tree reads as a sequence of tokens that writes the tree, with
parentheses around every unary, binary and index expression. What stands behind an expression in
its surroundings is never a letter or a digit, so that no name or number runs into it.
-/

set_option autoImplicit false

namespace Script

namespace Lexer

/-! ## Texts and their tokens -/

def Delimited (chars : List Char) : Prop :=
  ∀ c ∈ chars.head?, isNameChar c = false ∧ isDigit c = false

/-- The text reads as the tokens when neither a letter nor a digit comes behind it. -/
def Spells (text : String) (read : List Token) : Prop :=
  ∀ rest, Delimited rest → tokens (text.toList ++ rest) = read ++ tokens rest

/-- The text reads as the tokens, whatever comes behind it. -/
def Seals (text : String) (read : List Token) : Prop :=
  ∀ rest, tokens (text.toList ++ rest) = read ++ tokens rest

def delimits (text : String) : Bool :=
  text.toList.head?.any fun c => !isNameChar c && !isDigit c

theorem delimited_append {text : String} (starts : delimits text = true) (rest : List Char) :
    Delimited (text.toList ++ rest) := by
  cases shape : text.toList with
  | nil => simp [delimits, shape] at starts
  | cons c chars =>
      rintro _ ⟨⟩
      simpa [delimits, shape] using starts

theorem Seals.spells {text : String} {read : List Token} (seals : Seals text read) :
    Spells text read :=
  fun rest _ => seals rest

theorem Seals.append {first second : String} {read read' : List Token} (seals : Seals first read)
    (seals' : Seals second read') : Seals (first ++ second) (read ++ read') := by
  intro rest
  rw [String.toList_append, List.append_assoc, seals, seals', List.append_assoc]

/-- Texts can be put together wherever the first one is sealed: what comes behind does not change
how it is read. -/
theorem Seals.append_spells {first second : String} {read read' : List Token}
    (seals : Seals first read) (spells : Spells second read') :
    Spells (first ++ second) (read ++ read') := by
  intro rest delimited
  rw [String.toList_append, List.append_assoc, seals, spells rest delimited, List.append_assoc]

theorem Spells.append_seals {first second : String} {read read' : List Token}
    (spells : Spells first read) (seals : Seals second read') (starts : delimits second = true) :
    Seals (first ++ second) (read ++ read') := by
  intro rest
  rw [String.toList_append, List.append_assoc, spells _ (delimited_append starts rest), seals,
    List.append_assoc]

theorem seals_empty : Seals "" [] := fun _ => rfl

theorem seals_blank : Seals " " [] := fun rest => tokens_blank rest rfl

/-- The classes of tokens that what comes behind them can change. -/
def openEnded : List TokenKind := .str :: .assign :: .bang :: .int :: .ident :: TokenKind.keywords

private theorem extendedBy_eq_false {token : Token} (closed : token.kind ∉ openEnded) (c : Char) :
    token.extendedBy c = false := by
  simp only [openEnded, List.mem_cons, not_or] at closed
  obtain ⟨_, notAssign, notBang, notInt, notIdent, notKeyword⟩ := closed
  simp [Token.extendedBy, notAssign, notBang, notInt, notIdent, notKeyword]

/-- Only the last token of a text can be changed by what comes behind it, and only if its class is
open-ended. -/
theorem seals_of_last {text : String} {read : List Token} {last : Token}
    (reads : tokens text.toList = read) (isLast : read.getLast? = some last)
    (closed : last.kind ∉ openEnded) : Seals text read := by
  intro rest
  have notStr : last.kind ≠ .str := fun str => closed (str ▸ List.mem_cons_self)
  rw [← reads] at isLast ⊢
  exact tokens_append isLast notStr (extendedBy_eq_false closed) rest

theorem seals_openParen : Seals "(" [⟨.openParen, "("⟩] :=
  seals_of_last (by cbv) rfl (by decide)

theorem seals_closeParen : Seals ")" [⟨.closeParen, ")"⟩] :=
  seals_of_last (by cbv) rfl (by decide)

theorem seals_openBracket : Seals "[" [⟨.openBracket, "["⟩] :=
  seals_of_last (by cbv) rfl (by decide)

theorem seals_closeBrace : Seals "\x7d" [⟨.closeBrace, "\x7d"⟩] :=
  seals_of_last (by cbv) rfl (by decide)

theorem seals_if : Seals "if (" [⟨.kwIf, "if"⟩, ⟨.openParen, "("⟩] :=
  seals_of_last (by cbv) rfl (by decide)

theorem seals_endCondition : Seals ") " [⟨.closeParen, ")"⟩] :=
  seals_of_last (by cbv) rfl (by decide)

theorem seals_comma : Seals ", " [⟨.comma, ","⟩] :=
  seals_of_last (by cbv) rfl (by decide)

/-- A word with a blank behind it. -/
theorem seals_word {text : String} (chars : List Char) (shape : text.toList = chars ++ [' '])
    (nonempty : chars ≠ []) (named : chars.all isNameChar = true) :
    Seals text [.word chars] := by
  intro rest
  have ends : ∀ c ∈ (' ' :: rest).head?, isNameChar c = false := by
    rintro _ ⟨⟩
    rfl
  rw [shape, List.append_assoc, List.singleton_append,
    tokens_word nonempty (List.all_eq_true.mp named) ends,
    tokens_blank rest rfl, List.singleton_append]

theorem seals_let : Seals "let " [⟨.kwLet, "let"⟩] :=
  seals_word "let".toList rfl (by decide) (by decide)

theorem seals_return : Seals "return " [⟨.kwReturn, "return"⟩] :=
  seals_word "return".toList rfl (by decide) (by decide)

theorem seals_else : Seals " else " [⟨.kwElse, "else"⟩] := by
  intro rest
  have word : Seals "else " [⟨.kwElse, "else"⟩] :=
    seals_word "else".toList rfl (by decide) (by decide)
  exact (tokens_blank _ rfl).trans (word rest)

theorem seals_assign : Seals " = " [⟨.assign, "="⟩] := by
  intro rest
  have apart : '=' = '=' ∨ '=' = '!' → (' ' :: rest).head? ≠ some '=' := by simp
  calc tokens (" = ".toList ++ rest) = tokens ('=' :: ' ' :: rest) := tokens_blank _ rfl
    _ = .symbol '=' :: tokens (' ' :: rest) := tokens_symbol (by decide) apart
    _ = .symbol '=' :: tokens rest := by rw [tokens_blank rest rfl]

/-- A text that does not make a comparison of a `!` in front of it. -/
def plainStart (text : String) : Bool := text.toList.head?.any (· ≠ '=')

theorem plainStart_append {first : String} (starts : plainStart first = true) (second : String) :
    plainStart (first ++ second) = true := by
  simp only [plainStart, String.toList_append, List.head?_append]
  cases shape : first.toList with
  | nil => simp [plainStart, shape] at starts
  | cons c chars => simpa [plainStart, shape] using starts

private theorem spells_unaryOp (op : UnaryOp) {text : String} {read : List Token}
    (spells : Spells text read) (starts : plainStart text = true) :
    Spells (op.symbol ++ text) (⟨op.kind, op.symbol⟩ :: read) := by
  cases op with
  | neg =>
      have minus : Seals "-" [⟨.minus, "-"⟩] := seals_of_last (by cbv) rfl (by decide)
      exact minus.append_spells spells
  | not =>
      intro rest delimited
      have apart : (text.toList ++ rest).head? ≠ some '=' := by
        cases shape : text.toList with
        | nil => simp [plainStart, shape] at starts
        | cons c chars => simpa [plainStart, shape] using starts
      rw [String.toList_append, List.append_assoc]
      calc tokens ('!' :: (text.toList ++ rest)) = .symbol '!' :: tokens (text.toList ++ rest) :=
            tokens_symbol (by decide) fun _ => apart
        _ = .symbol '!' :: (read ++ tokens rest) := by rw [spells rest delimited]

theorem seals_binaryOp (op : BinaryOp) : Seals op.symbol [⟨op.kind, op.symbol⟩] := by
  cases op <;> exact seals_of_last (by cbv) rfl (by decide)

/-- A name, a number or a reserved word. -/
theorem spells_token {token : Token} {kind : TokenKind} (is : token.Is kind)
    (run : kind ∈ TokenKind.int :: TokenKind.ident :: TokenKind.keywords) :
    Spells token.text [token] := by
  obtain ⟨rfl, spelled⟩ := is
  intro rest delimited
  have notStr : token.kind ≠ .str := by
    intro str
    exact absurd (str ▸ run) (by decide)
  have written : token.written = token.text.toList := by rw [Token.written, if_neg notStr]
  rw [← written, tokens_written_append spelled, List.singleton_append]
  intro c next
  obtain ⟨notNamed, notDigit⟩ := delimited c next
  rcases List.mem_cons.mp run with number | word
  · simp [Token.extendedBy, number, TokenKind.keywords, notDigit]
  · rw [Token.extendedBy, if_pos word, notNamed]

theorem seals_quoted {token : Token} (is : token.Is .str) :
    Seals ("\"" ++ token.text ++ "\"") [token] := by
  obtain ⟨kind, spelled⟩ := is
  intro rest
  have written : ("\"" ++ token.text ++ "\"").toList = token.written := by
    rw [Token.written, if_pos kind, String.toList_append, String.toList_append]
    rfl
  rw [written, tokens_written_append spelled, List.singleton_append]
  intro c _
  simp [Token.extendedBy, kind, TokenKind.keywords]

/-- What a name, a number or a reserved word is made of. -/
theorem run_of_is {token : Token} {kind : TokenKind} (is : token.Is kind)
    (run : kind ∈ TokenKind.int :: TokenKind.ident :: TokenKind.keywords) :
    (∃ chars, chars ≠ [] ∧ (∀ c ∈ chars, isNameChar c = true) ∧ token = .word chars) ∨
      ∃ digits, digits ≠ [] ∧ (∀ c ∈ digits, isDigit c = true) ∧ token = .number digits := by
  obtain ⟨rfl, spelled⟩ := is
  cases spelled with
  | @word chars nonempty named => exact .inl ⟨chars, nonempty, named, rfl⟩
  | @number digits nonempty all => exact .inr ⟨digits, nonempty, all, rfl⟩
  | quoted _ => exact absurd run (by decide : TokenKind.str ∉ _)
  | comparison starts => rcases starts with rfl | rfl <;> exact absurd run (by decide)
  | @symbol c _ =>
      obtain ⟨notWord, notNumber⟩ := Token.kind_symbol_not_run c
      rcases List.mem_cons.mp run with number | word
      · exact absurd number notNumber
      · exact absurd word notWord

/-- The first character of a name, a number or a reserved word. -/
theorem plainStart_token {token : Token} {kind : TokenKind} (is : token.Is kind)
    (run : kind ∈ TokenKind.int :: TokenKind.ident :: TokenKind.keywords) :
    plainStart token.text = true := by
  rcases run_of_is is run with ⟨chars, nonempty, named, rfl⟩ | ⟨digits, nonempty, all, rfl⟩
  · obtain ⟨c, chars, rfl⟩ := List.exists_cons_of_ne_nil nonempty
    have first := named c List.mem_cons_self
    suffices c ≠ '=' by simpa [plainStart, Token.word]
    rintro rfl
    exact absurd first (by decide)
  · obtain ⟨c, digits, rfl⟩ := List.exists_cons_of_ne_nil nonempty
    have first := all c List.mem_cons_self
    suffices c ≠ '=' by simpa [plainStart, Token.number]
    rintro rfl
    exact absurd first (by decide)

end Lexer

/-! ## Trees and their canonical texts

One statement for each kind of node: the canonical text reads as tokens that write the tree
wherever it stands. -/

open Lexer Script.Parser Grammar

structure Expr.SpelledBy (expr : Expr) (read : List Token) : Prop where
  written : ∀ position, Written Juxtaposable position read expr
  spells : Spells expr.render read
  starts : plainStart expr.render = true

def Expr.Spelled (expr : Expr) : Prop := ∃ read, expr.SpelledBy read

def Expr.SpelledAll (exprs : List Expr) : Prop :=
  ∃ read, Listed Juxtaposable read exprs ∧ Spells (Text.join ", " (Expr.renderAll exprs)) read

def Expr.SpelledPairs (pairs : List (Expr × Expr)) : Prop :=
  ∃ read, Paired Juxtaposable read pairs ∧ Spells (Text.join ", " (Expr.renderPairs pairs)) read

def Block.Spelled (block : Block) : Prop :=
  ∃ read, Braced Juxtaposable read block ∧ Seals block.render read

def Stmt.SpelledAll (stmts : List Stmt) : Prop :=
  ∃ read, Sequence Juxtaposable read stmts ∧ Seals (Stmt.renderInBlock stmts) read

/-- The class of a token that is written out with its text. -/
theorem Token.kind_mk (kind : TokenKind) (text : String) : (⟨kind, text⟩ : Token).kind = kind := rfl

private theorem Position.admits_of_closed {expr : Expr} (left : expr.leftPower = .index)
    (right : expr.rightPower = .index) (position : Position) : position.Admits expr := by
  cases position with
  | free => exact admits_free expr
  | leftOf op => exact admits_leftOf_iff.mpr (right ▸ Precedence.le_index _)
  | rightOf op =>
      exact admits_rightOf_iff.mpr (left ▸ lt_trans op.precedence_lt_unary (by decide))
  | underUnary => exact admits_underUnary_iff.mpr (left ▸ (by decide))
  | applied => exact admits_applied_iff.mpr (right ▸ (by decide))

/-- An expression that needs parentheses nowhere. -/
theorem Expr.spelledBy_closed {expr : Expr} {read : List Token}
    (bare : Bare Juxtaposable read expr) (left : expr.leftPower = .index)
    (right : expr.rightPower = .index) (spells : Spells expr.render read)
    (starts : plainStart expr.render = true) : expr.SpelledBy read :=
  ⟨fun position => .bare (Position.admits_of_closed left right position) bare, spells, starts⟩

/-- An expression whose canonical text has parentheses around it. -/
theorem Expr.spelledBy_grouped {expr : Expr} {read : List Token}
    (bare : Bare Juxtaposable read expr)
    (seals : Seals expr.render (⟨.openParen, "("⟩ :: (read ++ [⟨.closeParen, ")"⟩])))
    (starts : plainStart expr.render = true) :
    expr.SpelledBy (⟨.openParen, "("⟩ :: (read ++ [⟨.closeParen, ")"⟩])) :=
  ⟨fun _ => .grouped rfl (.bare (Position.admits_free expr) bare) rfl, seals.spells, starts⟩

namespace Expr

/-- An expression that is a name, a number or a reserved word. -/
theorem spelled_token {expr : Expr} {token : Token} {kind : TokenKind} (is : token.Is kind)
    (run : kind ∈ TokenKind.int :: TokenKind.ident :: TokenKind.keywords)
    (bare : Bare Juxtaposable [token] expr) (text : expr.render = token.text)
    (left : expr.leftPower = .index) (right : expr.rightPower = .index) : expr.Spelled := by
  refine ⟨[token], spelledBy_closed bare left right ?_ ?_⟩
  · rw [text]
    exact spells_token is run
  · rw [text]
    exact plainStart_token is run

theorem spelled_ident {token : Token} (is : token.Is .ident) : (ident token).Spelled :=
  spelled_token is (by decide) (.ident is.1) rfl rfl rfl

theorem spelled_int {token : Token} {value : Int64} (is : token.Is .int)
    (small : digitsValue token.text.toList ≤ maxInteger)
    (valueIs : value = Int64.ofNat (digitsValue token.text.toList)) :
    (int token value).Spelled := by
  subst valueIs
  exact spelled_token is (by decide) (.int is.1 small) rfl rfl rfl

theorem spelled_true {token : Token} (is : token.Is .kwTrue) : (bool token true).Spelled :=
  spelled_token is (by decide) (.truth is.1) rfl rfl rfl

theorem spelled_false {token : Token} (is : token.Is .kwFalse) : (bool token false).Spelled :=
  spelled_token is (by decide) (.falsity is.1) rfl rfl rfl

theorem spelled_str {token : Token} (is : token.Is .str) : (str token).Spelled :=
  ⟨[token], spelledBy_closed (.str is.1) rfl rfl (seals_quoted is).spells
    (plainStart_append (plainStart_append rfl _) _)⟩

theorem spelled_unary {token : Token} {op : UnaryOp} {operand : Expr} (is : token.Is op.kind)
    (spelled : operand.Spelled) : (unary token op operand).Spelled := by
  obtain ⟨read, written, spells, starts⟩ := spelled
  obtain rfl : token = ⟨op.kind, op.symbol⟩ := is.eq_of_spelling (by cases op <;> rfl)
  refine ⟨_, spelledBy_grouped (.unary rfl (written .underUnary)) ?_ ?_⟩
  · have seals := (seals_openParen.append_spells
      (spells_unaryOp op spells starts)).append_seals seals_closeParen rfl
    simpa [Expr.render, String.append_assoc] using seals
  · exact plainStart_append (plainStart_append (plainStart_append rfl _) _) _

theorem spelled_binary {token : Token} {op : BinaryOp} {left right : Expr}
    (is : token.Is op.kind) (spelledLeft : left.Spelled) (spelledRight : right.Spelled) :
    (binary token op left right).Spelled := by
  obtain ⟨readLeft, writtenLeft, spellsLeft, _⟩ := spelledLeft
  obtain ⟨readRight, writtenRight, spellsRight, _⟩ := spelledRight
  obtain rfl : token = ⟨op.kind, op.symbol⟩ := is.eq_of_spelling (by cases op <;> rfl)
  refine ⟨_, spelledBy_grouped (.binary (writtenLeft (.leftOf op)) rfl
    (writtenRight (.rightOf op))) ?_ ?_⟩
  · have seals := (((((seals_openParen.append_spells spellsLeft).append_seals seals_blank
      rfl).append (seals_binaryOp op)).append seals_blank).append_spells spellsRight).append_seals
      seals_closeParen rfl
    simpa [Expr.render] using seals
  · simp only [Expr.render, String.append_assoc]
    exact plainStart_append rfl _

theorem spelled_index {token : Token} {collection position : Expr} (is : token.Is .openBracket)
    (spelledCollection : collection.Spelled) (spelledPosition : position.Spelled) :
    (index token collection position).Spelled := by
  obtain ⟨readCollection, writtenCollection, spellsCollection, _⟩ := spelledCollection
  obtain ⟨readPosition, writtenPosition, spellsPosition, _⟩ := spelledPosition
  obtain rfl : token = ⟨.openBracket, "["⟩ := is.eq_of_spelling rfl
  have closing : Seals "])" [⟨.closeBracket, "]"⟩, ⟨.closeParen, ")"⟩] :=
    seals_of_last (by cbv) rfl (by decide)
  refine ⟨_, spelledBy_grouped (.index (writtenCollection .applied) rfl
    (writtenPosition .free) (Token.kind_mk _ "]")) ?_ ?_⟩
  · have seals := (((seals_openParen.append_spells spellsCollection).append_seals
      seals_openBracket rfl).append_spells spellsPosition).append_seals closing rfl
    simpa [Expr.render] using seals
  · simp only [Expr.render, String.append_assoc]
    exact plainStart_append rfl _

theorem spelled_call {token : Token} {callee : Expr} {arguments : List Expr}
    (is : token.Is .openParen) (spelledCallee : callee.Spelled)
    (spelledArguments : SpelledAll arguments) : (call token callee arguments).Spelled := by
  obtain ⟨readCallee, writtenCallee, spellsCallee, starts⟩ := spelledCallee
  obtain ⟨readArguments, listed, spellsArguments⟩ := spelledArguments
  obtain rfl : token = ⟨.openParen, "("⟩ := is.eq_of_spelling rfl
  refine ⟨_, spelledBy_closed (.call (writtenCallee .applied) rfl listed
    (Token.kind_mk _ ")")) rfl rfl ?_ ?_⟩
  · have seals := ((spellsCallee.append_seals seals_openParen rfl).append_spells
      spellsArguments).append_seals seals_closeParen rfl
    simpa [Expr.render] using seals.spells
  · simp only [Expr.render, String.append_assoc]
    exact plainStart_append starts _

theorem spelled_list {token : Token} {elements : List Expr} (is : token.Is .openBracket)
    (spelled : SpelledAll elements) : (list token elements).Spelled := by
  obtain ⟨read, listed, spells⟩ := spelled
  obtain rfl : token = ⟨.openBracket, "["⟩ := is.eq_of_spelling rfl
  have closing : Seals "]" [⟨.closeBracket, "]"⟩] := seals_of_last (by cbv) rfl (by decide)
  refine ⟨_, spelledBy_closed (.list rfl listed (Token.kind_mk _ "]")) rfl rfl ?_
    (plainStart_append (plainStart_append rfl _) _)⟩
  have seals := (seals_openBracket.append_spells spells).append_seals closing rfl
  simpa [Expr.render] using seals.spells

theorem spelled_map {token : Token} {pairs : List (Expr × Expr)} (is : token.Is .openBrace)
    (spelled : SpelledPairs pairs) : (map token pairs).Spelled := by
  obtain ⟨read, paired, spells⟩ := spelled
  obtain rfl : token = ⟨.openBrace, "\x7b"⟩ := is.eq_of_spelling rfl
  have opening : Seals "\x7b" [⟨.openBrace, "\x7b"⟩] := seals_of_last (by cbv) rfl (by decide)
  refine ⟨_, spelledBy_closed (.map rfl paired (Token.kind_mk _ "\x7d")) rfl rfl ?_
    (plainStart_append (plainStart_append rfl _) _)⟩
  have seals := (opening.append_spells spells).append_seals seals_closeBrace rfl
  simpa [Expr.render] using seals.spells

theorem spelled_conditional {token : Token} {condition : Expr} {consequence : Block}
    (is : token.Is .kwIf) (spelledCondition : condition.Spelled)
    (spelledBlock : consequence.Spelled) :
    (conditional token condition consequence none).Spelled := by
  obtain ⟨read, written, spells, _⟩ := spelledCondition
  obtain ⟨readBlock, braced, sealsBlock⟩ := spelledBlock
  obtain rfl : token = ⟨.kwIf, "if"⟩ := is.eq_of_spelling rfl
  refine ⟨_, spelledBy_closed (.conditional rfl (Token.kind_mk _ "(") (written .free)
    (Token.kind_mk _ ")") braced) rfl rfl ?_ ?_⟩
  · have seals := ((seals_if.append_spells spells).append_seals seals_endCondition rfl).append
      sealsBlock
    simpa [Expr.render] using seals.spells
  · simp only [Expr.render, String.append_assoc]
    exact plainStart_append rfl _

theorem spelled_alternative {token : Token} {condition : Expr} {consequence alternative : Block}
    (is : token.Is .kwIf) (spelledCondition : condition.Spelled)
    (spelledBlock : consequence.Spelled) (spelledBlock' : alternative.Spelled) :
    (conditional token condition consequence (some alternative)).Spelled := by
  obtain ⟨read, written, spells, _⟩ := spelledCondition
  obtain ⟨readBlock, braced, sealsBlock⟩ := spelledBlock
  obtain ⟨readBlock', braced', sealsBlock'⟩ := spelledBlock'
  obtain rfl : token = ⟨.kwIf, "if"⟩ := is.eq_of_spelling rfl
  refine ⟨_, spelledBy_closed (.alternative rfl (Token.kind_mk _ "(") (written .free)
    (Token.kind_mk _ ")") braced (Token.kind_mk _ "else") braced') rfl rfl ?_ ?_⟩
  · have seals := ((((seals_if.append_spells spells).append_seals seals_endCondition rfl).append
      sealsBlock).append seals_else).append sealsBlock'
    simpa [Expr.render] using seals.spells
  · simp only [Expr.render, String.append_assoc]
    exact plainStart_append rfl _

theorem spelled_parameters {names : List Token} (are : ∀ name ∈ names, name.Is .ident) :
    ∃ read, Parameters read names ∧ Spells (Text.join ", " (names.map Token.text)) read := by
  induction names with
  | nil => exact ⟨[], .none, seals_empty.spells⟩
  | cons name names ih =>
      obtain ⟨nameIs, others⟩ := List.forall_mem_cons.mp are
      have spellsName := spells_token nameIs (by decide)
      cases names with
      | nil => exact ⟨[name], .last nameIs.1, spellsName⟩
      | cons next names =>
          obtain ⟨read, written, spells⟩ := ih others
          refine ⟨_, .more nameIs.1 (Token.kind_mk _ ",") written (List.cons_ne_nil _ _), ?_⟩
          simpa [Text.join_cons_cons] using
            (spellsName.append_seals seals_comma rfl).append_spells spells

theorem spelled_function {token : Token} {names : List Token} {body : Block}
    (is : token.Is .kwFn) (are : ∀ name ∈ names, name.Is .ident) (spelledBody : body.Spelled) :
    (function token names body).Spelled := by
  obtain ⟨read, written, spells⟩ := spelled_parameters are
  obtain ⟨readBody, braced, sealsBody⟩ := spelledBody
  obtain rfl : token = ⟨.kwFn, "fn"⟩ := is.eq_of_spelling rfl
  have opening : Seals "fn(" [⟨.kwFn, "fn"⟩, ⟨.openParen, "("⟩] :=
    seals_of_last (by cbv) rfl (by decide)
  refine ⟨_, spelledBy_closed (.function rfl (Token.kind_mk _ "(") written
    (Token.kind_mk _ ")") braced) rfl rfl ?_ ?_⟩
  · have seals := ((opening.append_spells spells).append_seals seals_endCondition rfl).append
      sealsBody
    simpa [Expr.render] using seals.spells
  · simp only [Expr.render, String.append_assoc]
    exact plainStart_append rfl _

theorem spelledAll_nil : SpelledAll [] := ⟨[], .none, seals_empty.spells⟩

theorem spelledAll_cons {expr : Expr} {exprs : List Expr} (spelled : expr.Spelled)
    (spelledRest : SpelledAll exprs) : SpelledAll (expr :: exprs) := by
  obtain ⟨read, written, spells, _⟩ := spelled
  obtain ⟨readRest, listed, spellsRest⟩ := spelledRest
  cases exprs with
  | nil => exact ⟨read, .last (written .free), spells⟩
  | cons next exprs =>
      refine ⟨_, .more (written .free) (Token.kind_mk _ ",") listed (List.cons_ne_nil _ _), ?_⟩
      simpa [Expr.renderAll, Text.join_cons_cons] using
        (spells.append_seals seals_comma rfl).append_spells spellsRest

private theorem spelledPairs_nil : SpelledPairs [] := ⟨[], .none, seals_empty.spells⟩

theorem spelledPairs_cons {key value : Expr} {pairs : List (Expr × Expr)}
    (spelledKey : key.Spelled) (spelledValue : value.Spelled)
    (spelledRest : SpelledPairs pairs) : SpelledPairs ((key, value) :: pairs) := by
  obtain ⟨readKey, writtenKey, spellsKey, _⟩ := spelledKey
  obtain ⟨readValue, writtenValue, spellsValue, _⟩ := spelledValue
  obtain ⟨readRest, paired, spellsRest⟩ := spelledRest
  have colon : Seals ": " [⟨.colon, ":"⟩] := seals_of_last (by cbv) rfl (by decide)
  have spellsPair := (spellsKey.append_seals colon rfl).append_spells spellsValue
  cases pairs with
  | nil =>
      refine ⟨_, .last (writtenKey .free) (Token.kind_mk _ ":") (writtenValue .free), ?_⟩
      simpa [Expr.renderPairs] using spellsPair
  | cons next pairs =>
      refine ⟨_, .more (writtenKey .free) (Token.kind_mk _ ":") (writtenValue .free)
        (Token.kind_mk _ ",") paired (List.cons_ne_nil _ _), ?_⟩
      simpa [Expr.renderPairs, Text.join_cons_cons] using
        (spellsPair.append_seals seals_comma rfl).append_spells spellsRest

end Expr

private theorem Block.spelled {token : Token} {stmts : List Stmt} (is : token.Is .openBrace)
    (spelled : Stmt.SpelledAll stmts) : Block.Spelled ⟨token, stmts⟩ := by
  obtain ⟨read, sequence, seals⟩ := spelled
  obtain rfl : token = ⟨.openBrace, "\x7b"⟩ := is.eq_of_spelling rfl
  have opening : Seals "\x7b " [⟨.openBrace, "\x7b"⟩] := seals_of_last (by cbv) rfl (by decide)
  refine ⟨_, .intro rfl sequence (Token.kind_mk _ "\x7d"), ?_⟩
  simpa [Block.render] using (opening.append seals).append seals_closeBrace

namespace Stmt

def SpelledAs (stmt : Stmt) (text : String) : Prop :=
  ∃ read, Single Juxtaposable read stmt ∧ Spells text read

theorem spelled_bind {token name : Token} {value : Expr} (is : token.Is .kwLet)
    (nameIs : name.Is .ident) (spelled : value.Spelled) :
    (bind token name value).SpelledAs ("let " ++ name.text ++ " = " ++ value.render) := by
  obtain ⟨read, written, spells, _⟩ := spelled
  obtain rfl : token = ⟨.kwLet, "let"⟩ := is.eq_of_spelling rfl
  refine ⟨_, .bind rfl nameIs.1 (Token.kind_mk _ "=") (written .free), ?_⟩
  simpa using ((seals_let.append_spells (spells_token nameIs (by decide))).append_seals
    seals_assign rfl).append_spells spells

theorem spelled_ret {token : Token} {value : Expr} (is : token.Is .kwReturn)
    (spelled : value.Spelled) : (ret token value).SpelledAs ("return " ++ value.render) := by
  obtain ⟨read, written, spells, _⟩ := spelled
  obtain rfl : token = ⟨.kwReturn, "return"⟩ := is.eq_of_spelling rfl
  refine ⟨_, .ret rfl (written .free), ?_⟩
  simpa using seals_return.append_spells spells

theorem spelled_expr {token : Token} {expression : Expr} (spelled : expression.Spelled) :
    (expr token expression).SpelledAs expression.render := by
  obtain ⟨read, written, spells, _⟩ := spelled
  exact ⟨read, .expr (written .free), spells⟩

theorem spelledAll_nil : SpelledAll [] := ⟨[], .nil, seals_empty⟩

theorem spelledAll_cons {stmt : Stmt} {stmts : List Stmt} {text : String}
    (spelled : stmt.SpelledAs text)
    (shape : renderInBlock (stmt :: stmts) = text ++ "; " ++ renderInBlock stmts)
    (spelledRest : SpelledAll stmts) : SpelledAll (stmt :: stmts) := by
  obtain ⟨read, single, spells⟩ := spelled
  obtain ⟨readRest, sequence, sealsRest⟩ := spelledRest
  have separator : Seals "; " [⟨.semicolon, ";"⟩] := seals_of_last (by cbv) rfl (by decide)
  refine ⟨_, .ended single (Token.kind_mk _ ";") sequence, ?_⟩
  rw [shape]
  simpa using (spells.append_seals separator rfl).append sealsRest

end Stmt

mutual

/-- By induction on the tree, with one lemma for each of its constructors. -/
theorem Expr.spelled_of_coherent : (expr : Expr) → expr.Coherent → expr.Spelled
  | .ident _, is => Expr.spelled_ident is
  | .int _ _, ⟨is, small, valueIs⟩ => Expr.spelled_int is small valueIs
  | .bool _ true, is => Expr.spelled_true is
  | .bool _ false, is => Expr.spelled_false is
  | .str _, is => Expr.spelled_str is
  | .unary _ _ operand, ⟨is, coherent⟩ =>
      Expr.spelled_unary is (operand.spelled_of_coherent coherent)
  | .binary _ _ left right, ⟨is, coherentLeft, coherentRight⟩ =>
      Expr.spelled_binary is (left.spelled_of_coherent coherentLeft)
        (right.spelled_of_coherent coherentRight)
  | .conditional _ condition consequence none, ⟨is, coherent, coherentBlock⟩ =>
      Expr.spelled_conditional is (condition.spelled_of_coherent coherent)
        (consequence.spelled_of_coherent coherentBlock)
  | .conditional _ condition consequence (some alternative),
      ⟨is, coherent, coherentBlock, coherentBlock'⟩ =>
      Expr.spelled_alternative is (condition.spelled_of_coherent coherent)
        (consequence.spelled_of_coherent coherentBlock)
        (alternative.spelled_of_coherent coherentBlock')
  | .function _ _ body, ⟨is, are, coherent⟩ =>
      Expr.spelled_function is are (body.spelled_of_coherent coherent)
  | .call _ callee arguments, ⟨is, coherent, coherentArguments⟩ =>
      Expr.spelled_call is (callee.spelled_of_coherent coherent)
        (Expr.spelledAll_of_coherent arguments coherentArguments)
  | .list _ elements, ⟨is, coherent⟩ =>
      Expr.spelled_list is (Expr.spelledAll_of_coherent elements coherent)
  | .map _ pairs, ⟨is, coherent⟩ =>
      Expr.spelled_map is (Expr.spelledPairs_of_coherent pairs coherent)
  | .index _ collection position, ⟨is, coherent, coherentPosition⟩ =>
      Expr.spelled_index is (collection.spelled_of_coherent coherent)
        (position.spelled_of_coherent coherentPosition)

theorem Expr.spelledAll_of_coherent :
    (exprs : List Expr) → Expr.CoherentAll exprs → Expr.SpelledAll exprs
  | [], _ => Expr.spelledAll_nil
  | expr :: rest, ⟨coherent, coherentRest⟩ =>
      Expr.spelledAll_cons (expr.spelled_of_coherent coherent)
        (Expr.spelledAll_of_coherent rest coherentRest)

theorem Expr.spelledPairs_of_coherent :
    (pairs : List (Expr × Expr)) → Expr.CoherentPairs pairs → Expr.SpelledPairs pairs
  | [], _ => Expr.spelledPairs_nil
  | (key, value) :: rest, ⟨coherentKey, coherentValue, coherentRest⟩ =>
      Expr.spelledPairs_cons (key.spelled_of_coherent coherentKey)
        (value.spelled_of_coherent coherentValue)
        (Expr.spelledPairs_of_coherent rest coherentRest)

theorem Block.spelled_of_coherent : (block : Block) → block.Coherent → block.Spelled
  | ⟨_, stmts⟩, ⟨is, coherent⟩ => Block.spelled is (Stmt.spelledAll_of_coherent stmts coherent)

theorem Stmt.spelledAll_of_coherent :
    (stmts : List Stmt) → Stmt.CoherentAll stmts → Stmt.SpelledAll stmts
  | [], _ => Stmt.spelledAll_nil
  | .bind _ _ value :: rest, ⟨⟨is, nameIs, coherent⟩, coherentRest⟩ =>
      Stmt.spelledAll_cons (Stmt.spelled_bind is nameIs (value.spelled_of_coherent coherent)) rfl
        (Stmt.spelledAll_of_coherent rest coherentRest)
  | .ret _ value :: rest, ⟨⟨is, coherent⟩, coherentRest⟩ =>
      Stmt.spelledAll_cons (Stmt.spelled_ret is (value.spelled_of_coherent coherent)) rfl
        (Stmt.spelledAll_of_coherent rest coherentRest)
  | .expr _ expr :: rest, ⟨coherent, coherentRest⟩ =>
      Stmt.spelledAll_cons (Stmt.spelled_expr (expr.spelled_of_coherent coherent)) rfl
        (Stmt.spelledAll_of_coherent rest coherentRest)

end

/-! ## Programs -/

def Stmt.closesItself : Stmt → Bool
  | .bind _ _ _ | .ret _ _ => true
  | .expr _ _ => false

theorem Text.join_empty_cons (item : String) (items : List String) :
    Text.join "" (item :: items) = item ++ Text.join "" items := by
  cases items with
  | nil => rw [Text.join_singleton, Text.join_nil, String.append_empty]
  | cons next items => rw [Text.join_cons_cons, String.append_empty]

theorem Stmt.spelled_closed {stmt : Stmt} {stmts : List Stmt} {text : String}
    (spelled : stmt.SpelledAs text) (shape : stmt.render = text ++ ";")
    (spelledRest : ∃ read, Sequence Juxtaposable read stmts ∧
      Spells (Text.join "" (stmts.map Stmt.render)) read) :
    ∃ read, Sequence Juxtaposable read (stmt :: stmts) ∧
      Spells (Text.join "" ((stmt :: stmts).map Stmt.render)) read := by
  obtain ⟨read, single, spells⟩ := spelled
  obtain ⟨readRest, sequence, spellsRest⟩ := spelledRest
  have separator : Seals ";" [⟨.semicolon, ";"⟩] := seals_of_last (by cbv) rfl (by decide)
  refine ⟨_, .ended single (Token.kind_mk _ ";") sequence, ?_⟩
  rw [List.map_cons, Text.join_empty_cons, shape]
  simpa using (spells.append_seals separator rfl).append_spells spellsRest

/-- Outside a block only the last statement may stand without a `;`. -/
theorem Stmt.spelled_statements {stmts : List Stmt} (coherent : Stmt.CoherentAll stmts)
    (closed : ∀ stmt ∈ stmts.dropLast, stmt.closesItself = true) :
    ∃ read, Sequence Juxtaposable read stmts ∧
      Spells (Text.join "" (stmts.map Stmt.render)) read := by
  induction stmts with
  | nil => exact ⟨[], .nil, seals_empty.spells⟩
  | cons stmt stmts ih =>
      obtain ⟨coherentStmt, coherentRest⟩ := coherent
      have closedRest : ∀ stmt ∈ stmts.dropLast, stmt.closesItself = true := by
        cases stmts with
        | nil => exact fun _ member => absurd member List.not_mem_nil
        | cons next stmts => exact fun other member => closed other (List.mem_cons_of_mem _ member)
      have spelledRest := ih coherentRest closedRest
      cases stmt with
      | bind token name value =>
          obtain ⟨is, nameIs, coherent⟩ := coherentStmt
          have spelled := Stmt.spelled_bind is nameIs (value.spelled_of_coherent coherent)
          exact Stmt.spelled_closed spelled rfl spelledRest
      | ret token value =>
          obtain ⟨is, coherent⟩ := coherentStmt
          have spelled := Stmt.spelled_ret is (value.spelled_of_coherent coherent)
          exact Stmt.spelled_closed spelled rfl spelledRest
      | expr token expr =>
          cases stmts with
          | nil =>
              obtain ⟨read, single, spells⟩ : (Stmt.expr token expr).SpelledAs expr.render :=
                Stmt.spelled_expr (expr.spelled_of_coherent coherentStmt)
              exact ⟨_, .juxtaposed single (by decide) .nil, by simpa [Stmt.render] using spells⟩
          | cons next stmts => exact absurd (closed _ List.mem_cons_self) (by simp [closesItself])

/-- When every statement but the last closes itself, the canonical text of a parsed program parses
to the same program, up to the tokens that expression statements start with. -/
theorem Program.ofSource_render_of_ofSource {source : String} {program : Program}
    (parsed : Program.ofSource source = .ok program)
    (closed : ∀ stmt ∈ program.statements.dropLast, stmt.closesItself = true) :
    ∃ again, Program.ofSource program.render = .ok again ∧
      again.dropLeads = program.dropLeads ∧ again.render = program.render := by
  have coherent : Stmt.CoherentAll program.statements := by
    rw [← (Program.ofSource_eq_ok_iff.mp parsed).1]
    exact Program.parse_coherent source
  obtain ⟨read, sequence, spells⟩ := Stmt.spelled_statements coherent closed
  obtain ⟨reads, same, parsedAgain⟩ := Parser.statements_of_sequence sequence
  have tokensAre : Lexer.tokens program.render.toList = read := by
    have atEnd := spells [] (fun _ member => by cases member)
    simpa [Program.render] using atEnd
  have sameTree : (⟨reads⟩ : Program).dropLeads = program.dropLeads := by
    rw [Program.dropLeads, Program.dropLeads, same]
  refine ⟨⟨reads⟩, ?_, sameTree, ?_⟩
  · rw [Program.ofSource_eq_ok_iff, tokensAre, parsedAgain]
    exact ⟨rfl, rfl⟩
  · rw [← Program.render_dropLeads ⟨reads⟩, sameTree, Program.render_dropLeads]

/-- The program `let x = (a + 1) * !b; x[0]`. Its canonical text is
`let x = ((a + 1) * (!b));(x[0])`. -/
def bindingSample : Program :=
  ⟨[.bind ⟨.kwLet, "let"⟩ ⟨.ident, "x"⟩
      (.binary ⟨.star, "*"⟩ .mul
        (.binary ⟨.plus, "+"⟩ .add (.ident ⟨.ident, "a"⟩) (.int ⟨.int, "1"⟩ 1))
        (.unary ⟨.bang, "!"⟩ .not (.ident ⟨.ident, "b"⟩))),
    .expr ⟨.ident, "x"⟩
      (.index ⟨.openBracket, "["⟩ (.ident ⟨.ident, "x"⟩) (.int ⟨.int, "0"⟩ 0))]⟩

theorem Program.ofSource_render_of_ofSource_binding :
    Program.ofSource "let x = (a + 1) * !b; x[0]" = .ok bindingSample ∧
      (∀ stmt ∈ bindingSample.statements.dropLast, stmt.closesItself = true) ∧
      ∃ again, Program.ofSource bindingSample.render = .ok again ∧
        again.dropLeads = bindingSample.dropLeads ∧ again.render = bindingSample.render := by
  have parsed : Program.ofSource "let x = (a + 1) * !b; x[0]" = .ok bindingSample := by cbv
  have closed : ∀ stmt ∈ bindingSample.statements.dropLast, stmt.closesItself = true := by
    simp [bindingSample, Stmt.closesItself]
  exact ⟨parsed, closed, Program.ofSource_render_of_ofSource parsed closed⟩

end Script
