import Mathlib.Data.List.Chain
import Script.Proofs.CanonicalText
import Script.Proofs.Juxtaposition

/-!
# Texts that read back to themselves

Outside a block nothing separates an expression statement from the next one. The two may then read
as one: a word or a number runs on into the next, or a bracket at the start of the second opens the
arguments of a call or an index. A text is stable, that is, it reads back to a program with the same
text, exactly if it is the text of a program in which no two neighbours do so.
-/

set_option autoImplicit false

namespace Script

open Lexer Script.Parser Grammar

/-! ## Where two texts meet -/

/-- Whether a text that ends with the character `a` goes on with `b`: both belong to one word or
number, or `b` opens arguments or an index. -/
def Lexer.joins (a b : Char) : Bool :=
  isNameChar a && isNameChar b || isDigit a && isDigit b || b = '(' || b = '['

def Stmt.fuses (first second : Stmt) : Bool :=
  !first.closesItself && first.render.toList.getLast?.any fun a =>
    second.render.toList.head?.any fun b => joins a b

def Lexer.startsText (c : Char) : Bool :=
  isNameChar c || isDigit c || c ∈ ['"', '(', '[', '\x7b']

theorem Lexer.joins_eq_false {a b : Char} (apart : joins a b = false) :
    (isNameChar a = true → isNameChar b = false) ∧ (isDigit a = true → isDigit b = false) ∧
      b ≠ '(' ∧ b ≠ '[' := by
  simpa [joins, and_assoc] using apart

private theorem Token.Is.head_text {token : Token} {kind : TokenKind} (is : token.Is kind)
    (run : kind ∈ TokenKind.int :: TokenKind.ident :: TokenKind.keywords) :
    ∃ c, token.text.toList.head? = some c ∧ startsText c = true := by
  rcases run_of_is is run with ⟨chars, nonempty, named, rfl⟩ | ⟨digits, nonempty, all, rfl⟩
  · obtain ⟨c, chars, rfl⟩ := List.exists_cons_of_ne_nil nonempty
    exact ⟨c, by simp [Token.word], by simp [startsText, named c List.mem_cons_self]⟩
  · obtain ⟨c, digits, rfl⟩ := List.exists_cons_of_ne_nil nonempty
    exact ⟨c, by simp [Token.number], by simp [startsText, all c List.mem_cons_self]⟩

private theorem Expr.head_render : (expr : Expr) → expr.Coherent →
    ∃ c, expr.render.toList.head? = some c ∧ startsText c = true
  | .ident _, is => is.head_text (by decide)
  | .int _ _, ⟨is, _⟩ => is.head_text (by decide)
  | .bool _ true, is | .bool _ false, is => is.head_text (by decide)
  | .call _ callee _, ⟨_, coherent, _⟩ => by
      obtain ⟨c, head, starts⟩ := callee.head_render coherent
      exact ⟨c, by simp [Expr.render, head], starts⟩
  | .str _, _ => ⟨'"', by simp [Expr.render], by decide⟩
  | .unary _ _ _, _ | .binary _ _ _ _, _ | .index _ _ _, _ =>
      ⟨'(', by simp [Expr.render], by decide⟩
  | .conditional _ _ _ none, _ | .conditional _ _ _ (some _), _ =>
      ⟨'i', by simp [Expr.render], by decide⟩
  | .function _ _ _, _ => ⟨'f', by simp [Expr.render], by decide⟩
  | .list _ _, _ => ⟨'[', by simp [Expr.render], by decide⟩
  | .map _ _, _ => ⟨'\x7b', by simp [Expr.render], by decide⟩

private theorem Stmt.head_render {stmt : Stmt} (coherent : stmt.Coherent) :
    ∃ c, stmt.render.toList.head? = some c ∧ startsText c = true := by
  cases stmt with
  | bind token name value => exact ⟨'l', by simp [Stmt.render], by decide⟩
  | ret token value => exact ⟨'r', by simp [Stmt.render], by decide⟩
  | expr token expression => exact expression.head_render coherent

/-- No text starts with an operator or a separator. -/
theorem Lexer.headKind_tokens {c : Char} (starts : startsText c = true) (notParen : c ≠ '(')
    (notBracket : c ≠ '[') (rest : List Char) :
    .ofKind (headKind (tokens (c :: rest))) ≤ Precedence.lowest ∧
      headKind (tokens (c :: rest)) ≠ .semicolon := by
  have plain : ∀ kind ∈ .int :: .str :: .openBrace :: .ident :: TokenKind.keywords,
      Precedence.ofKind kind ≤ .lowest ∧ kind ≠ .semicolon := by decide
  simp only [startsText, Bool.or_eq_true, decide_eq_true_eq, List.mem_cons, notParen, notBracket,
    List.not_mem_nil, or_false, false_or, or_assoc] at starts
  rcases starts with named | digit | rfl | rfl
  · rw [tokens_cons rest (not_isBlank_of_isNameChar named), scan,
      if_neg (isNameChar_ne_quote named), if_pos named]
    have member := Token.kind_word_mem (c :: rest.takeWhile isNameChar)
    exact plain _ (List.mem_append_right [TokenKind.int, .str, .openBrace] member)
  · have notNamed : ¬ isNameChar c = true := by simp [not_isNameChar_of_isDigit digit]
    rw [tokens_cons rest (not_isBlank_of_isDigit digit), scan, if_neg (isDigit_ne_quote digit),
      if_neg notNamed, if_pos digit]
    exact plain .int (by decide)
  · rw [tokens_cons rest (by decide), scan, if_pos rfl]
    exact plain .str (by decide)
  · have opening : Seals "\x7b" [⟨.openBrace, "\x7b"⟩] := seals_of_last (by cbv) rfl (by decide)
    rw [show tokens ('\x7b' :: rest) = _ from opening rest]
    exact plain .openBrace (by decide)

private theorem Lexer.headKind_of_bracket {b : Char} (rest : List Char)
    (bracket : b = '(' ∨ b = '[') :
    headKind (tokens (b :: rest)) = .openParen ∨ headKind (tokens (b :: rest)) = .openBracket := by
  rcases bracket with rfl | rfl
  · exact .inl (congrArg headKind (seals_openParen rest))
  · exact .inr (congrArg headKind (seals_openBracket rest))

/-! ## Texts of one token and others -/

def Expr.single? : Expr → Option Token
  | .ident token | .int token _ | .bool token _ => some token
  | _ => none

theorem Expr.is_of_single {expr : Expr} {token : Token} (coherent : expr.Coherent)
    (single : expr.single? = some token) :
    expr.render = token.text ∧
      ∃ kind ∈ TokenKind.int :: TokenKind.ident :: TokenKind.keywords, token.Is kind := by
  cases expr with
  | ident token' =>
      cases single
      exact ⟨rfl, _, by decide, coherent⟩
  | int token' value =>
      cases single
      exact ⟨rfl, _, by decide, coherent.1⟩
  | bool token' value =>
      cases single
      cases value with
      | true => exact ⟨rfl, _, by decide, coherent⟩
      | false => exact ⟨rfl, _, by decide, coherent⟩
  | _ => cases single

/-- The text of any other expression ends with a bracket or a quote. -/
theorem Expr.getLast_render {expr : Expr} (composite : expr.single? = none) :
    ∃ a, expr.render.toList.getLast? = some a ∧ isNameChar a = false ∧ isDigit a = false := by
  cases expr with
  | ident _ | int _ _ | bool _ _ => cases composite
  | str token => exact ⟨'"', by simp [Expr.render, List.getLast?_cons], by decide⟩
  | unary _ _ _ | binary _ _ _ _ | call _ _ _ | index _ _ _ =>
      exact ⟨')', by simp [Expr.render, List.getLast?_cons], by decide⟩
  | list _ _ => exact ⟨']', by simp [Expr.render, List.getLast?_cons], by decide⟩
  | map _ _ => exact ⟨'\x7d', by simp [Expr.render, List.getLast?_cons], by decide⟩
  | function _ _ body =>
      cases body
      exact ⟨'\x7d', by simp [Expr.render, Block.render, List.getLast?_cons], by decide⟩
  | conditional _ _ consequence alternative =>
      cases alternative with
      | none =>
          cases consequence
          exact ⟨'\x7d', by simp [Expr.render, Block.render, List.getLast?_cons], by decide⟩
      | some alternative =>
          cases alternative
          exact ⟨'\x7d', by simp [Expr.render, Block.render, List.getLast?_cons], by decide⟩

/-- The tokens of such an expression end with a bracket, unless it is a string. -/
theorem Grammar.Written.endsWith_bracket {mayFollow : TokenKind → Prop} {read : List Token}
    {expr : Expr} (written : Written mayFollow .applied read expr)
    (composite : expr.single? = none) (unquoted : ∀ token, expr ≠ .str token) :
    EndsWith [.closeParen, .closeBracket, .closeBrace] read := by
  cases written with
  | grouped _ _ closing =>
      exact endsWith_cons (endsWith_append (endsWith_singleton closing (by decide)) _) _
  | bare admits bare =>
      cases bare with
      | ident _ | int _ _ | truth _ | falsity _ => cases composite
      | str _ => exact absurd rfl (unquoted _)
      | unary _ _ | binary _ _ _ => exact admits.elim
      | conditional _ _ _ _ braced | function _ _ _ _ braced =>
          exact endsWith_cons (endsWith_cons (endsWith_append
            (endsWith_cons (braced.endsWith (by decide)) _) _) _) _
      | alternative _ _ _ _ _ _ braced =>
          exact endsWith_cons (endsWith_cons (endsWith_append (endsWith_cons (endsWith_append
            (endsWith_cons (braced.endsWith (by decide)) _) _) _) _) _) _
      | call _ _ _ closing | index _ _ _ closing =>
          exact endsWith_append (endsWith_cons (endsWith_append
            (endsWith_singleton closing (by decide)) _) _) _
      | list _ _ closing | map _ _ closing =>
          exact endsWith_cons (endsWith_append (endsWith_singleton closing (by decide)) _) _

namespace Expr.SpelledBy

variable {expr : Expr} {read : List Token}

theorem tokens_render (spelled : expr.SpelledBy read) : tokens expr.render.toList = read := by
  simpa using spelled.spells [] (by simp [Delimited])

private theorem seals_of_composite (spelled : expr.SpelledBy read) (coherent : expr.Coherent)
    (composite : expr.single? = none) : Seals expr.render read := by
  by_cases quoted : ∃ token, expr = .str token
  · obtain ⟨token, rfl⟩ := quoted
    have seals : Seals (Expr.str token).render [token] := seals_quoted coherent
    have readIs : [token] = read := by simpa [spelled.tokens_render] using (seals []).symm
    exact readIs ▸ seals
  · have closed : ∀ kind ∈ [TokenKind.closeParen, .closeBracket, .closeBrace],
        kind ∉ openEnded := by decide
    obtain ⟨last, isLast, bracket⟩ := (spelled.written .applied).endsWith_bracket composite
      fun token is => quoted ⟨token, is⟩
    exact seals_of_last spelled.tokens_render isLast (closed _ bracket)

/-- Characters that do not join keep the tokens on both sides apart. -/
theorem tokens_append (spelled : expr.SpelledBy read) (coherent : expr.Coherent) {a b : Char}
    (last : expr.render.toList.getLast? = some a) (apart : joins a b = false)
    (rest : List Char) :
    tokens (expr.render.toList ++ b :: rest) = read ++ tokens (b :: rest) := by
  obtain ⟨notNamed, notDigit, _⟩ := joins_eq_false apart
  cases single : expr.single? with
  | none => exact spelled.seals_of_composite coherent single (b :: rest)
  | some token =>
      obtain ⟨text, kind, run, is⟩ := expr.is_of_single coherent single
      have readIs : read = [token] := by
        have spells := spells_token is run [] (by simp [Delimited])
        rw [← spelled.tokens_render, text]
        simpa using spells
      rw [readIs, List.singleton_append, text]
      rw [text] at last
      rcases run_of_is is run with ⟨chars, nonempty, named, rfl⟩ | ⟨digits, nonempty, all, rfl⟩
      · simp only [Token.word, String.toList_ofList] at last ⊢
        refine tokens_word nonempty named ?_
        simpa using notNamed (named a (List.mem_of_getLast? last))
      · simp only [Token.number, String.toList_ofList] at last ⊢
        refine tokens_number nonempty all ?_
        simpa using notDigit (all a (List.mem_of_getLast? last))

end Expr.SpelledBy

/-! ## One statement and what is behind it -/

namespace Parser

theorem statements_of_reads {token : Token} {stmt : Stmt} {tokens rest : List Token}
    (reads : (statement token tokens).Reads stmt rest) :
    statements (token :: tokens) = (stmt :: (statements rest).1, (statements rest).2) := by
  rw [statements_cons, reads.value_eq, reads.rest_eq, reads.errors_eq]
  rfl

/-- A statement that closes itself. -/
theorem statements_closed {stmt : Stmt} {text : String} (spelled : stmt.SpelledAs text)
    (shape : stmt.render = text ++ ";") (rest : List Char) :
    ∃ read, read.dropLeads = stmt.dropLeads ∧
      statements (tokens (stmt.render.toList ++ rest)) =
        (read :: (statements (tokens rest)).1, (statements (tokens rest)).2) := by
  obtain ⟨written, single, spells⟩ := spelled
  obtain ⟨token, tail, read, rfl, same, reads⟩ := single_recovers single
  have separator : Seals ";" [⟨.semicolon, ";"⟩] := seals_of_last (by cbv) rfl (by decide)
  have kind : (⟨.semicolon, ";"⟩ : Token).kind = .semicolon := rfl
  have readsOn := reads (endsExpr_cons kind (by decide) (tokens rest))
  rw [skipSemicolon_cons kind] at readsOn
  refine ⟨read, same, ?_⟩
  rw [shape, spells.append_seals separator rfl, List.append_assoc]
  exact statements_of_reads readsOn

/-- An expression in front of a token that does not go on with it. -/
theorem statements_open {expr : Expr} {read following : List Token}
    (spelled : expr.SpelledBy read) (loose : .ofKind (headKind following) ≤ Precedence.lowest)
    (apart : headKind following ≠ .semicolon)
    (notElse : expr.awaitsElse = true → headKind following ≠ .kwElse) (token : Token) :
    ∃ stmt, stmt.dropLeads = (Stmt.expr token expr).dropLeads ∧
      statements (read ++ following) =
        (stmt :: (statements following).1, (statements following).2) := by
  have written := spelled.written .applied
  obtain ⟨result, same, agrees⟩ := written_agrees written
  have weak : Precedence.lowest ≤ .unary := by decide
  have stops : (continuation .lowest result following).Reads result following :=
    continuation_reads_stop loose
  have starts := written.starts
  obtain ⟨first, tail, rfl⟩ := List.exists_cons_of_ne_nil (ne_nil_of_starts starts)
  have reads := statement_reads_expr starts (stops.of_ending (agrees weak notElse))
  rw [skipSemicolon_of_ne apart] at reads
  exact ⟨.expr first result, by simp only [Stmt.dropLeads, same], statements_of_reads reads⟩

/-- The first statement of a faultless text, and the others. -/
theorem reads_of_statements {token : Token} {tokens : List Token} {stmt : Stmt}
    {stmts : List Stmt} (parsed : statements (token :: tokens) = (stmt :: stmts, [])) :
    (statement token tokens).Reads stmt (statement token tokens).rest := by
  rw [statements_cons] at parsed
  obtain ⟨valuesAre, errorsAre⟩ := Prod.mk.inj parsed
  obtain ⟨faultless, _⟩ := List.append_eq_nil_iff.mp errorsAre
  obtain ⟨used, read, readIs, _⟩ := statement_accounts token tokens faultless
  rw [readIs] at valuesAre
  cases valuesAre
  exact ⟨readIs, rfl, faultless⟩

/-- An expression statement is read like the expression alone. -/
theorem expression_of_statement {token lead : Token} {tokens : List Token} {expr : Expr}
    (reads : (statement token tokens).value = some (.expr lead expr)) :
    (expression .lowest (token :: tokens)).value = some expr := by
  rw [statement] at reads
  split at reads
  next =>
    obtain ⟨_, _, reads⟩ := Parsed.andThen_value_eq_some.mp reads
    obtain ⟨_, _, reads⟩ := Parsed.andThen_value_eq_some.mp reads
    obtain ⟨_, _, reads⟩ := Parsed.andThen_value_eq_some.mp reads
    cases reads
  next =>
    obtain ⟨_, _, reads⟩ := Parsed.andThen_value_eq_some.mp reads
    cases reads
  next =>
    obtain ⟨read, readIs, reads⟩ := Parsed.andThen_value_eq_some.mp reads
    cases reads
    rwa [expression, Parsed.weaken_value]

end Parser

/-! ## Texts that run on -/

/-- A name or number that runs on is read as a longer one. -/
theorem Expr.tokens_joined {expr : Expr} {token : Token} (coherent : expr.Coherent)
    (single : expr.single? = some token) {a b : Char}
    (last : expr.render.toList.getLast? = some a)
    (joined : isNameChar a = true ∧ isNameChar b = true ∨ isDigit a = true ∧ isDigit b = true)
    (rest : List Char) :
    ∃ longer tail, tokens (expr.render.toList ++ b :: rest) = longer :: tail ∧
      longer ≠ token ∧ longer.kind ≠ .openParen := by
  obtain ⟨text, kind, run, is⟩ := expr.is_of_single coherent single
  rw [text] at last ⊢
  rcases run_of_is is run with ⟨chars, nonempty, named, rfl⟩ | ⟨digits, nonempty, all, rfl⟩
  · simp only [Token.word, String.toList_ofList] at last ⊢
    have namedLast := named a (List.mem_of_getLast? last)
    have namedNext : isNameChar b = true := by
      rcases joined with ⟨_, next⟩ | ⟨digit, _⟩
      · exact next
      · simp [not_isNameChar_of_isDigit digit] at namedLast
    obtain ⟨c, chars, rfl⟩ := List.exists_cons_of_ne_nil nonempty
    obtain ⟨first, others⟩ := List.forall_mem_cons.mp named
    rw [List.cons_append, tokens_cons _ (not_isBlank_of_isNameChar first), scan,
      if_neg (isNameChar_ne_quote first), if_pos first, List.takeWhile_append_of_pos others,
      List.takeWhile_cons_of_pos namedNext]
    refine ⟨_, _, rfl, fun same => ?_, fun opens => ?_⟩
    · simpa [Token.word] using congrArg Token.text same
    · have member := Token.kind_word_mem (c :: (chars ++ b :: rest.takeWhile isNameChar))
      exact absurd (opens ▸ member) (by decide)
  · simp only [Token.number, String.toList_ofList] at last ⊢
    have notNamed := not_isNameChar_of_isDigit (all a (List.mem_of_getLast? last))
    have digitNext : isDigit b = true := by
      rcases joined with ⟨namedLast, _⟩ | ⟨_, next⟩
      · simp [notNamed] at namedLast
      · exact next
    obtain ⟨c, digits, rfl⟩ := List.exists_cons_of_ne_nil nonempty
    obtain ⟨first, others⟩ := List.forall_mem_cons.mp all
    rw [List.cons_append, tokens_cons _ (not_isBlank_of_isDigit first), scan,
      if_neg (isDigit_ne_quote first), if_neg (by simp [not_isNameChar_of_isDigit first]),
      if_pos first, List.takeWhile_append_of_pos others, List.takeWhile_cons_of_pos digitNext]
    refine ⟨_, _, rfl, fun same => ?_, by simp [Token.number]⟩
    simpa [Token.number] using congrArg Token.text same

private theorem Grammar.Written.head_of_single {mayFollow : TokenKind → Prop} {position : Position}
    {used : List Token} {expr : Expr} {token : Token} (single : expr.single? = some token) :
    Written mayFollow position used expr → used = [token] ∨ headKind used = .openParen
  | .grouped kind _ _ => .inr kind
  | .bare _ inner => by
      cases inner with
      | ident _ | int _ _ | truth _ | falsity _ =>
          cases single
          exact .inl rfl
      | _ => cases single

namespace Parser

variable {expr : Expr} {lead : Token} {read following : List Token} {stmts : List Stmt}

/-- The text of an expression that is parsed back from it has no bracket behind it. -/
theorem not_opens_of_parsed (spelled : expr.SpelledBy read)
    (parsed : statements (read ++ following) = (.expr lead expr :: stmts, [])) :
    ¬ (headKind following = .openParen ∨ headKind following = .openBracket) := by
  intro opens
  have written := spelled.written .applied
  obtain ⟨result, same, agrees⟩ := written_agrees written
  have weak : Precedence.lowest ≤ .unary := by decide
  have notElse : expr.awaitsElse = true → headKind following ≠ .kwElse := by
    intro _ otherwise
    simp [otherwise] at opens
  obtain ⟨first, tail, rfl⟩ := List.exists_cons_of_ne_nil (ne_nil_of_starts written.starts)
  have reads := expression_of_statement (reads_of_statements parsed).value_eq
  have continues : (continuation .lowest result following).value = some expr :=
    (congrArg Ending.tree (agrees weak notElse)).symm.trans reads
  have longer := length_render_lt_of_continuation weak opens continues
  rw [← Expr.render_dropLeads result, same, Expr.render_dropLeads] at longer
  exact lt_irrefl _ longer

/-- Nor has a condition an `else` behind it. -/
theorem not_else_of_parsed (spelled : expr.SpelledBy read)
    (parsed : statements (read ++ following) = (.expr lead expr :: stmts, []))
    (awaits : expr.awaitsElse = true) : headKind following ≠ .kwElse := by
  intro otherwise
  have tokensAre := spelled.tokens_render
  have written := spelled.written .applied
  cases expr with
  | conditional token condition consequence alternative =>
      cases alternative with
      | some _ => cases awaits
      | none =>
          cases written with
          | grouped opening _ _ =>
              rw [Expr.render, String.append_assoc, String.append_assoc, String.toList_append,
                seals_if] at tokensAre
              obtain ⟨rfl, _⟩ := List.cons.inj tokensAre
              cases opening
          | bare _ bare =>
              cases bare with
              | conditional kind openingKind condition closingKind braced =>
                  cases braced with
                  | intro braceKind body braceKind' =>
                      have reads := expression_of_statement (reads_of_statements parsed).value_eq
                      exact lt_irrefl _ (length_render_lt_of_else kind openingKind
                        (written_recovers condition) closingKind braceKind
                        (sequence_recovers body) braceKind' otherwise reads)
  | _ => cases awaits

/-- Nor does a name or a number run on. -/
theorem not_joined_of_parsed {token longer : Token} {tail : List Token}
    (single : expr.single? = some token)
    (parsed : statements (longer :: tail) = (.expr lead expr :: stmts, [])) :
    longer = token ∨ longer.kind = .openParen := by
  obtain ⟨valueIs, _, faultless⟩ := reads_of_statements parsed
  obtain ⟨used, stmt, stmtIs, split, ended⟩ := statement_accounts longer tail faultless
  cases valueIs.symm.trans stmtIs
  obtain ⟨tokens, gap, written, shape⟩ : ∃ tokens gap, Written StandsApart .free tokens expr ∧
      longer :: tail = tokens ++ gap := by
    rcases ended with ⟨tokens, separator, rfl, _, statement⟩ | ⟨statement, _⟩
    · cases statement with
      | expr written => exact ⟨tokens, _, written, by rw [split, List.append_assoc]⟩
    · cases statement with
      | expr written => exact ⟨used, _, written, split⟩
  obtain ⟨first, others, rfl⟩ := List.exists_cons_of_ne_nil (ne_nil_of_starts written.starts)
  cases shape
  rcases written.head_of_single single with alone | opens
  · exact .inl (List.cons.inj alone).1
  · exact .inr opens

end Parser

/-! ## Programs whose statements stay apart -/

namespace Stmt

/-- Where the texts of two statements meet. -/
theorem meeting {token : Token} {expr : Expr} {second : Stmt} (coherent : expr.Coherent)
    (coherentNext : second.Coherent) :
    ∃ a b more, expr.render.toList.getLast? = some a ∧ second.render.toList = b :: more ∧
      startsText b = true ∧ (Stmt.expr token expr).fuses second = joins a b := by
  obtain ⟨c, head, _⟩ := expr.head_render coherent
  obtain ⟨b, headNext, starts⟩ := Stmt.head_render coherentNext
  obtain ⟨chars, shape⟩ := List.head?_eq_some_iff.mp head
  obtain ⟨more, shapeNext⟩ := List.head?_eq_some_iff.mp headNext
  obtain ⟨a, last⟩ : ∃ a, expr.render.toList.getLast? = some a := by
    rw [shape]
    exact ⟨_, List.getLast?_eq_some_getLast (List.cons_ne_nil c chars)⟩
  have render : (Stmt.expr token expr).render = expr.render := rfl
  refine ⟨a, b, more, last, shapeNext, starts, ?_⟩
  simp [fuses, closesItself, render, last, shapeNext]

/-- Statements that are parsed back from their text stay apart. -/
theorem apart_of_parsed {lead : Token} {expr : Expr} {second : Stmt} {stmts : List Stmt}
    {rest : List Char} (coherent : expr.Coherent) (coherentNext : second.Coherent)
    (parsed : statements (tokens (expr.render.toList ++ (second.render.toList ++ rest))) =
      (.expr lead expr :: stmts, [])) : (Stmt.expr lead expr).fuses second = false := by
  obtain ⟨a, b, more, last, shape, starts, fused⟩ := meeting coherent coherentNext
  obtain ⟨read, spelled⟩ := expr.spelled_of_coherent coherent
  rw [shape, List.cons_append] at parsed
  rw [fused, Bool.eq_false_iff]
  intro joined
  simp only [joins, Bool.or_eq_true, Bool.and_eq_true, decide_eq_true_eq] at joined
  rcases joined with (runsOn | rfl) | rfl
  · cases single : expr.single? with
    | none =>
        obtain ⟨a', last', notNamed, notDigit⟩ := expr.getLast_render single
        cases last.symm.trans last'
        simp [notNamed, notDigit] at runsOn
    | some token =>
        obtain ⟨longer, tail, tokensAre, differs, notParen⟩ :=
          expr.tokens_joined coherent single last runsOn (more ++ rest)
        rw [tokensAre] at parsed
        exact (not_joined_of_parsed single parsed).elim differs notParen
  · rw [spelled.spells _ (by simp [Delimited]; decide)] at parsed
    exact not_opens_of_parsed spelled parsed (headKind_of_bracket _ (.inl rfl))
  · rw [spelled.spells _ (by simp [Delimited]; decide)] at parsed
    exact not_opens_of_parsed spelled parsed (headKind_of_bracket _ (.inr rfl))

/-- A statement that closes itself is read back, whatever text comes behind it. -/
theorem statements_of_closed {stmt : Stmt} (coherent : stmt.Coherent)
    (closes : stmt.closesItself = true) (rest : List Char) :
    ∃ read, read.dropLeads = stmt.dropLeads ∧
      statements (tokens (stmt.render.toList ++ rest)) =
        (read :: (statements (tokens rest)).1, (statements (tokens rest)).2) := by
  cases stmt with
  | bind token name value =>
      obtain ⟨is, nameIs, coherent⟩ := coherent
      exact statements_closed (spelled_bind is nameIs (value.spelled_of_coherent coherent)) rfl rest
  | ret token value =>
      obtain ⟨is, coherent⟩ := coherent
      exact statements_closed (spelled_ret is (value.spelled_of_coherent coherent)) rfl rest
  | expr _ _ => cases closes

def awaitsElse : Stmt → Bool
  | .expr _ inner => inner.awaitsElse
  | _ => false

/-- The first of two statements that stay apart is parsed back from its text. -/
theorem statements_of_apart {first second : Stmt} (coherent : first.Coherent)
    (coherentNext : second.Coherent) (apart : first.fuses second = false) (rest : List Char)
    (notElse : first.awaitsElse = true →
      headKind (tokens (second.render.toList ++ rest)) ≠ .kwElse) :
    ∃ read, read.dropLeads = first.dropLeads ∧
      statements (tokens (first.render.toList ++ (second.render.toList ++ rest))) =
        (read :: (statements (tokens (second.render.toList ++ rest))).1,
          (statements (tokens (second.render.toList ++ rest))).2) := by
  cases first with
  | bind _ _ _ | ret _ _ => exact statements_of_closed coherent rfl _
  | expr token expr =>
      obtain ⟨a, b, more, last, shape, starts, fused⟩ := meeting coherent coherentNext
      rw [fused] at apart
      obtain ⟨_, _, notParen, notBracket⟩ := joins_eq_false apart
      obtain ⟨read, spelled⟩ := expr.spelled_of_coherent coherent
      rw [shape, List.cons_append] at notElse ⊢
      obtain ⟨loose, notSemicolon⟩ := headKind_tokens starts notParen notBracket (more ++ rest)
      rw [Stmt.render, spelled.tokens_append coherent last apart]
      exact statements_open spelled loose notSemicolon notElse token

/-- The text of the last statement, with nothing behind it, is parsed back. -/
theorem statements_of_last {stmt : Stmt} (coherent : stmt.Coherent) :
    ∃ read, read.dropLeads = stmt.dropLeads ∧
      statements (tokens stmt.render.toList) = ([read], []) := by
  cases stmt with
  | bind _ _ _ | ret _ _ => simpa [statements_nil] using statements_of_closed coherent rfl []
  | expr token expr =>
      obtain ⟨read, spelled⟩ := expr.spelled_of_coherent coherent
      have parsed := statements_open spelled (by decide : .ofKind (headKind []) ≤ Precedence.lowest)
        (by decide) (fun _ => by decide) token
      rw [Stmt.render, spelled.tokens_render]
      simpa [statements_nil] using parsed

private theorem not_else_of_apart {first second : Stmt} {stmts : List Stmt} {rest : List Char}
    (coherent : first.Coherent) (coherentNext : second.Coherent)
    (apart : first.fuses second = false)
    (parsed : statements (tokens (first.render.toList ++ (second.render.toList ++ rest))) =
      (first :: stmts, [])) (awaits : first.awaitsElse = true) :
    headKind (tokens (second.render.toList ++ rest)) ≠ .kwElse := by
  cases first with
  | bind _ _ _ | ret _ _ => cases awaits
  | expr token expr =>
      obtain ⟨a, b, more, last, shape, _, fused⟩ := meeting coherent coherentNext
      obtain ⟨read, spelled⟩ := expr.spelled_of_coherent coherent
      rw [fused] at apart
      rw [shape, List.cons_append] at parsed ⊢
      rw [Stmt.render, spelled.tokens_append coherent last apart] at parsed
      exact not_else_of_parsed spelled parsed awaits

def textAll (stmts : List Stmt) : List Char := stmts.flatMap fun stmt => stmt.render.toList

/-- No statement's text goes on with that of the next. -/
def Apart (stmts : List Stmt) : Prop := stmts.IsChain fun first second => first.fuses second = false

instance (stmts : List Stmt) : Decidable (Apart stmts) :=
  inferInstanceAs (Decidable (stmts.IsChain fun first second => first.fuses second = false))

private theorem statements_textAll {stmts : List Stmt} (coherent : CoherentAll stmts)
    (apart : Apart stmts) :
    ∃ reads, dropLeadsAll reads = dropLeadsAll stmts ∧
      statements (tokens (textAll stmts)) = (reads, []) := by
  induction stmts with
  | nil => exact ⟨[], rfl, by simp [textAll, statements_nil]⟩
  | cons first stmts ih =>
      obtain ⟨coherentFirst, coherentRest⟩ := coherent
      cases stmts with
      | nil =>
          obtain ⟨read, same, parsed⟩ := statements_of_last coherentFirst
          exact ⟨[read], by simp only [dropLeadsAll, same], by simpa [textAll] using parsed⟩
      | cons second stmts =>
          obtain ⟨apartFirst, apartRest⟩ := List.isChain_cons_cons.mp apart
          obtain ⟨reads, sameRest, parsedRest⟩ := ih coherentRest apartRest
          have textIs : textAll (second :: stmts) = second.render.toList ++ textAll stmts := rfl
          rw [textIs] at parsedRest
          obtain ⟨read, same, parsed⟩ := statements_of_apart coherentFirst coherentRest.1 apartFirst
            (textAll stmts) fun _ => headKind_ne_else (by rw [parsedRest])
          rw [parsedRest] at parsed
          exact ⟨read :: reads, by simp only [dropLeadsAll, same, sameRest], parsed⟩

private theorem apart_of_statements {stmts : List Stmt} (coherent : CoherentAll stmts)
    (parsed : statements (tokens (textAll stmts)) = (stmts, [])) : Apart stmts := by
  induction stmts with
  | nil => exact .nil
  | cons first stmts ih =>
      obtain ⟨coherentFirst, coherentRest⟩ := coherent
      cases stmts with
      | nil => exact .singleton first
      | cons second stmts =>
          have textIs : textAll (first :: second :: stmts) =
            first.render.toList ++ (second.render.toList ++ textAll stmts) := rfl
          rw [textIs] at parsed
          have apart : first.fuses second = false := by
            cases first with
            | bind _ _ _ | ret _ _ => rfl
            | expr token expr => exact apart_of_parsed coherentFirst coherentRest.1 parsed
          have notElse := not_else_of_apart coherentFirst coherentRest.1 apart parsed
          obtain ⟨read, _, step⟩ :=
            statements_of_apart coherentFirst coherentRest.1 apart (textAll stmts) notElse
          rw [parsed] at step
          obtain ⟨stmtsAre, errorsAre⟩ := Prod.mk.inj step
          refine List.isChain_cons_cons.mpr ⟨apart, ih coherentRest ?_⟩
          exact Prod.ext (List.cons.inj stmtsAre).2.symm errorsAre.symm

end Stmt

namespace Program

theorem toList_render (program : Program) :
    program.render.toList = Stmt.textAll program.statements := by
  obtain ⟨stmts⟩ := program
  simp only [Program.render, Stmt.textAll]
  induction stmts with
  | nil => rfl
  | cons stmt stmts ih =>
      rw [List.map_cons, Text.join_empty_cons, String.toList_append, ih, List.flatMap_cons]

/-- Parsed programs are coherent. -/
theorem coherent_of_ofSource {source : String} {program : Program}
    (parsed : ofSource source = .ok program) : Stmt.CoherentAll program.statements := by
  rw [← (ofSource_eq_ok_iff.mp parsed).1]
  exact Program.parse_coherent source

/-- A program whose statements stay apart reads back from its text. -/
theorem ofSource_render_of_apart {program : Program}
    (coherent : Stmt.CoherentAll program.statements) (apart : Stmt.Apart program.statements) :
    ∃ again, ofSource program.render = .ok again ∧ again.dropLeads = program.dropLeads ∧
      again.render = program.render := by
  obtain ⟨reads, same, parsed⟩ := Stmt.statements_textAll coherent apart
  have sameTree : (⟨reads⟩ : Program).dropLeads = program.dropLeads := by
    rw [dropLeads, dropLeads, same]
  refine ⟨⟨reads⟩, ?_, sameTree, ?_⟩
  · rw [ofSource_eq_ok_iff, toList_render, parsed]
    exact ⟨rfl, rfl⟩
  · rw [← render_dropLeads ⟨reads⟩, sameTree, render_dropLeads]

/-- The statements of a program that is read back from its own text stay apart. -/
theorem apart_of_ofSource_render {again : Program} (parsed : ofSource again.render = .ok again) :
    Stmt.Apart again.statements := by
  have coherent := coherent_of_ofSource parsed
  obtain ⟨stmtsAre, faultless⟩ := ofSource_eq_ok_iff.mp parsed
  rw [toList_render] at stmtsAre faultless
  exact Stmt.apart_of_statements coherent (Prod.ext stmtsAre faultless)

/-- The text of a parsed program in which no statement's text goes on with the next parses to the
same program, up to the tokens that expression statements start with, and so to the same text. No
other texts are stable: one that parses to a program with that text is the text of a program whose
statements stay apart. -/
theorem render_stable_iff_apart {source : String} {program : Program}
    (parsed : ofSource source = .ok program) :
    (Stmt.Apart program.statements →
      ∃ again, ofSource program.render = .ok again ∧ again.dropLeads = program.dropLeads ∧
        again.render = program.render) ∧
    ((∃ again, ofSource program.render = .ok again ∧ again.render = program.render) ↔
      ∃ source' other, ofSource source' = .ok other ∧ Stmt.Apart other.statements ∧
        other.render = program.render) := by
  refine ⟨ofSource_render_of_apart (coherent_of_ofSource parsed), ?_, ?_⟩
  · rintro ⟨again, reads, same⟩
    rw [← same] at reads
    exact ⟨again.render, again, reads, apart_of_ofSource_render reads, same⟩
  · rintro ⟨source', other, parsedOther, apart, same⟩
    obtain ⟨again, reads, _, sameText⟩ :=
      ofSource_render_of_apart (coherent_of_ofSource parsedOther) apart
    rw [same] at reads sameText
    exact ⟨again, reads, sameText⟩

/-- The program `-a; "s" 2; b`, with the text `(-a)"s"2b`. -/
def looseSample : Program :=
  ⟨[.expr ⟨.minus, "-"⟩ (.unary ⟨.minus, "-"⟩ .neg (.ident ⟨.ident, "a"⟩)),
    .expr ⟨.str, "s"⟩ (.str ⟨.str, "s"⟩),
    .expr ⟨.int, "2"⟩ (.int ⟨.int, "2"⟩ 2),
    .expr ⟨.ident, "b"⟩ (.ident ⟨.ident, "b"⟩)]⟩

theorem render_stable_iff_apart_loose :
    ofSource "-a; \"s\" 2; b" = .ok looseSample ∧ looseSample.render = "(-a)\"s\"2b" ∧
      Stmt.Apart looseSample.statements ∧
      ∃ again, ofSource looseSample.render = .ok again ∧
        again.dropLeads = looseSample.dropLeads ∧ again.render = looseSample.render := by
  have parsed : ofSource "-a; \"s\" 2; b" = .ok looseSample := by cbv
  have apart : Stmt.Apart looseSample.statements := by decide
  exact ⟨parsed, by cbv, apart, (render_stable_iff_apart parsed).1 apart⟩

def fusedSample : Program :=
  ⟨[.expr ⟨.int, "3"⟩
      (.binary ⟨.plus, "+"⟩ .add (.int ⟨.int, "3"⟩ 3) (.int ⟨.int, "4"⟩ 4)),
    .expr ⟨.minus, "-"⟩
      (.binary ⟨.star, "*"⟩ .mul (.unary ⟨.minus, "-"⟩ .neg (.int ⟨.int, "5"⟩ 5))
        (.int ⟨.int, "5"⟩ 5))]⟩

def calledSample : Program :=
  ⟨[.expr ⟨.openParen, "("⟩
      (.call ⟨.openParen, "("⟩
        (.binary ⟨.plus, "+"⟩ .add (.int ⟨.int, "3"⟩ 3) (.int ⟨.int, "4"⟩ 4))
        [.binary ⟨.star, "*"⟩ .mul (.unary ⟨.minus, "-"⟩ .neg (.int ⟨.int, "5"⟩ 5))
          (.int ⟨.int, "5"⟩ 5)])]⟩

theorem render_unstable_fused :
    ofSource "3 + 4; -5 * 5" = .ok fusedSample ∧
      ¬ ∃ again, ofSource fusedSample.render = .ok again ∧
        again.render = fusedSample.render := by
  have called : ofSource fusedSample.render = .ok calledSample := by cbv
  refine ⟨by cbv, ?_⟩
  rintro ⟨again, reads, same⟩
  cases called.symm.trans reads
  exact absurd same (by decide)

end Program

end Script
