import Mathlib.Data.List.Forall2
import Script.Eval.Program
import Script.Proofs.CanonicalText
import Script.Proofs.CodeParts
import Script.Proofs.Concatenation
import Script.Proofs.SourceCoverage
import Script.Value.Printer

/-!
# Displayed values are source text

The text of an integer, a boolean, a function of parsed code or a list of such values is an
expression, and evaluating it gives the value again. The smallest integer is the one exception: its
digits are too large for the literal behind the minus sign, and no text that holds them parses.
-/

set_option autoImplicit false

namespace Script

open Lexer Script.Parser Grammar

/-! ## Numerals -/

def Token.numeral (n : Nat) : Token := .number (Nat.toDigits 10 n)

theorem Token.numeral_is (n : Nat) : (Token.numeral n).Is .int := by
  refine ⟨rfl, .number Nat.toDigits_ne_nil fun c member => ?_⟩
  have digit : c.isDigit = true := Nat.isDigit_of_mem_toDigits (by decide) (le_refl 10) member
  simpa [Char.isDigit, isDigit, Char.le_def] using digit

theorem Parser.digitsValue_numeral (n : Nat) : digitsValue (Token.numeral n).text.toList = n := by
  rw [Token.numeral, Token.number, String.toList_ofList]
  exact Nat.ofDigitChars_ten_toDigits

theorem Text.decimal_natCast (n : Nat) : Text.decimal n = (Token.numeral n).text := by
  have nonneg : ¬ (n : Int) < 0 := Int.not_lt.mpr (Int.natCast_nonneg n)
  simp only [Text.decimal, if_neg nonneg]
  rfl

theorem Text.decimal_of_neg {n : Int} (negative : n < 0) :
    Text.decimal n = "-" ++ (Token.numeral n.natAbs).text := by
  simp only [Text.decimal, if_pos negative]
  rfl

theorem Lexer.spells_numeral (n : Nat) : Spells (Token.numeral n).text [Token.numeral n] :=
  spells_token (Token.numeral_is n) (by decide)

theorem Lexer.spells_negative (n : Nat) :
    Spells ("-" ++ (Token.numeral n).text) [⟨.minus, "-"⟩, Token.numeral n] := by
  have minus : Seals "-" [⟨.minus, "-"⟩] := seals_of_last (by cbv) rfl (by decide)
  exact minus.append_spells (spells_numeral n)

theorem Parser.operand_reads_numeral {n : Nat} (small : n ≤ maxInteger) (rest : List Token) :
    (operand (.numeral n) rest).Reads (.int (.numeral n) (Int64.ofNat n)) rest := by
  have valueIs := digitsValue_numeral n
  have reads := operand_reads_int (Token.numeral_is n).1 (le_of_eq_of_le valueIs small) rest
  rwa [valueIs] at reads

/-! ## Values with a text of their own -/

def Closure.IsParsed (closure : Closure) : Prop :=
  ∃ source token, (Program.parse source).1.Contains
    (.expr (.function token closure.parameters closure.body))

namespace Value

/-- Integers, booleans, functions of parsed code, and lists of such values. -/
inductive Literal : Value → Prop where
  | int (n : Int64) : Literal (.int n)
  | bool (b : Bool) : Literal (.bool b)
  | list (ref : Ref) {items : List Value} : (∀ item ∈ items, Literal item) →
      Literal (.list ref items)
  | function (ref : Ref) {closure : Closure} : closure.IsParsed → Literal (.function ref closure)

inductive HoldsInt (n : Int64) : Value → Prop where
  | here : HoldsInt n (.int n)
  | item {ref : Ref} {items : List Value} {item : Value} : item ∈ items → HoldsInt n item →
      HoldsInt n (.list ref items)

@[simp]
theorem holdsInt_int_iff {n m : Int64} : HoldsInt n (.int m) ↔ m = n :=
  ⟨fun | .here => rfl, fun same => same ▸ .here⟩

@[simp]
theorem not_holdsInt_bool (n : Int64) (b : Bool) : ¬ HoldsInt n (.bool b) := nofun

@[simp]
theorem not_holdsInt_function (n : Int64) (ref : Ref) (closure : Closure) :
    ¬ HoldsInt n (.function ref closure) := nofun

@[simp]
theorem holdsInt_list_iff {n : Int64} {ref : Ref} {items : List Value} :
    HoldsInt n (.list ref items) ↔ ∃ item ∈ items, HoldsInt n item :=
  ⟨fun | .item member holds => ⟨_, member, holds⟩, fun ⟨_, member, holds⟩ => .item member holds⟩

/-- Equal integers and booleans, lists with such items in the same order, and functions with the
same parameters and the same body but for the tokens that its expression statements keep. The
identities and the environments may be others. -/
inductive CopyOf : Value → Value → Prop where
  | int (n : Int64) : CopyOf (.int n) (.int n)
  | bool (b : Bool) : CopyOf (.bool b) (.bool b)
  | list {ref ref' : Ref} {items items' : List Value} : List.Forall₂ CopyOf items items' →
      CopyOf (.list ref items) (.list ref' items')
  | function {ref ref' : Ref} {closure closure' : Closure} :
      closure.parameters = closure'.parameters →
      closure.body.dropLeads = closure'.body.dropLeads →
      CopyOf (.function ref closure) (.function ref' closure')

mutual

/-- Copies are displayed alike, as identities and environments are not part of the text. -/
theorem CopyOf.render_eq (arrangement : Arrangement) : {value value' : Value} →
    value.CopyOf value' → value.render arrangement = value'.render arrangement
  | _, _, .int _ | _, _, .bool _ => rfl
  | _, _, .list items => by
      rw [Value.render, Value.render, CopyOf.render_items_eq arrangement items]
  | _, _, @CopyOf.function _ _ closure closure' names body => by
      have bodies : closure.body.render = closure'.body.render := by
        rw [← Block.render_dropLeads, body, Block.render_dropLeads]
      rw [Value.render, Value.render, Closure.render, Closure.render, names, bodies]

theorem CopyOf.render_items_eq (arrangement : Arrangement) :
    {items items' : List Value} → List.Forall₂ CopyOf items items' →
      Value.renderAll arrangement items = Value.renderAll arrangement items'
  | _, _, .nil => rfl
  | _, _, .cons first rest => by
      rw [Value.renderAll, Value.renderAll, first.render_eq arrangement,
        CopyOf.render_items_eq arrangement rest]

end

end Value

/-! ## Evaluating the text -/

inductive Expr.Denotes : Expr → Value → Prop where
  | int (token : Token) (n : Int64) : Denotes (.int token n) (.int n)
  | negative (token token' : Token) (n : Int64) :
      Denotes (.unary token .neg (.int token' n)) (.int (-n))
  | bool (token : Token) (b : Bool) : Denotes (.bool token b) (.bool b)
  | list (token : Token) (ref : Ref) {elements : List Expr} {items : List Value} :
      List.Forall₂ Denotes elements items → Denotes (.list token elements) (.list ref items)
  | function (token : Token) (ref : Ref) {closure : Closure} {body : Block} :
      body.dropLeads = closure.body.dropLeads →
      Denotes (.function token closure.parameters body) (.function ref closure)

mutual

/-- A literal of a value makes a copy of it, calls nothing and reads no binding. -/
theorem Expr.Denotes.eval_copy : {expr : Expr} → {value : Value} → expr.Denotes value →
    ∀ (call : Caller) (env : Env) (machine : Machine), ∃ copy nextRef,
      expr.eval call env machine = (.ok copy, { machine with nextRef := nextRef }) ∧
        copy.CopyOf value
  | _, _, .int _ n => fun _ _ machine => ⟨.int n, machine.nextRef, rfl, .int n⟩
  | _, _, .negative _ _ n => fun _ _ machine => ⟨.int (-n), machine.nextRef, rfl, .int (-n)⟩
  | _, _, .bool _ b => fun _ _ machine => ⟨.bool b, machine.nextRef, rfl, .bool b⟩
  | _, _, .list token _ elements => fun call env machine => by
      obtain ⟨copies, nextRef, evaluated, same⟩ :=
        Expr.Denotes.evalAll_copies elements call env machine
      refine ⟨.list nextRef copies, nextRef + 1, ?_, .list same⟩
      rw [Expr.eval, Run.bind_of_ok _ evaluated]
      rfl
  | _, _, .function _ _ body => fun _ _ machine =>
      ⟨_, machine.nextRef + 1, rfl, .function rfl body⟩

theorem Expr.Denotes.evalAll_copies : {exprs : List Expr} → {values : List Value} →
    List.Forall₂ Expr.Denotes exprs values →
    ∀ (call : Caller) (env : Env) (machine : Machine), ∃ copies nextRef,
      Expr.evalAll call env exprs machine = (.ok copies, { machine with nextRef := nextRef }) ∧
        List.Forall₂ Value.CopyOf copies values
  | _, _, .nil => fun _ _ machine => ⟨[], machine.nextRef, rfl, .nil⟩
  | _, _, .cons first rest => fun call env machine => by
      obtain ⟨copy, between, evaluated, same⟩ := first.eval_copy call env machine
      obtain ⟨copies, nextRef, evaluatedRest, sameRest⟩ :=
        Expr.Denotes.evalAll_copies rest call env { machine with nextRef := between }
      refine ⟨copy :: copies, nextRef, ?_, .cons same sameRest⟩
      rw [Expr.evalAll, Run.bind_of_ok _ evaluated, Run.bind_of_ok _ evaluatedRest]
      rfl

end

/-! ## Reading the text -/

/-- An operand is the whole expression when no operator comes behind it. -/
theorem Parser.expression_reads_operand {minimum : Precedence} {token : Token} {expr : Expr}
    {tokens rest : List Token} (reads : (operand token tokens).Reads expr rest)
    (ends : EndsExpr (headKind rest)) : (expression minimum (token :: tokens)).Reads expr rest :=
  expression_reads reads (continuation_reads_stop (le_trans ends.2 (Precedence.lowest_le _)))

private theorem Expr.eq_function_of_dropLeads {expr : Expr} {token : Token}
    {parameters : List Token} {body : Block}
    (same : expr.dropLeads = .function token parameters body) :
    ∃ read, expr = .function token parameters read ∧ read.dropLeads = body := by
  cases expr with
  | function token' parameters' read =>
      simp only [Expr.dropLeads, Expr.function.injEq] at same
      obtain ⟨rfl, rfl, rfl⟩ := same
      exact ⟨read, rfl, rfl⟩
  | conditional _ _ _ alternative => cases alternative <;> simp [Expr.dropLeads] at same
  | _ => simp [Expr.dropLeads] at same

structure Value.ReadBy (arrangement : Arrangement) (value : Value) (read : List Token)
    (expr : Expr) : Prop where
  spells : Spells (value.render arrangement) read
  starts : headKind read ∈ operandKinds
  reads : ∀ ⦃rest : List Token⦄, EndsExpr (headKind rest) →
    (expression .lowest (read ++ rest)).Reads expr rest
  denotes : expr.Denotes value

def Value.Readable (arrangement : Arrangement) (value : Value) : Prop :=
  ∃ read expr, value.ReadBy arrangement read expr

namespace Value

variable {arrangement : Arrangement}

private theorem readable_of_operand {value : Value} {token : Token} {tail : List Token}
    {expr : Expr}
    (spells : Spells (value.render arrangement) (token :: tail))
    (starts : token.kind ∈ operandKinds)
    (reads : ∀ ⦃rest : List Token⦄, EndsExpr (headKind rest) →
      (operand token (tail ++ rest)).Reads expr rest)
    (denotes : expr.Denotes value) : value.Readable arrangement :=
  ⟨_, expr, spells, starts, fun _ ends => expression_reads_operand (reads ends) ends, denotes⟩

private theorem readable_bool (b : Bool) : (Value.bool b).Readable arrangement := by
  cases b with
  | true =>
      have is : Token.Is ⟨.kwTrue, "true"⟩ .kwTrue := ⟨rfl, Token.wellSpelled_of_spelling rfl⟩
      exact readable_of_operand (spells_token is (by decide)) (by decide)
        (fun rest _ => operand_reads_truth rfl rest) (.bool _ true)
  | false =>
      have is : Token.Is ⟨.kwFalse, "false"⟩ .kwFalse := ⟨rfl, Token.wellSpelled_of_spelling rfl⟩
      exact readable_of_operand (spells_token is (by decide)) (by decide)
        (fun rest _ => operand_reads_falsity rfl rest) (.bool _ false)

private theorem readable_negative {n : Int64} (negative : n.toInt < 0)
    (small : n.toInt.natAbs ≤ maxInteger) : (Value.int n).Readable arrangement := by
  have valueIs : -Int64.ofNat n.toInt.natAbs = n := by
    rw [← Int64.ofInt_eq_ofNat, ← Int64.ofInt_neg, Int.ofNat_natAbs_of_nonpos (le_of_lt negative),
      Int.neg_neg, Int64.ofInt_toInt]
  have spells := spells_negative n.toInt.natAbs
  rw [← Text.decimal_of_neg negative] at spells
  have denotes := Expr.Denotes.negative ⟨.minus, "-"⟩ (.numeral n.toInt.natAbs)
    (Int64.ofNat n.toInt.natAbs)
  rw [valueIs] at denotes
  refine readable_of_operand spells (by decide) (fun rest ends => ?_) denotes
  exact operand_reads_unary rfl (expression_reads_operand (operand_reads_numeral small rest) ends)

private theorem readable_nonneg {n : Int64} (nonneg : 0 ≤ n.toInt)
    (small : n.toInt.toNat ≤ maxInteger) :
    (Value.int n).Readable arrangement := by
  have valueIs : Int64.ofNat n.toInt.toNat = n := by
    rw [← Int64.ofInt_eq_ofNat, Int.toNat_of_nonneg nonneg, Int64.ofInt_toInt]
  have spells := spells_numeral n.toInt.toNat
  rw [← Text.decimal_natCast, Int.toNat_of_nonneg nonneg] at spells
  refine readable_of_operand spells (by decide : TokenKind.int ∈ operandKinds) (fun rest _ => ?_)
    (.int (.numeral n.toInt.toNat) n)
  have reads := operand_reads_numeral small rest
  rwa [valueIs] at reads

private theorem readable_int {n : Int64} (proper : n ≠ Int64.minValue) :
    (Value.int n).Readable arrangement := by
  have below : n.toInt < 2 ^ 63 := n.toInt_lt
  have above : -2 ^ 63 ≤ n.toInt := n.le_toInt
  have notLeast : n.toInt ≠ -2 ^ 63 := fun least =>
    proper (Int64.toInt_inj.mp (least.trans Int64.toInt_minValue.symm))
  rcases lt_or_ge n.toInt 0 with negative | nonneg
  · refine readable_negative negative ?_
    rw [maxInteger]
    omega
  · refine readable_nonneg nonneg ?_
    rw [maxInteger]
    omega

private theorem readable_function {closure : Closure} (parsed : closure.IsParsed) (ref : Ref) :
    (Value.function ref closure).Readable arrangement := by
  obtain ⟨source, token, contains⟩ := parsed
  obtain ⟨is, are, coherent⟩ := Program.coherent_of_contains contains
  have spelled := Expr.spelled_function is are (closure.body.spelled_of_coherent coherent)
  obtain ⟨tokens, written, spells, _⟩ := spelled
  obtain ⟨read, same, reads⟩ := (written_recovers (written .free)).free
  obtain ⟨body, rfl, sameBody⟩ := Expr.eq_function_of_dropLeads same
  exact ⟨tokens, _, spells, (written .free).starts, reads, .function token ref sameBody⟩

/-- The items of a list that is not empty, through the bracket that closes it. -/
theorem readable_items {first : Value} {items : List Value}
    (each : ∀ item ∈ first :: items, item.Readable arrangement) :
    ∃ read exprs, Spells (Text.join ", " (Value.renderAll arrangement (first :: items))) read ∧
      headKind read ∈ operandKinds ∧ List.Forall₂ Expr.Denotes exprs (first :: items) ∧
      ∀ ⦃closing : Token⦄, closing.kind = .closeBracket → ∀ rest,
        (moreExpressions .closeBracket (read ++ closing :: rest)).Reads exprs rest := by
  induction items generalizing first with
  | nil =>
      obtain ⟨read, expr, spells, starts, reads, denotes⟩ := each first List.mem_cons_self
      refine ⟨read, [expr], spells, starts, .cons denotes .nil, fun closing kind rest => ?_⟩
      exact moreExpressions_reads_last kind (by decide)
        (reads (endsExpr_cons kind (by decide) rest))
  | cons second items ih =>
      obtain ⟨read, expr, spells, starts, reads, denotes⟩ := each first List.mem_cons_self
      obtain ⟨readRest, exprs, spellsRest, _, denoteRest, readsRest⟩ :=
        ih fun item member => each item (List.mem_cons_of_mem _ member)
      refine ⟨(read ++ [⟨.comma, ","⟩]) ++ readRest, expr :: exprs, ?_, ?_,
        .cons denotes denoteRest, fun closing kind rest => ?_⟩
      · exact (spells.append_seals seals_comma rfl).append_spells spellsRest
      · rw [List.append_assoc]
        exact starts_append starts _
      · rw [List.append_assoc, List.append_assoc]
        exact moreExpressions_reads_more rfl (reads (endsExpr_cons rfl (by decide) _))
          (readsRest kind rest)

private theorem readable_list {items : List Value}
    (each : ∀ item ∈ items, item.Readable arrangement)
    (ref : Ref) : (Value.list ref items).Readable arrangement := by
  have closing : Seals "]" [⟨.closeBracket, "]"⟩] := seals_of_last (by cbv) rfl (by decide)
  cases items with
  | nil =>
      have seals : Seals "[]" [⟨.openBracket, "["⟩, ⟨.closeBracket, "]"⟩] :=
        seals_openBracket.append closing
      refine readable_of_operand seals.spells (by decide) (fun rest _ => ?_)
        (.list ⟨.openBracket, "["⟩ ref .nil)
      refine operand_reads_list rfl ?_
      rw [expressions]
      exact Parsed.reads_done
  | cons first items =>
      obtain ⟨read, exprs, spells, starts, denote, reads⟩ := readable_items each
      have seals : Seals ((Value.list ref (first :: items)).render arrangement)
          (⟨.openBracket, "["⟩ :: (read ++ [⟨.closeBracket, "]"⟩])) :=
        (seals_openBracket.append_spells spells).append_seals closing rfl
      refine readable_of_operand seals.spells (by decide) (fun rest _ => ?_)
        (.list ⟨.openBracket, "["⟩ ref denote)
      have proper : headKind (read ++ ⟨.closeBracket, "]"⟩ :: rest) ≠ .closeBracket := by
        intro closes
        have starts' := starts_append starts (⟨.closeBracket, "]"⟩ :: rest)
        exact absurd (closes ▸ starts') (by decide)
      refine operand_reads_list rfl ?_
      rw [List.append_assoc, List.singleton_append, expressions, if_neg proper]
      exact reads rfl rest

end Value

/-! ## Texts that cannot be read -/

namespace Parsed

variable {α β : Type} {bound : Nat} {error : SyntaxError}

structure Rejects (parsed : Parsed α bound) (error : SyntaxError) : Prop where
  value_eq : parsed.value = none
  mem_errors : error ∈ parsed.errors

theorem Rejects.weaken {parsed : Parsed α bound} {larger : Nat} (rejects : parsed.Rejects error)
    (le : bound ≤ larger) : (parsed.weaken le).Rejects error :=
  ⟨rejects.value_eq, rejects.mem_errors⟩

theorem Rejects.map {parsed : Parsed α bound} (rejects : parsed.Rejects error) (f : α → β) :
    (parsed.map f).Rejects error := by
  refine ⟨?_, rejects.mem_errors⟩
  rw [Parsed.map, rejects.value_eq, Option.map_none]

theorem Rejects.andThen {parsed : Parsed α bound} (rejects : parsed.Rejects error)
    (next : α → (rest : List Token) → rest.length ≤ bound → Parsed β rest.length) :
    (parsed.andThen next).Rejects error := by
  simp only [Parsed.andThen, rejects.value_eq]
  exact ⟨rfl, rejects.mem_errors⟩

private theorem Reads.andThen_rejects {parsed : Parsed α bound}
    {next : α → (rest : List Token) → rest.length ≤ bound → Parsed β rest.length}
    {value : α} {rest : List Token} (first : parsed.Reads value rest)
    (second : ∀ le, (next value rest le).Rejects error) : (parsed.andThen next).Rejects error := by
  obtain ⟨valueIs, rfl, _⟩ := first
  have following := second parsed.rest_le
  simp only [Parsed.andThen, valueIs]
  exact ⟨following.value_eq, List.mem_append_right _ following.mem_errors⟩

end Parsed

namespace Parser

variable {error : SyntaxError} {token : Token} {tokens rest : List Token}

private theorem operand_rejects_numeral {n : Nat} (large : maxInteger < n) (rest : List Token) :
    (operand (.numeral n) rest).Rejects (.integerTooLarge (Token.numeral n).text) := by
  have kind : (Token.numeral n).kind = .int := (Token.numeral_is n).1
  rw [operand]
  simp only [kind, integer, digitsValue_numeral, if_neg (not_le_of_gt large)]
  exact ⟨rfl, List.mem_singleton_self _⟩

/-- A malformed operand makes the expression malformed, whatever operators follow. -/
theorem expression_rejects {minimum : Precedence} (rejects : (operand token rest).Rejects error) :
    (expression minimum (token :: rest)).Rejects error := by
  rw [expression, expressionFrom]
  exact (rejects.andThen _).weaken _

private theorem operand_rejects_negative (kind : token.kind = .minus)
    (rejects : (expression .unary tokens).Rejects error) :
    (operand token tokens).Rejects error := by
  rw [operand]
  simp only [kind]
  exact rejects.map _

private theorem moreExpressions_rejects_first {close : TokenKind}
    (rejects : (expression .lowest tokens).Rejects error) :
    (moreExpressions close tokens).Rejects error := by
  rw [moreExpressions]
  exact rejects.andThen _

private theorem moreExpressions_rejects_later {close : TokenKind} {comma : Token} {expr : Expr}
    (commaKind : comma.kind = .comma)
    (reads : (expression .lowest tokens).Reads expr (comma :: rest))
    (rejects : (moreExpressions close rest).Rejects error) :
    (moreExpressions close tokens).Rejects error := by
  rw [moreExpressions]
  refine reads.andThen_rejects fun _ => ?_
  simp only [if_pos commaKind]
  exact (rejects.map _).weaken _

private theorem operand_rejects_list (kind : token.kind = .openBracket)
    (proper : headKind tokens ≠ .closeBracket)
    (rejects : (moreExpressions .closeBracket tokens).Rejects error) :
    (operand token tokens).Rejects error := by
  rw [operand]
  simp only [kind]
  rw [expressions, if_neg proper]
  exact rejects.map _

private theorem statements_reject (starts : token.kind ∈ operandKinds)
    (rejects : (operand token rest).Rejects error) :
    error ∈ (statements (token :: rest)).2 := by
  have statementRejects : (statement token rest).Rejects error := by
    rw [statement]
    split
    next kind => exact absurd (kind ▸ starts) (by decide)
    next kind => exact absurd (kind ▸ starts) (by decide)
    next =>
      rw [expressionFrom]
      exact (rejects.andThen _).andThen _
  rw [statements_cons]
  exact List.mem_append_left _ statementRejects.mem_errors

end Parser

namespace Value

variable {arrangement : Arrangement}

def leastTooLarge : SyntaxError := .integerTooLarge "9223372036854775808"

/-- The text of the value, with something behind it that is neither a letter nor a digit, starts an
expression that is malformed because of the digits of the smallest integer. -/
def Unreadable (arrangement : Arrangement) (value : Value) : Prop :=
  ∀ ⦃chars : List Char⦄, Delimited chars → ∃ token rest,
    tokens ((value.render arrangement).toList ++ chars) = token :: rest ∧
      token.kind ∈ operandKinds ∧ (operand token rest).Rejects leastTooLarge

private theorem unreadable_minValue : (Value.int Int64.minValue).Unreadable arrangement := by
  intro chars delimited
  have large : maxInteger < 2 ^ 63 := by decide
  have text : (Token.numeral (2 ^ 63)).text = "9223372036854775808" := rfl
  have rendered : (Value.int Int64.minValue).render arrangement =
      "-" ++ (Token.numeral (2 ^ 63)).text := Text.decimal_of_neg (by decide)
  refine ⟨⟨.minus, "-"⟩, .numeral (2 ^ 63) :: tokens chars, ?_, by decide, ?_⟩
  · rw [rendered, spells_negative _ chars delimited]
    rfl
  · have rejects := operand_rejects_numeral large (tokens chars)
    rw [text] at rejects
    exact operand_rejects_negative rfl (expression_rejects rejects)

def UnreadableItems (text : String) : Prop :=
  ∀ ⦃chars : List Char⦄, Delimited chars → ∃ token rest,
    tokens (text.toList ++ chars) = token :: rest ∧ token.kind ∈ operandKinds ∧
      (moreExpressions .closeBracket (token :: rest)).Rejects leastTooLarge

private theorem unreadableItems_first {first : Value} (unreadable : first.Unreadable arrangement)
    (others : List String) :
    UnreadableItems (Text.join ", " (first.render arrangement :: others)) := by
  have rejected : UnreadableItems (first.render arrangement) := by
    intro chars delimited
    obtain ⟨token, rest, tokensAre, starts, rejects⟩ := unreadable delimited
    exact ⟨token, rest, tokensAre, starts,
      moreExpressions_rejects_first (expression_rejects rejects)⟩
  cases others with
  | nil => exact rejected
  | cons second others =>
      intro chars _
      -- The comma behind the item is neither a letter nor a digit.
      rw [Text.join_cons_cons, String.toList_append, String.toList_append, List.append_assoc,
        List.append_assoc]
      exact rejected (delimited_append rfl _)

private theorem unreadableItems_later {first : Value} {second : String} {others : List String}
    (readable : first.Readable arrangement)
    (unreadable : UnreadableItems (Text.join ", " (second :: others))) :
    UnreadableItems (Text.join ", " (first.render arrangement :: second :: others)) := by
  obtain ⟨read, expr, spells, starts, reads, _⟩ := readable
  intro chars delimited
  obtain ⟨token', rest', tokensAre, _, rejects⟩ := unreadable delimited
  have split := spells.append_seals seals_comma rfl
    ((Text.join ", " (second :: others)).toList ++ chars)
  rw [tokensAre, List.append_assoc] at split
  cases read with
  | nil => exact absurd starts (by decide)
  | cons token tail =>
      refine ⟨token, tail ++ ⟨.comma, ","⟩ :: token' :: rest', ?_, starts, ?_⟩
      · rw [Text.join_cons_cons, String.toList_append, List.append_assoc]
        exact split
      · exact moreExpressions_rejects_later rfl (reads (endsExpr_cons rfl (by decide) _)) rejects

/-- Reading stops at the first item that holds the smallest integer; those before it are read. -/
theorem unreadable_items {items : List Value}
    (readable : ∀ item ∈ items, ¬ item.HoldsInt Int64.minValue → item.Readable arrangement)
    (unreadable : ∀ item ∈ items, item.HoldsInt Int64.minValue → item.Unreadable arrangement)
    (least : ∃ item ∈ items, item.HoldsInt Int64.minValue) :
    UnreadableItems (Text.join ", " (Value.renderAll arrangement items)) := by
  induction items with
  | nil => simp at least
  | cons first items ih =>
      simp only [List.forall_mem_cons, List.exists_mem_cons_iff] at readable unreadable least
      by_cases holds : first.HoldsInt Int64.minValue
      · exact unreadableItems_first (unreadable.1 holds) _
      · have later := least.resolve_left holds
        cases items with
        | nil => simp at later
        | cons second items =>
            exact unreadableItems_later (readable.1 holds) (ih readable.2 unreadable.2 later)

private theorem unreadable_list {items : List Value}
    (readable : ∀ item ∈ items, ¬ item.HoldsInt Int64.minValue → item.Readable arrangement)
    (unreadable : ∀ item ∈ items, item.HoldsInt Int64.minValue → item.Unreadable arrangement)
    (least : ∃ item ∈ items, item.HoldsInt Int64.minValue) (ref : Ref) :
    (Value.list ref items).Unreadable arrangement := by
  intro chars _
  have closed : Delimited ("]".toList ++ chars) := delimited_append rfl chars
  obtain ⟨token, rest, tokensAre, starts, rejects⟩ :=
    unreadable_items readable unreadable least closed
  have proper : headKind (token :: rest) ≠ .closeBracket := by
    intro closes
    exact absurd (closes ▸ starts : TokenKind.closeBracket ∈ operandKinds) (by decide)
  refine ⟨⟨.openBracket, "["⟩, token :: rest, ?_, by decide,
    operand_rejects_list rfl proper rejects⟩
  rw [Value.render, String.toList_append, String.toList_append, List.append_assoc,
    List.append_assoc, seals_openBracket, tokensAre]
  rfl

/-- The text of a value is read back unless it holds the smallest integer. -/
theorem Literal.readable_or_unreadable {value : Value} (literal : value.Literal) :
    (¬ value.HoldsInt Int64.minValue → value.Readable arrangement) ∧
      (value.HoldsInt Int64.minValue → value.Unreadable arrangement) := by
  induction literal with
  | int n =>
      rw [holdsInt_int_iff]
      exact ⟨readable_int, fun least => least ▸ unreadable_minValue⟩
  | bool b => exact ⟨fun _ => readable_bool b, fun holds => absurd holds (not_holdsInt_bool _ b)⟩
  | function ref parsed =>
      exact ⟨fun _ => readable_function parsed ref,
        fun holds => absurd holds (not_holdsInt_function _ ref _)⟩
  | list ref _ ih =>
      rw [holdsInt_list_iff]
      constructor
      · intro free
        refine readable_list (fun item member => ?_) ref
        exact (ih item member).1 fun holds => free ⟨item, member, holds⟩
      · intro holds
        exact unreadable_list (fun item member => (ih item member).1)
          (fun item member => (ih item member).2) holds ref

/-! ## Both outcomes -/

/-- The text of a readable value is a program whose value is a copy. -/
theorem Readable.parse_and_run {value : Value} (readable : value.Readable arrangement) :
    ∃ program, Program.ofSource (value.render arrangement) = .ok program ∧
      ∀ limit env machine, ∃ copy nextRef,
        program.run limit env machine = (.ok (some copy), { machine with nextRef := nextRef }) ∧
          copy.CopyOf value := by
  obtain ⟨read, expr, spells, starts, reads, denotes⟩ := readable
  have tokensAre : tokens (value.render arrangement).toList = read := by
    have atEnd := spells [] (fun _ member => by cases member)
    simpa using atEnd
  have readsAll : (expression .lowest read).Reads expr [] := by
    have readsAtEnd := @reads [] (by decide)
    rwa [List.append_nil] at readsAtEnd
  cases read with
  | nil => exact absurd starts (by decide)
  | cons token tail =>
      have statementReads := statement_reads_expr starts readsAll
      have parsed := statements_cons_of_reads statementReads statements_nil
      refine ⟨⟨[.expr token expr]⟩, ?_, fun limit env machine => ?_⟩
      · rw [Program.ofSource_eq_ok_iff, tokensAre, parsed]
        exact ⟨rfl, rfl⟩
      · obtain ⟨copy, nextRef, evaluated, same⟩ :=
          denotes.eval_copy (Value.apply limit (limit - machine.depth)) env machine
        refine ⟨copy, nextRef, Program.run_of_execute_ok ?_, same⟩
        change Stmt.evalAll _ env none [.expr token expr] machine = _
        rw [Stmt.evalAll, Stmt.eval, bind_assoc, Run.bind_of_ok _ evaluated]
        rfl

/-- The text of an unreadable value is refused, for the digits of the smallest integer. -/
theorem Unreadable.ofSource_eq_error {value : Value} (unreadable : value.Unreadable arrangement) :
    ∃ errors, Program.ofSource (value.render arrangement) = .error errors ∧
      leastTooLarge ∈ errors := by
  obtain ⟨token, rest, tokensAre, starts, rejects⟩ :=
    @unreadable [] (fun _ member => by cases member)
  rw [List.append_nil] at tokensAre
  have fault : leastTooLarge ∈ (Program.parse (value.render arrangement)).2 := by
    rw [Program.parse, tokensAre]
    exact statements_reject starts rejects
  refine ⟨_, ?_, fault⟩
  have faulty : ¬ (Program.parse (value.render arrangement)).2.isEmpty := by
    rw [List.isEmpty_iff]
    exact List.ne_nil_of_mem fault
  exact if_neg faulty

/-- The text of a value of integers, booleans, lists and functions of parsed code parses without a
fault, and evaluating it anywhere gives a copy of the value with the same text and leaves everything
but the supply of identities as it is. Only a value that holds the smallest integer outside of its
functions has a text that does not parse, because of that integer's digits. -/
theorem Literal.render_reads_back (arrangement : Arrangement) {value : Value}
    (literal : value.Literal) :
    (¬ value.HoldsInt Int64.minValue →
        ∃ program, Program.ofSource (value.render arrangement) = .ok program ∧
          ∀ limit env machine, ∃ copy nextRef,
            program.run limit env machine =
                (.ok (some copy), { machine with nextRef := nextRef }) ∧
              copy.CopyOf value ∧ copy.render arrangement = value.render arrangement) ∧
      (value.HoldsInt Int64.minValue →
        ∃ errors, Program.ofSource (value.render arrangement) = .error errors ∧
          .integerTooLarge "9223372036854775808" ∈ errors) := by
  obtain ⟨readable, unreadable⟩ := literal.readable_or_unreadable
  constructor
  · intro free
    obtain ⟨program, parsed, runs⟩ := (readable free).parse_and_run
    refine ⟨program, parsed, fun limit env machine => ?_⟩
    obtain ⟨copy, nextRef, ran, same⟩ := runs limit env machine
    exact ⟨copy, nextRef, ran, same, same.render_eq arrangement⟩
  · intro holds
    exact (unreadable holds).ofSource_eq_error

def identityClosure : Closure :=
  ⟨[⟨.ident, "x"⟩], ⟨⟨.openBrace, "\x7b"⟩, [.expr ⟨.ident, "x"⟩ (.ident ⟨.ident, "x"⟩)]⟩, ⟨0, []⟩⟩

private theorem identityClosure_isParsed : identityClosure.IsParsed := by
  have parsed : (Program.parse "fn(x) \x7b x \x7d").1 =
      ⟨[.expr ⟨.kwFn, "fn"⟩
        (.function ⟨.kwFn, "fn"⟩ identityClosure.parameters identityClosure.body)]⟩ := by
    cbv
  refine ⟨"fn(x) \x7b x \x7d", ⟨.kwFn, "fn"⟩, ?_⟩
  rw [parsed]
  exact ⟨_, List.mem_singleton_self _, .single .plain⟩

def nestedSample : Value :=
  .list 3 [.int (-5), .function 2 identityClosure, .list 1 [.bool true]]

def leastSample : Value := .list 1 [.int 7, .list 0 [.int Int64.minValue]]

theorem Literal.render_reads_back_samples :
    (nestedSample.Literal ∧ ¬ nestedSample.HoldsInt Int64.minValue ∧
        ∃ program, Program.ofSource (nestedSample.render .byInsertion) = .ok program ∧
          ∀ limit env machine, ∃ copy nextRef,
            program.run limit env machine =
                (.ok (some copy), { machine with nextRef := nextRef }) ∧
              copy.CopyOf nestedSample ∧
                copy.render .byInsertion = nestedSample.render .byInsertion) ∧
      leastSample.Literal ∧ leastSample.HoldsInt Int64.minValue ∧
        ∃ errors, Program.ofSource (leastSample.render .byInsertion) = .error errors ∧
          .integerTooLarge "9223372036854775808" ∈ errors := by
  have nested : nestedSample.Literal := by
    refine .list 3 fun item member => ?_
    simp only [List.mem_cons, List.not_mem_nil, or_false] at member
    rcases member with rfl | rfl | rfl
    · exact .int (-5)
    · exact .function 2 identityClosure_isParsed
    · exact .list 1 fun item member => List.mem_singleton.mp member ▸ .bool true
  have free : ¬ nestedSample.HoldsInt Int64.minValue := by
    have differs : (-5 : Int64) ≠ Int64.minValue := by decide
    simp [nestedSample, differs]
  have least : leastSample.Literal := by
    refine .list 1 fun item member => ?_
    simp only [List.mem_cons, List.not_mem_nil, or_false] at member
    rcases member with rfl | rfl
    · exact .int 7
    · exact .list 0 fun item member => List.mem_singleton.mp member ▸ .int Int64.minValue
  have holds : leastSample.HoldsInt Int64.minValue := by simp [leastSample]
  exact ⟨⟨nested, free, (nested.render_reads_back .byInsertion).1 free⟩, least, holds,
    (least.render_reads_back .byInsertion).2 holds⟩

end Value

end Script
