import Mathlib.Data.List.TakeWhile
import Script.Token.Lexer

/-!
# Spelling of tokens

Reading produces tokens of five forms, and the text of each form reads back as the token when
nothing behind it would make it longer.
-/

set_option autoImplicit false

namespace Script

open Lexer

namespace TokenKind

def spelling? : TokenKind → Option String
  | assign => some "="
  | plus => some "+"
  | minus => some "-"
  | star => some "*"
  | slash => some "/"
  | bang => some "!"
  | less => some "<"
  | greater => some ">"
  | equal => some "=="
  | notEqual => some "!="
  | comma => some ","
  | semicolon => some ";"
  | colon => some ":"
  | openParen => some "("
  | closeParen => some ")"
  | openBrace => some "\x7b"
  | closeBrace => some "\x7d"
  | openBracket => some "["
  | closeBracket => some "]"
  | kwFn => some "fn"
  | kwLet => some "let"
  | kwTrue => some "true"
  | kwFalse => some "false"
  | kwIf => some "if"
  | kwElse => some "else"
  | kwReturn => some "return"
  | illegal | eof | ident | int | str => none

def keywords : List TokenKind := [kwFn, kwLet, kwTrue, kwFalse, kwIf, kwElse, kwReturn]

theorem spelling_of_keyword {text : String} {kind : TokenKind}
    (reserved : keyword? text = some kind) : kind ∈ keywords ∧ kind.spelling? = some text := by
  unfold keyword? at reserved
  split at reserved
  all_goals cases reserved
  all_goals exact ⟨by decide, rfl⟩

theorem spelling_ofSymbol {c : Char} (proper : ofSymbol c ≠ illegal) :
    (ofSymbol c).spelling? = some (String.ofList [c]) := by
  revert proper
  unfold ofSymbol
  split
  all_goals first | exact fun _ => rfl | exact absurd rfl

end TokenKind

namespace Token

def StandsAlone (c : Char) : Prop :=
  isBlank c = false ∧ c ≠ '"' ∧ isNameChar c = false ∧ isDigit c = false

instance (c : Char) : Decidable (StandsAlone c) :=
  inferInstanceAs (Decidable (_ ∧ _ ∧ _ ∧ _))

/-- The tokens that reading can produce. -/
inductive WellSpelled : Token → Prop where
  | word {chars : List Char} :
      chars ≠ [] → (∀ c ∈ chars, isNameChar c = true) → WellSpelled (.word chars)
  | number {digits : List Char} :
      digits ≠ [] → (∀ c ∈ digits, isDigit c = true) → WellSpelled (.number digits)
  | quoted {chars : List Char} : (∀ c ∈ chars, c ≠ '"') → WellSpelled (.quoted chars)
  | comparison {c : Char} : c = '=' ∨ c = '!' → WellSpelled (.comparison c)
  | symbol {c : Char} : StandsAlone c → WellSpelled (.symbol c)

def written (token : Token) : List Char :=
  if token.kind = .str then '"' :: (token.text.toList ++ ['"']) else token.text.toList

/-- Whether the token would become a longer one with the character right behind it. -/
def extendedBy (token : Token) (c : Char) : Bool :=
  if token.kind ∈ TokenKind.ident :: TokenKind.keywords then isNameChar c
  else if token.kind = .int then isDigit c
  else (token.kind = .assign || token.kind = .bang) && c = '='

def Is (token : Token) (kind : TokenKind) : Prop :=
  token.kind = kind ∧ token.WellSpelled

/-! ## The five forms -/

theorem kind_word (chars : List Char) :
    (word chars).kind = .ident ∧ TokenKind.keyword? (String.ofList chars) = none ∨
      TokenKind.keyword? (String.ofList chars) = some (word chars).kind := by
  simp only [word]
  cases reserved : TokenKind.keyword? (String.ofList chars) with
  | none => exact .inl ⟨rfl, rfl⟩
  | some kind => exact .inr rfl

theorem kind_word_mem (chars : List Char) :
    (word chars).kind ∈ TokenKind.ident :: TokenKind.keywords := by
  rcases kind_word chars with ⟨named, _⟩ | reserved
  · exact List.mem_cons.mpr (.inl named)
  · exact List.mem_cons_of_mem _ (TokenKind.spelling_of_keyword reserved).1

theorem kind_word_ne_str (chars : List Char) : (word chars).kind ≠ .str := by
  intro str
  exact absurd (str ▸ kind_word_mem chars) (by decide)

theorem written_word (chars : List Char) : (word chars).written = chars := by
  rw [written, if_neg (kind_word_ne_str chars), word, String.toList_ofList]

theorem written_number (digits : List Char) : (number digits).written = digits := by
  simp [written, number]

theorem written_quoted (chars : List Char) :
    (quoted chars).written = '"' :: (chars ++ ['"']) := by
  simp [written, quoted]

theorem written_symbol (c : Char) : (symbol c).written = [c] := by
  simp only [written, symbol, TokenKind.ofSymbol, String.toList_ofList]
  split <;> rfl

theorem extendedBy_word (chars : List Char) (c : Char) :
    (word chars).extendedBy c = isNameChar c := by
  rw [extendedBy, if_pos (kind_word_mem chars)]

theorem written_comparison {c : Char} (starts : c = '=' ∨ c = '!') :
    (comparison c).written = [c, '='] := by
  rcases starts with rfl | rfl <;> decide

theorem kind_symbol_not_run (c : Char) :
    (symbol c).kind ∉ TokenKind.ident :: TokenKind.keywords ∧ (symbol c).kind ≠ .int := by
  simp only [symbol, TokenKind.ofSymbol]
  split
  all_goals decide

private theorem kind_symbol_doubles {c : Char} :
    (symbol c).kind = .assign ∨ (symbol c).kind = .bang ↔ c = '=' ∨ c = '!' := by
  constructor
  · simp only [symbol, TokenKind.ofSymbol]
    split
    all_goals simp
  · rintro (rfl | rfl)
    · exact .inl rfl
    · exact .inr rfl

theorem extendedBy_symbol {c d : Char} :
    (symbol c).extendedBy d = true ↔ (c = '=' ∨ c = '!') ∧ d = '=' := by
  obtain ⟨notWord, notNumber⟩ := kind_symbol_not_run c
  rw [extendedBy, if_neg notWord, if_neg notNumber, ← kind_symbol_doubles]
  simp

/-- The class of a token other than a name, a literal or an illegal character decides its text. -/
theorem Is.eq_of_spelling {token : Token} {kind : TokenKind} {text : String} (is : token.Is kind)
    (spelling : kind.spelling? = some text) : token = ⟨kind, text⟩ := by
  obtain ⟨rfl, spelled⟩ := is
  cases spelled with
  | @word chars _ _ =>
      rcases kind_word chars with ⟨named, _⟩ | reserved
      · rw [named] at spelling
        cases spelling
      · have same := (TokenKind.spelling_of_keyword reserved).2.symm.trans spelling
        cases same
        rfl
  | number _ _ => cases spelling
  | quoted _ => cases spelling
  | comparison starts =>
      rcases starts with rfl | rfl
      · cases spelling
        rfl
      · cases spelling
        rfl
  | @symbol c _ =>
      have proper : TokenKind.ofSymbol c ≠ .illegal := by
        intro illegal
        rw [symbol, illegal] at spelling
        cases spelling
      have same := (TokenKind.spelling_ofSymbol proper).symm.trans spelling
      cases same
      rfl

end Token

namespace Lexer

/-! ## Tokens that are read -/

theorem isNameChar_ne_quote {c : Char} (named : isNameChar c = true) : c ≠ '"' := by
  rintro rfl
  exact absurd named (by decide)

theorem isDigit_ne_quote {c : Char} (digit : isDigit c = true) : c ≠ '"' := by
  rintro rfl
  exact absurd digit (by decide)

/-- Whatever the lexer reads is well spelled. -/
theorem scan_wellSpelled {c : Char} (rest : List Char) (solid : isBlank c = false) :
    (scan c rest).1.WellSpelled := by
  unfold scan
  split
  · refine .quoted fun d member => ?_
    simpa using List.mem_takeWhile_imp member
  · next notQuote =>
    split
    · next named =>
      refine .word (List.cons_ne_nil _ _) fun d member => ?_
      rcases List.mem_cons.mp member with rfl | later
      · exact named
      · exact List.mem_takeWhile_imp later
    · next notNamed =>
      split
      · next digit =>
        refine .number (List.cons_ne_nil _ _) fun d member => ?_
        rcases List.mem_cons.mp member with rfl | later
        · exact digit
        · exact List.mem_takeWhile_imp later
      · next notDigit =>
        split
        · next doubled => exact .comparison doubled.1
        · exact .symbol ⟨solid, notQuote, by simpa using notNamed, by simpa using notDigit⟩

/-- Every token of a source is spelled as its class demands. -/
theorem tokens_wellSpelled (chars : List Char) : ∀ token ∈ tokens chars, token.WellSpelled := by
  match chars with
  | [] =>
      rw [tokens_nil]
      exact fun _ member => absurd member List.not_mem_nil
  | c :: rest =>
      cases blank : isBlank c with
      | true =>
          rw [tokens_blank rest blank]
          exact tokens_wellSpelled rest
      | false =>
          have shorter := scan_length_le c rest
          rw [tokens_cons rest blank]
          intro token member
          rcases List.mem_cons.mp member with rfl | later
          · exact scan_wellSpelled rest blank
          · exact tokens_wellSpelled (scan c rest).2 token later
termination_by chars.length
decreasing_by
  all_goals
    simp only [List.length_cons]
    omega

/-! ## Tokens that are read back -/

/-- Nothing at the start of the rest belongs to the class. -/
theorem takeWhile_dropWhile_append {p : Char → Bool} {run rest : List Char}
    (all : ∀ c ∈ run, p c = true) (ends : ∀ c ∈ rest.head?, p c = false) :
    (run ++ rest).takeWhile p = run ∧ (run ++ rest).dropWhile p = rest := by
  rw [List.takeWhile_append_of_pos all, List.dropWhile_append_of_pos all]
  cases rest with
  | nil => exact ⟨List.append_nil run, rfl⟩
  | cons c rest =>
      have stops : p c = false := ends c rfl
      have stop : ¬ p c = true := by simp [stops]
      rw [List.takeWhile_cons_of_neg stop, List.dropWhile_cons_of_neg stop]
      exact ⟨List.append_nil run, rfl⟩

theorem isBlank_iff {c : Char} :
    isBlank c = true ↔ c = ' ' ∨ c = '\t' ∨ c = '\n' ∨ c = '\r' := by
  simp [isBlank, or_assoc]

theorem not_isBlank_of_isNameChar {c : Char} (named : isNameChar c = true) :
    isBlank c = false := by
  rw [Bool.eq_false_iff, ne_eq, isBlank_iff]
  rintro (rfl | rfl | rfl | rfl) <;> exact absurd named (by decide)

theorem not_isBlank_of_isDigit {c : Char} (digit : isDigit c = true) : isBlank c = false := by
  rw [Bool.eq_false_iff, ne_eq, isBlank_iff]
  rintro (rfl | rfl | rfl | rfl) <;> exact absurd digit (by decide)

theorem not_isNameChar_of_isDigit {c : Char} (digit : isDigit c = true) :
    isNameChar c = false := by
  simp only [isDigit, isNameChar, Bool.and_eq_true, decide_eq_true_eq, Bool.or_eq_false_iff,
    Bool.and_eq_false_iff, decide_eq_false_iff_not, Char.le_def, UInt32.le_iff_toNat_le] at digit ⊢
  have nine : '9'.val.toNat = 57 := rfl
  have upper : 'A'.val.toNat = 65 := rfl
  have lower : 'a'.val.toNat = 97 := rfl
  refine ⟨⟨.inl (by omega), .inl (by omega)⟩, ?_⟩
  rintro rfl
  exact absurd digit (by decide)

theorem tokens_word {chars rest : List Char} (nonempty : chars ≠ [])
    (named : ∀ c ∈ chars, isNameChar c = true) (ends : ∀ c ∈ rest.head?, isNameChar c = false) :
    tokens (chars ++ rest) = .word chars :: tokens rest := by
  cases chars with
  | nil => exact absurd rfl nonempty
  | cons c chars =>
      have first : isNameChar c = true := named c List.mem_cons_self
      obtain ⟨taken, dropped⟩ := takeWhile_dropWhile_append
        (fun d member => named d (List.mem_cons_of_mem c member)) ends
      rw [List.cons_append, tokens_cons _ (not_isBlank_of_isNameChar first), scan,
        if_neg (isNameChar_ne_quote first), if_pos first, taken, dropped]

theorem tokens_number {digits rest : List Char} (nonempty : digits ≠ [])
    (all : ∀ c ∈ digits, isDigit c = true) (ends : ∀ c ∈ rest.head?, isDigit c = false) :
    tokens (digits ++ rest) = .number digits :: tokens rest := by
  cases digits with
  | nil => exact absurd rfl nonempty
  | cons c digits =>
      have first : isDigit c = true := all c List.mem_cons_self
      have notNamed : ¬ isNameChar c = true := by
        rw [not_isNameChar_of_isDigit first]
        decide
      obtain ⟨taken, dropped⟩ := takeWhile_dropWhile_append
        (fun d member => all d (List.mem_cons_of_mem c member)) ends
      rw [List.cons_append, tokens_cons _ (not_isBlank_of_isDigit first), scan,
        if_neg (isDigit_ne_quote first), if_neg notNamed, if_pos first, taken, dropped]

theorem tokens_quoted {chars : List Char} (quoteless : ∀ c ∈ chars, c ≠ '"') (rest : List Char) :
    tokens ('"' :: (chars ++ '"' :: rest)) = .quoted chars :: tokens rest := by
  have all : ∀ c ∈ chars, decide (c ≠ '"') = true := by simpa using quoteless
  have ends : ∀ c ∈ ('"' :: rest).head?, decide (c ≠ '"') = false := by simp
  obtain ⟨taken, dropped⟩ := takeWhile_dropWhile_append all ends
  rw [tokens_cons _ (by decide), scan, if_pos rfl, taken, dropped, List.drop_one, List.tail_cons]

theorem tokens_symbol {c : Char} {rest : List Char} (alone : Token.StandsAlone c)
    (single : c = '=' ∨ c = '!' → rest.head? ≠ some '=') :
    tokens (c :: rest) = .symbol c :: tokens rest := by
  obtain ⟨solid, notQuote, notNamed, notDigit⟩ := alone
  have notDoubled : ¬ ((c = '=' ∨ c = '!') ∧ rest.head? = some '=') := fun doubled =>
    single doubled.1 doubled.2
  rw [tokens_cons _ solid, scan, if_neg notQuote, if_neg (by simp [notNamed]),
    if_neg (by simp [notDigit]), if_neg notDoubled]

theorem tokens_comparison {c : Char} (rest : List Char) (starts : c = '=' ∨ c = '!') :
    tokens (c :: '=' :: rest) = .comparison c :: tokens rest := by
  rcases starts with rfl | rfl
  · rw [tokens_cons _ (by decide)]
    rfl
  · rw [tokens_cons _ (by decide)]
    rfl

/-- A token reads back from the way it is written, unless the next character belongs to it. -/
theorem tokens_written_append {token : Token} {rest : List Char} (spelled : token.WellSpelled)
    (ends : ∀ c ∈ rest.head?, token.extendedBy c = false) :
    tokens (token.written ++ rest) = token :: tokens rest := by
  cases spelled with
  | word nonempty named =>
      simp only [Token.extendedBy_word] at ends
      rw [Token.written_word]
      exact tokens_word nonempty named ends
  | number nonempty digits =>
      rw [Token.written_number]
      exact tokens_number nonempty digits ends
  | quoted quoteless =>
      rw [Token.written_quoted, List.cons_append, List.append_assoc]
      exact tokens_quoted quoteless rest
  | comparison starts =>
      rw [Token.written_comparison starts]
      exact tokens_comparison rest starts
  | symbol alone =>
      rw [Token.written_symbol]
      refine tokens_symbol alone fun doubles next => ?_
      exact absurd (Token.extendedBy_symbol.mpr ⟨doubles, rfl⟩) (by simp [ends '=' next])

/-! ## Texts one after the other -/

theorem dropWhile_head {p : Char → Bool} {chars : List Char} :
    ∀ c ∈ (chars.dropWhile p).head?, p c = false := by
  intro c head
  have stops := List.head?_dropWhile_not p chars
  rw [Option.mem_def.mp head] at stops
  simpa using stops

/-- What `scan` takes is a token as it is written, and the rest does not belong to it. Only a
string without its closing quote takes everything. -/
theorem scan_split (c : Char) (chars : List Char) :
    (c :: chars = (scan c chars).1.written ++ (scan c chars).2 ∧
      ∀ d ∈ (scan c chars).2.head?, (scan c chars).1.extendedBy d = false) ∨
    (c = '"' ∧ '"' ∉ chars ∧ scan c chars = (.quoted chars, [])) := by
  unfold scan
  split
  · next quote =>
    subst quote
    have parts : chars.takeWhile (· ≠ '"') ++ chars.dropWhile (· ≠ '"') = chars :=
      List.takeWhile_append_dropWhile
    cases unclosed : chars.dropWhile (· ≠ '"') with
    | nil =>
        rw [unclosed, List.append_nil] at parts
        refine .inr ⟨rfl, fun member => ?_, ?_⟩
        · rw [← parts] at member
          simpa using List.mem_takeWhile_imp member
        · rw [parts, List.drop_nil]
    | cons d rest =>
        have stops : decide (d ≠ '"') = false := dropWhile_head d (by rw [unclosed]; rfl)
        obtain rfl : d = '"' := by simpa using stops
        refine .inl ⟨?_, fun _ _ => rfl⟩
        rw [Token.written_quoted, List.cons_append, List.append_assoc, List.singleton_append,
          List.drop_one, List.tail_cons, ← unclosed, parts]
  · split
    · refine .inl ⟨?_, ?_⟩
      · rw [Token.written_word, List.cons_append, List.takeWhile_append_dropWhile]
      · simpa only [Token.extendedBy_word] using dropWhile_head
    · split
      · refine .inl ⟨?_, dropWhile_head⟩
        rw [Token.written_number, List.cons_append, List.takeWhile_append_dropWhile]
      · split
        · next doubled =>
          obtain ⟨starts, second⟩ := doubled
          obtain ⟨tail, rfl⟩ := List.head?_eq_some_iff.mp second
          refine .inl ⟨by rw [Token.written_comparison starts]; rfl, fun _ _ => ?_⟩
          rcases starts with rfl | rfl <;> rfl
        · next notDoubled =>
          refine .inl ⟨by rw [Token.written_symbol]; rfl, fun d next => ?_⟩
          rw [Bool.eq_false_iff, ne_eq, Token.extendedBy_symbol]
          rintro ⟨starts, second⟩
          exact notDoubled ⟨starts, second ▸ next⟩

/-- A text without tokens is blank. -/
theorem tokens_append_of_nil {chars : List Char} (none : tokens chars = []) (rest : List Char) :
    tokens (chars ++ rest) = tokens rest := by
  induction chars with
  | nil => rfl
  | cons c chars ih =>
      cases blank : isBlank c with
      | true =>
          rw [tokens_blank chars blank] at none
          rw [List.cons_append, tokens_blank _ blank, ih none]
      | false =>
          rw [tokens_cons chars blank] at none
          cases none

/-- When nothing extends the last token of a text, what comes behind the text is read on its
own. -/
theorem tokens_append {chars : List Char} {last : Token}
    (isLast : (tokens chars).getLast? = some last) (notStr : last.kind ≠ .str)
    (apart : ∀ c, last.extendedBy c = false) (rest : List Char) :
    tokens (chars ++ rest) = tokens chars ++ tokens rest := by
  match chars with
  | [] =>
      rw [tokens_nil] at isLast
      cases isLast
  | c :: chars =>
      cases blank : isBlank c with
      | true =>
          rw [tokens_blank chars blank] at isLast ⊢
          rw [List.cons_append, tokens_blank _ blank]
          exact tokens_append isLast notStr apart rest
      | false =>
          have spelled := scan_wellSpelled chars blank
          have shorter := scan_length_le c chars
          rw [tokens_cons chars blank] at isLast ⊢
          rcases scan_split c chars with ⟨split, ends⟩ | ⟨_, _, scanned⟩
          · rw [split, List.append_assoc, List.cons_append]
            cases others : tokens (scan c chars).2 with
            | nil =>
                rw [others] at isLast
                cases isLast
                rw [tokens_written_append spelled fun c _ => apart c,
                  tokens_append_of_nil others, List.nil_append]
            | cons token later =>
                have nonempty : (scan c chars).2 ≠ [] := by
                  intro none
                  rw [none, tokens_nil] at others
                  cases others
                obtain ⟨d, left, leftIs⟩ := List.exists_cons_of_ne_nil nonempty
                have sameHead : ((scan c chars).2 ++ rest).head? = (scan c chars).2.head? := by
                  rw [leftIs]
                  rfl
                rw [← sameHead] at ends
                rw [others, List.getLast?_cons_cons, ← others] at isLast
                rw [tokens_written_append spelled ends, ← others]
                exact congrArg _ (tokens_append isLast notStr apart rest)
          · rw [scanned, tokens_nil] at isLast
            cases isLast
            exact absurd rfl notStr
termination_by chars.length
decreasing_by
  all_goals
    simp only [List.length_cons]
    omega

end Lexer

end Script
