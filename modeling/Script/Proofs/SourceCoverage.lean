import Script.Proofs.TokenSpelling

/-!
# Tokens and the bytes of a source

Reading loses nothing. The tokens of a source stand in it one after the other, each as long as it
can be, and all that is between them is blank. Places are counted in bytes of UTF-8. The first byte
of a longer character is never an ASCII byte, so the byte behind a token can belong to it only if it
is a character of its own.
-/

set_option autoImplicit false

namespace Script

open Lexer

/-! ## The class that a text belongs to -/

inductive TokenKind.Describes : TokenKind → String → Prop where
  | spelled {kind : TokenKind} {text : String} :
      kind.spelling? = some text → Describes kind text
  | name {text : String} :
      text.toList ≠ [] → (∀ c ∈ text.toList, isNameChar c = true) →
      (∀ kind : TokenKind, kind.spelling? ≠ some text) → Describes .ident text
  | number {text : String} :
      text.toList ≠ [] → (∀ c ∈ text.toList, isDigit c = true) → Describes .int text
  | illegal {c : Char} :
      Token.StandsAlone c → (∀ kind : TokenKind, kind.spelling? ≠ some (String.ofList [c])) →
      Describes .illegal (String.ofList [c])

namespace Token

theorem wellSpelled_symbol {c : Char} {kind : TokenKind} {text : String} (alone : StandsAlone c)
    (isText : String.ofList [c] = text) (isKind : TokenKind.ofSymbol c = kind) :
    WellSpelled ⟨kind, text⟩ := by
  subst isText isKind
  exact .symbol alone

theorem wellSpelled_keyword {chars : List Char} {kind : TokenKind} {text : String}
    (nonempty : chars ≠ []) (named : chars.all isNameChar = true)
    (isText : String.ofList chars = text) (reserved : TokenKind.keyword? text = some kind) :
    WellSpelled ⟨kind, text⟩ := by
  subst isText
  have spelled := WellSpelled.word nonempty (List.all_eq_true.mp named)
  rwa [word, reserved] at spelled

theorem wellSpelled_of_spelling {kind : TokenKind} {text : String}
    (spelling : kind.spelling? = some text) : WellSpelled ⟨kind, text⟩ := by
  cases kind with
  | illegal | eof | ident | int | str => cases spelling
  | kwFn | kwLet | kwTrue | kwFalse | kwIf | kwElse | kwReturn =>
      cases spelling
      exact wellSpelled_keyword (List.cons_ne_nil _ _) rfl rfl rfl
  | equal =>
      cases spelling
      exact .comparison (.inl rfl)
  | notEqual =>
      cases spelling
      exact .comparison (.inr rfl)
  | _ =>
      cases spelling
      exact wellSpelled_symbol (by decide) rfl rfl

theorem wellSpelled_of_describes {kind : TokenKind} {text : String}
    (describes : kind.Describes text) : WellSpelled ⟨kind, text⟩ ∧ kind ≠ .str := by
  cases describes with
  | spelled spelling =>
      constructor
      · exact wellSpelled_of_spelling spelling
      · rintro rfl
        cases spelling
  | name nonempty named unreserved =>
      have spelled := WellSpelled.word nonempty named
      rw [word, String.ofList_toList] at spelled
      cases reserved : TokenKind.keyword? text with
      | some kind => exact absurd (TokenKind.spelling_of_keyword reserved).2 (unreserved kind)
      | none =>
          rw [reserved] at spelled
          exact ⟨spelled, by decide⟩
  | number nonempty digits =>
      have spelled := WellSpelled.number nonempty digits
      rw [Token.number, String.ofList_toList] at spelled
      exact ⟨spelled, by decide⟩
  | @illegal c alone unspelled =>
      have isIllegal : TokenKind.ofSymbol c = .illegal := by
        by_contra proper
        exact unspelled _ (TokenKind.spelling_ofSymbol proper)
      exact ⟨wellSpelled_symbol alone rfl isIllegal, by decide⟩

theorem kind_symbol_ne_str (c : Char) : (symbol c).kind ≠ .str := by
  simp only [symbol, TokenKind.ofSymbol]
  split <;> simp

theorem written_eq_text {token : Token} (notStr : token.kind ≠ .str) :
    token.written = token.text.toList :=
  if_neg notStr

/-- Two tokens with one text are the same, because reading the text gives both. -/
theorem WellSpelled.eq_of_text_eq {first second : Token} (spelled : first.WellSpelled)
    (spelled' : second.WellSpelled) (notStr : first.kind ≠ .str) (notStr' : second.kind ≠ .str)
    (same : first.text = second.text) : first = second := by
  have nothing : ∀ token : Token, ∀ c ∈ ([] : List Char).head?, token.extendedBy c = false := nofun
  have read := tokens_written_append spelled (nothing first)
  have read' := tokens_written_append spelled' (nothing second)
  rw [written_eq_text notStr, same] at read
  rw [written_eq_text notStr', read] at read'
  exact (List.cons.inj read').1

private theorem WellSpelled.spelling_ne {token : Token} (spelled : token.WellSpelled)
    (notStr : token.kind ≠ .str) (various : token.kind.spelling? = none) (kind : TokenKind) :
    kind.spelling? ≠ some token.text := by
  intro spelling
  have notStr' : kind ≠ .str := by
    rintro rfl
    cases spelling
  have same := spelled.eq_of_text_eq (wellSpelled_of_spelling spelling) notStr notStr' rfl
  rw [same] at various
  rw [various] at spelling
  cases spelling

/-- The text of a token is one that its class allows. -/
theorem WellSpelled.describes {token : Token} (spelled : token.WellSpelled)
    (notStr : token.kind ≠ .str) : token.kind.Describes token.text := by
  have unspelled := spelled.spelling_ne notStr
  cases spelled with
  | @word chars nonempty named =>
      rcases kind_word chars with ⟨isName, _⟩ | reserved
      · rw [isName] at unspelled ⊢
        refine .name ?_ ?_ (unspelled rfl)
        · rw [Token.word, String.toList_ofList]
          exact nonempty
        · rw [Token.word, String.toList_ofList]
          exact named
      · exact .spelled (TokenKind.spelling_of_keyword reserved).2
  | @number digits nonempty all =>
      refine .number ?_ ?_
      · rw [Token.number, String.toList_ofList]
        exact nonempty
      · rw [Token.number, String.toList_ofList]
        exact all
  | quoted _ => exact absurd rfl notStr
  | comparison starts =>
      rcases starts with rfl | rfl
      · exact .spelled rfl
      · exact .spelled rfl
  | @symbol c alone =>
      by_cases isIllegal : TokenKind.ofSymbol c = .illegal
      · rw [Token.symbol, isIllegal] at unspelled ⊢
        exact .illegal alone (unspelled rfl)
      · exact .spelled (TokenKind.spelling_ofSymbol isIllegal)

/-- The text of a token decides its class. -/
theorem WellSpelled.describes_iff {token : Token} (spelled : token.WellSpelled)
    (notStr : token.kind ≠ .str) (kind : TokenKind) :
    kind.Describes token.text ↔ kind = token.kind := by
  constructor
  · intro describes
    obtain ⟨spelled', notStr'⟩ := wellSpelled_of_describes describes
    exact congrArg Token.kind (spelled'.eq_of_text_eq spelled notStr' notStr rfl)
  · rintro rfl
    exact spelled.describes notStr

/-- Exactly the strings start with a quote. -/
theorem WellSpelled.head_written {token : Token} (spelled : token.WellSpelled) :
    ∃ c, token.written.head? = some c ∧ (c = '"' ↔ token.kind = .str) := by
  cases spelled with
  | @word chars nonempty named =>
      obtain ⟨c, rest, rfl⟩ := List.exists_cons_of_ne_nil nonempty
      rw [written_word]
      refine ⟨c, rfl, ?_⟩
      have notQuote := isNameChar_ne_quote (named c List.mem_cons_self)
      simp [notQuote, kind_word_ne_str]
  | @number digits nonempty all =>
      obtain ⟨c, rest, rfl⟩ := List.exists_cons_of_ne_nil nonempty
      rw [written_number]
      refine ⟨c, rfl, ?_⟩
      have notQuote := isDigit_ne_quote (all c List.mem_cons_self)
      simp [notQuote, Token.number]
  | quoted _ =>
      rw [written_quoted]
      exact ⟨'"', rfl, fun _ => rfl, fun _ => rfl⟩
  | comparison starts =>
      rw [written_comparison starts]
      rcases starts with rfl | rfl
      · exact ⟨'=', rfl, by decide⟩
      · exact ⟨'!', rfl, by decide⟩
  | @symbol c alone =>
      rw [written_symbol]
      refine ⟨c, rfl, ?_⟩
      simp [alone.2.1, kind_symbol_ne_str]

theorem WellSpelled.quoteless {token : Token} (spelled : token.WellSpelled)
    (isStr : token.kind = .str) : '"' ∉ token.text.toList := by
  cases spelled with
  | @word chars _ _ => exact absurd isStr (kind_word_ne_str chars)
  | number _ _ => cases isStr
  | quoted quoteless =>
      rw [Token.quoted, String.toList_ofList]
      exact fun member => quoteless '"' member rfl
  | comparison starts => rcases starts with rfl | rfl <;> cases isStr
  | @symbol c _ => exact absurd isStr (kind_symbol_ne_str c)

end Token

namespace Lexer

/-! ## Calls -/

def call (chars : List Char) : Nat → Token
  | 0 => (next chars).1
  | number + 1 => call (next chars).2 number

private theorem next_of_eof {chars : List Char} (ended : (next chars).1.kind = .eof) :
    next chars = (.endOfInput, []) := by
  unfold next at ended ⊢
  split
  · rfl
  · next c rest shape =>
    rw [shape] at ended
    exact absurd ended (scan_kind_ne_eof c rest)

private theorem call_nil (number : Nat) : call [] number = .endOfInput := by
  induction number with
  | zero => rfl
  | succ number ih => exact ih

/-- The calls give the tokens one after the other, and then the end of input for ever. -/
theorem call_eq_getD (chars : List Char) (number : Nat) :
    call chars number = (tokens chars)[number]?.getD .endOfInput := by
  induction number generalizing chars with
  | zero =>
      rw [tokens]
      split
      · rfl
      · next ended =>
        rw [call, next_of_eof (by simpa using ended)]
        rfl
  | succ number ih =>
      rw [call, tokens]
      split
      · rw [ih, List.getElem?_cons_succ]
      · next ended =>
        rw [next_of_eof (by simpa using ended), call_nil]
        rfl

/-- The end of the source is no token of it. -/
theorem tokens_kind_ne_eof {chars : List Char} {token : Token} (member : token ∈ tokens chars) :
    token.kind ≠ .eof := by
  fun_induction tokens chars with
  | case1 chars proper ih =>
      rcases List.mem_cons.mp member with rfl | later
      · exact proper
      · exact ih later
  | case2 => cases member

private theorem call_of_eof {chars : List Char} {first later : Nat}
    (ended : (call chars first).kind = .eof)
    (notBefore : first ≤ later) : call chars later = .endOfInput := by
  rw [call_eq_getD] at ended ⊢
  have beyond : (tokens chars).length ≤ first := by
    refine Nat.le_of_not_lt fun before => ?_
    rw [List.getElem?_eq_getElem before] at ended
    exact tokens_kind_ne_eof (List.getElem_mem before) ended
  rw [List.getElem?_eq_none (Nat.le_trans beyond notBefore)]
  rfl

/-! ## Layout -/

/-- Blanks and written tokens, none of which the character behind it would extend. Only the last
token can be a string without its closing quote. -/
inductive LaidOut : List Char → List Token → Prop where
  | done : LaidOut [] []
  | blank {c : Char} {rest : List Char} {later : List Token} :
      isBlank c = true → LaidOut rest later → LaidOut (c :: rest) later
  | token {token : Token} {rest : List Char} {later : List Token} :
      token.WellSpelled → (∀ c ∈ rest.head?, token.extendedBy c = false) →
      LaidOut rest later → LaidOut (token.written ++ rest) (token :: later)
  | unclosed {chars : List Char} :
      '"' ∉ chars → LaidOut ('"' :: chars) [.quoted chars]

private theorem tokens_laidOut (chars : List Char) : LaidOut chars (tokens chars) := by
  match chars with
  | [] =>
      rw [tokens_nil]
      exact .done
  | c :: rest =>
      cases blank : isBlank c with
      | true =>
          rw [tokens_blank rest blank]
          exact .blank blank (tokens_laidOut rest)
      | false =>
          have shorter := scan_length_le c rest
          rw [tokens_cons rest blank]
          rcases scan_split c rest with ⟨split, ends⟩ | ⟨rfl, quoteless, scanned⟩
          · rw [split]
            exact .token (scan_wellSpelled rest blank) ends (tokens_laidOut (scan c rest).2)
          · rw [scanned, tokens_nil]
            exact .unclosed quoteless
termination_by chars.length
decreasing_by
  all_goals
    simp only [List.length_cons]
    omega

/-! ## Bytes -/

def bytes (text : String) : List UInt8 := text.toUTF8.data.toList

def encode (chars : List Char) : List UInt8 := chars.flatMap String.utf8EncodeChar

theorem bytes_eq_encode (text : String) : bytes text = encode text.toList := by
  have encoded : (String.ofList text.toList).toByteArray = text.toList.utf8Encode :=
    String.toByteArray_ofList
  rw [String.ofList_toList] at encoded
  rw [bytes, String.toUTF8_eq_toByteArray, encoded, List.utf8Encode, List.data_toByteArray]
  rfl

@[simp]
theorem encode_append (first second : List Char) :
    encode (first ++ second) = encode first ++ encode second :=
  List.flatMap_append

theorem encode_ne_nil {chars : List Char} (nonempty : chars ≠ []) : encode chars ≠ [] := by
  cases chars with
  | nil => exact absurd rfl nonempty
  | cons c rest =>
      intro none
      have first : String.utf8EncodeChar c = [] := (List.append_eq_nil_iff.mp none).1
      exact String.utf8EncodeChar_ne_nil first

/-- An ASCII byte occurs in no character but the one that it is. -/
theorem eq_ofUInt8_of_mem {c : Char} {byte : UInt8} (member : byte ∈ String.utf8EncodeChar c)
    (ascii : byte.toNat < 128) : c = .ofUInt8 byte := by
  have same : c.val.toNat = byte.toNat := by
    simp only [String.utf8EncodeChar] at member
    split at member
    · obtain rfl := List.mem_singleton.mp member
      rw [UInt8.toNat_ofNat']
      omega
    -- The bytes of a longer encoding are at least 128.
    · exfalso
      split at member
      · simp only [List.mem_cons, List.not_mem_nil, or_false] at member
        rcases member with rfl | rfl <;> (rw [UInt8.toNat_ofNat'] at ascii; omega)
      · split at member
        · simp only [List.mem_cons, List.not_mem_nil, or_false] at member
          rcases member with rfl | rfl | rfl <;> (rw [UInt8.toNat_ofNat'] at ascii; omega)
        · simp only [List.mem_cons, List.not_mem_nil, or_false] at member
          rcases member with rfl | rfl | rfl | rfl <;> (rw [UInt8.toNat_ofNat'] at ascii; omega)
  apply Char.ext
  apply UInt32.toNat_inj.mp
  rw [same]
  rfl

theorem eq_ofUInt8_of_head {c : Char} {byte : UInt8}
    (isHead : (String.utf8EncodeChar c).head? = some byte) (ascii : byte.toNat < 128) :
    c = .ofUInt8 byte :=
  eq_ofUInt8_of_mem (List.mem_of_head? isHead) ascii

theorem head_of_head_encode {chars : List Char} {byte : UInt8}
    (isHead : (encode chars).head? = some byte) (ascii : byte.toNat < 128) :
    chars.head? = some (.ofUInt8 byte) := by
  cases chars with
  | nil => cases isHead
  | cons c rest =>
      have first : (String.utf8EncodeChar c).head? = some byte := by
        cases encoded : String.utf8EncodeChar c with
        | nil => exact absurd encoded String.utf8EncodeChar_ne_nil
        | cons lead trail =>
            rw [encode, List.flatMap_cons, encoded] at isHead
            exact isHead
      rw [List.head?_cons, eq_ofUInt8_of_head first ascii]

private theorem encode_written_of_ne_str {token : Token} (notStr : token.kind ≠ .str) :
    encode token.written = bytes token.text := by
  rw [Token.written_eq_text notStr, bytes_eq_encode]

private theorem encode_written_of_str {token : Token} (isStr : token.kind = .str) :
    encode token.written = '"'.toUInt8 :: (bytes token.text ++ ['"'.toUInt8]) := by
  rw [Token.written, if_pos isStr, bytes_eq_encode, ← List.singleton_append, encode_append,
    encode_append]
  rfl

theorem getElem?_encode_append (before rest : List Char) :
    (encode (before ++ rest))[(encode before).length]? = (encode rest).head? := by
  rw [encode_append, List.getElem?_append_right (Nat.le_refl _), Nat.sub_self,
    List.head?_eq_getElem?]

theorem isNameChar_ascii {c : Char} (named : isNameChar c = true) : c.toNat < 128 := by
  simp only [isNameChar, Bool.or_eq_true, Bool.and_eq_true, decide_eq_true_eq, Char.le_def,
    UInt32.le_iff_toNat_le] at named
  have lower : 'z'.val.toNat = 122 := rfl
  have upper : 'Z'.val.toNat = 90 := rfl
  change c.val.toNat < 128
  rcases named with (⟨_, small⟩ | ⟨_, small⟩) | rfl
  · omega
  · omega
  · decide

theorem isDigit_ascii {c : Char} (digit : isDigit c = true) : c.toNat < 128 := by
  simp only [isDigit, Bool.and_eq_true, decide_eq_true_eq, Char.le_def,
    UInt32.le_iff_toNat_le] at digit
  have nine : '9'.val.toNat = 57 := rfl
  change c.val.toNat < 128
  omega

private theorem extendedBy_ascii {token : Token} {c : Char} (longer : token.extendedBy c = true) :
    c.toNat < 128 := by
  unfold Token.extendedBy at longer
  split at longer
  · exact isNameChar_ascii longer
  · split at longer
    · exact isDigit_ascii longer
    · obtain rfl : c = '=' := by simpa using (Bool.and_eq_true_iff.mp longer).2
      decide

/-! ## Places -/

structure Lexeme where
  token : Token
  start : Nat
  stop : Nat

namespace Lexeme

def range (lexeme : Lexeme) (source : List UInt8) : List UInt8 :=
  (source.drop lexeme.start).take (lexeme.stop - lexeme.start)

/-- The bytes of the lexeme are those of its token, as many as they can be. -/
structure StandsIn (lexeme : Lexeme) (source : List UInt8) : Prop where
  inside : lexeme.start < lexeme.stop ∧ lexeme.stop ≤ source.length
  str : lexeme.token.kind = .str ↔ source[lexeme.start]? = some '"'.toUInt8
  text : lexeme.token.kind ≠ .str → lexeme.range source = bytes lexeme.token.text
  kind : lexeme.token.kind ≠ .str →
    ∀ kind : TokenKind, kind.Describes lexeme.token.text ↔ kind = lexeme.token.kind
  quoteless : lexeme.token.kind = .str → '"' ∉ lexeme.token.text.toList
  quoted : lexeme.token.kind = .str →
    lexeme.range source = '"'.toUInt8 :: (bytes lexeme.token.text ++ ['"'.toUInt8]) ∨
      lexeme.range source = '"'.toUInt8 :: bytes lexeme.token.text ∧
        lexeme.stop = source.length
  longest : ∀ byte ∈ source[lexeme.stop]?, lexeme.token.extendedBy (.ofUInt8 byte) = false

def behind (before : List Char) (token : Token) (taken : List Char) : Lexeme :=
  ⟨token, (encode before).length, (encode (before ++ taken)).length⟩

variable {before taken rest : List Char} {token : Token}

theorem behind_inside (nonempty : taken ≠ []) :
    (behind before token taken).start < (behind before token taken).stop ∧
      (behind before token taken).stop ≤ (encode (before ++ taken ++ rest)).length := by
  have positive := List.length_pos_iff.mpr (encode_ne_nil nonempty)
  simp only [behind, encode_append, List.length_append]
  omega

theorem range_behind :
    (behind before token taken).range (encode (before ++ taken ++ rest)) = encode taken := by
  simp [behind, range]

theorem start_byte_behind {c : Char} (isHead : taken.head? = some c) :
    (encode (before ++ taken ++ rest))[(behind before token taken).start]? =
        some '"'.toUInt8 ↔ c = '"' := by
  obtain ⟨taken, rfl⟩ := List.head?_eq_some_iff.mp isHead
  rw [List.append_assoc, behind, getElem?_encode_append]
  constructor
  · intro quote
    exact Option.some.inj (head_of_head_encode quote (by decide))
  · rintro rfl
    rfl

/-- The byte behind a lexeme would not make its token longer. -/
theorem longest_behind (ends : ∀ c ∈ rest.head?, token.extendedBy c = false) :
    ∀ byte ∈ (encode (before ++ taken ++ rest))[(behind before token taken).stop]?,
      token.extendedBy (.ofUInt8 byte) = false := by
  intro byte next
  rw [behind, getElem?_encode_append] at next
  cases longer : token.extendedBy (.ofUInt8 byte) with
  | false => rfl
  | true =>
      have isHead := head_of_head_encode next (extendedBy_ascii longer)
      exact longer.symm.trans (ends _ isHead)

/-- A token as it is written stands in a source. -/
theorem standsIn_of_written (before : List Char) (spelled : token.WellSpelled)
    (ends : ∀ c ∈ rest.head?, token.extendedBy c = false) :
    (behind before token token.written).StandsIn (encode (before ++ token.written ++ rest)) := by
  obtain ⟨c, isHead, quote⟩ := spelled.head_written
  have nonempty : token.written ≠ [] := by
    intro none
    rw [none] at isHead
    cases isHead
  exact {
    inside := behind_inside nonempty
    str := quote.symm.trans (start_byte_behind isHead).symm
    text := fun notStr => range_behind.trans (encode_written_of_ne_str notStr)
    kind := spelled.describes_iff
    quoteless := spelled.quoteless
    quoted := fun isStr => .inl (range_behind.trans (encode_written_of_str isStr))
    longest := longest_behind ends }

/-- A string without its closing quote stands at the end of a source. -/
theorem standsIn_of_unclosed (before : List Char) {chars : List Char} (quoteless : '"' ∉ chars) :
    (behind before (.quoted chars) ('"' :: chars)).StandsIn (encode (before ++ '"' :: chars)) := by
  have source : before ++ '"' :: chars = before ++ '"' :: chars ++ [] := (List.append_nil _).symm
  have isText : (Token.quoted chars).text.toList = chars := String.toList_ofList
  exact {
    inside := source ▸ behind_inside (List.cons_ne_nil _ _)
    str := by
      rw [source, start_byte_behind rfl]
      exact ⟨fun _ => rfl, fun _ => rfl⟩
    text := fun notStr => absurd rfl notStr
    kind := fun notStr => absurd rfl notStr
    quoteless := fun _ => by
      rw [behind, isText]
      exact quoteless
    quoted := fun _ => by
      refine .inr ⟨?_, rfl⟩
      rw [source, range_behind, bytes_eq_encode, behind, isText]
      rfl
    longest := source ▸ longest_behind nofun }

end Lexeme

/-- The lexemes stand one behind the other from the offset on, and all else is blank. -/
structure Cover (source : List UInt8) (offset : Nat) (lexemes : List Lexeme) : Prop where
  ordered : lexemes.Pairwise fun first second => first.stop ≤ second.start
  behind : ∀ lexeme ∈ lexemes, offset ≤ lexeme.start
  stands : ∀ lexeme ∈ lexemes, lexeme.StandsIn source
  blank : ∀ place byte, offset ≤ place → source[place]? = some byte →
    (∀ lexeme ∈ lexemes, ¬ (lexeme.start ≤ place ∧ place < lexeme.stop)) →
    byte ∈ [' ', '\t', '\n', '\r'].map Char.toUInt8

namespace Cover

variable {source : List UInt8} {offset : Nat} {lexemes : List Lexeme}

theorem nil : Cover source source.length [] where
  ordered := .nil
  behind := nofun
  stands := nofun
  blank := fun place byte atEnd here _ => by
    rw [List.getElem?_eq_none atEnd] at here
    cases here

theorem skip {byte : UInt8} (cover : Cover source (offset + 1) lexemes)
    (here : source[offset]? = some byte)
    (isBlank : byte ∈ [' ', '\t', '\n', '\r'].map Char.toUInt8) :
    Cover source offset lexemes where
  ordered := cover.ordered
  behind := fun lexeme member => Nat.le_of_succ_le (cover.behind lexeme member)
  stands := cover.stands
  blank := fun place byte' notBefore there outside => by
    rcases Nat.eq_or_lt_of_le notBefore with rfl | later
    · obtain rfl := Option.some.inj (here.symm.trans there)
      exact isBlank
    · exact cover.blank place byte' later there outside

theorem cons {lexeme : Lexeme} (cover : Cover source lexeme.stop lexemes)
    (stands : lexeme.StandsIn source) : Cover source lexeme.start (lexeme :: lexemes) where
  ordered := .cons cover.behind cover.ordered
  behind := fun other member => by
    rcases List.mem_cons.mp member with rfl | later
    · exact Nat.le_refl _
    · exact Nat.le_trans (Nat.le_of_lt stands.inside.1) (cover.behind other later)
  stands := List.forall_mem_cons.mpr ⟨stands, cover.stands⟩
  blank := fun place byte notBefore here outside => by
    obtain ⟨notHere, notLater⟩ := List.forall_mem_cons.mp outside
    exact cover.blank place byte (by omega) here notLater

/-- Nothing follows what ends where the source ends. -/
theorem getLast_of_stop (cover : Cover source offset lexemes) {lexeme : Lexeme}
    (member : lexeme ∈ lexemes) (atEnd : lexeme.stop = source.length) :
    lexemes.getLast? = some lexeme := by
  obtain ⟨earlier, later, rfl⟩ := List.append_of_mem member
  cases later with
  | nil => exact List.getLast?_concat
  | cons other later =>
      have ordered := (List.pairwise_append.mp cover.ordered).2.1
      have order : lexeme.stop ≤ other.start := List.rel_of_pairwise_cons ordered List.mem_cons_self
      have inside := (cover.stands other (by simp)).inside
      omega

end Cover

private theorem LaidOut.exists_cover {chars : List Char} {read : List Token}
    (laidOut : LaidOut chars read)
    (before : List Char) :
    ∃ lexemes : List Lexeme, lexemes.map Lexeme.token = read ∧
      Cover (encode (before ++ chars)) (encode before).length lexemes := by
  induction laidOut generalizing before with
  | done =>
      rw [List.append_nil]
      exact ⟨[], rfl, .nil⟩
  | @blank c rest _ isBlank _ ih =>
      obtain ⟨lexemes, tokens, cover⟩ := ih (before ++ [c])
      have single : encode [c] = [c.toUInt8] ∧
          c.toUInt8 ∈ [' ', '\t', '\n', '\r'].map Char.toUInt8 := by
        rcases isBlank_iff.mp isBlank with rfl | rfl | rfl | rfl
        all_goals exact ⟨rfl, by decide⟩
      have here : (encode (before ++ c :: rest))[(encode before).length]? = some c.toUInt8 := by
        rw [getElem?_encode_append, ← List.singleton_append, encode_append, single.1]
        rfl
      rw [encode_append before [c], single.1, List.length_append, List.append_assoc] at cover
      exact ⟨lexemes, tokens, cover.skip here single.2⟩
  | @token token rest _ spelled ends _ ih =>
      obtain ⟨lexemes, tokens, cover⟩ := ih (before ++ token.written)
      refine ⟨.behind before token token.written :: lexemes, congrArg _ tokens, ?_⟩
      rw [← List.append_assoc]
      exact .cons cover (Lexeme.standsIn_of_written before spelled ends)
  | @unclosed chars quoteless =>
      refine ⟨[.behind before (.quoted chars) ('"' :: chars)], rfl, ?_⟩
      exact .cons .nil (Lexeme.standsIn_of_unclosed before quoteless)

/-- Reading loses nothing. The calls before the first end of input give the tokens of lexemes that
cover the source, a string that lacks its closing quote is the last of them, and after the first end
of input there is no other answer. -/
theorem calls_cover_source (source : String) :
    ∃ lexemes : List Lexeme,
      Cover (bytes source) 0 lexemes ∧
      (∀ lexeme ∈ lexemes, lexeme.stop = (bytes source).length →
        lexemes.getLast? = some lexeme) ∧
      (∀ lexeme ∈ lexemes, lexeme.token.kind ≠ .eof) ∧
      (∀ number, call source.toList number =
        (lexemes.map Lexeme.token)[number]?.getD .endOfInput) ∧
      ∀ first later, (call source.toList first).kind = .eof → first ≤ later →
        call source.toList later = .endOfInput := by
  obtain ⟨lexemes, isTokens, cover⟩ := (tokens_laidOut source.toList).exists_cover []
  rw [List.nil_append, ← bytes_eq_encode] at cover
  refine ⟨lexemes, cover, fun _ => cover.getLast_of_stop, ?_, ?_, fun _ _ => call_of_eof⟩
  · intro lexeme member
    have isToken : lexeme.token ∈ tokens source.toList := isTokens ▸ List.mem_map_of_mem member
    exact tokens_kind_ne_eof isToken
  · intro number
    rw [isTokens]
    exact call_eq_getD source.toList number

end Lexer

end Script
