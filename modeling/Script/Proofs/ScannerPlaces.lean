import Mathlib.Data.Option.Basic
import Mathlib.Logic.Relation
import Script.Proofs.SourceCoverage
import Script.Token.Scanner

/-!
# Places of a scanner

A scanner goes on from byte to byte, through characters of up to four bytes, and still cuts between
characters only. Where a token starts, the scanner stands before a character or behind the source.
The ends of words, numbers and blanks are found by ASCII bytes, none of which occurs inside a longer
character; the end of a string by a quote or by the place itself, since a zero byte can also be a
character; and a character that starts no token is passed as a whole.

So no call fails, and the calls give the tokens of the source. The scanner comes no farther than one
place behind the end: there it stands after a string that lacks its closing quote.
-/

set_option autoImplicit false

namespace Script

open Lexer

namespace Scanner

variable {source : String} {before rest : List Char}

/-! ## Bytes -/

theorem byteAt_eq (source : String) (place : Nat) :
    byteAt source place = (encode source.toList)[place]?.getD 0 := by
  rw [byteAt, ← bytes_eq_encode, bytes, Array.getElem?_toList]

theorem size_eq (source : String) : source.utf8ByteSize = (encode source.toList).length := by
  rw [← bytes_eq_encode, bytes, Array.length_toList, ← String.size_toByteArray,
    String.toUTF8_eq_toByteArray]
  rfl

private theorem byteAt_of_append (split : source.toList = before ++ rest) :
    byteAt source (encode before).length = (encode rest).head?.getD 0 := by
  rw [byteAt_eq, split, getElem?_encode_append]

private theorem byteAt_of_size_le {place : Nat} (beyond : source.utf8ByteSize ≤ place) :
    byteAt source place = 0 := by
  rw [size_eq] at beyond
  rw [byteAt_eq, List.getElem?_eq_none beyond]
  rfl

theorem toNat_ofUInt8 (byte : UInt8) : (Char.ofUInt8 byte).toNat = byte.toNat := rfl

/-! ## Going on -/

def standing (source : String) (place : Nat) : Scanner :=
  ⟨source, place, place + 1, byteAt source place⟩

@[simp]
theorem standing_source (source : String) (place : Nat) :
    (standing source place).source = source := rfl

@[simp]
theorem standing_current (source : String) (place : Nat) :
    (standing source place).current = place := rfl

@[simp]
theorem standing_next (source : String) (place : Nat) :
    (standing source place).next = place + 1 := rfl

def Passes : Scanner → Scanner → Prop :=
  Relation.ReflTransGen fun scanner later => later = scanner.advance

private theorem advance_standing (source : String) (place : Nat) :
    (standing source place).advance = standing source (place + 1) := rfl

private theorem advanceBy_standing (source : String) (place width : Nat) :
    advanceBy width (standing source place) = standing source (place + width) := by
  induction width generalizing place with
  | zero => rfl
  | succ width ih =>
      rw [advanceBy, advance_standing, ih, Nat.add_right_comm, Nat.add_assoc]

private theorem passes_standing {source : String} {place : Nat} {later : Scanner}
    (passes : (standing source place).Passes later) :
    ∃ place', place ≤ place' ∧ later = standing source place' := by
  induction passes with
  | refl => exact ⟨place, Nat.le_refl place, rfl⟩
  | tail _ isNext ih =>
      obtain ⟨place', farther, rfl⟩ := ih
      exact ⟨place' + 1, Nat.le_succ_of_le farther, isNext⟩

section AdvanceWhile

variable {goesOn : Scanner → Bool} {place : Nat}

theorem advanceWhile_of_false {scanner : Scanner} (stops : goesOn scanner = false) :
    scanner.advanceWhile goesOn = some scanner := by
  rw [advanceWhile]
  simp [stops]

/-- A condition that fails from the end on is followed byte by byte. -/
theorem advanceWhile_of_true {scanner : Scanner}
    (ends : scanner.source.utf8ByteSize ≤ scanner.next → goesOn scanner.advance = false)
    (goes : goesOn scanner = true) :
    scanner.advanceWhile goesOn = scanner.advance.advanceWhile goesOn := by
  rw [advanceWhile, if_pos goes]
  split
  · rfl
  · next beyond =>
    have stops := ends (Nat.not_lt.mp beyond)
    rw [advanceWhile_of_false stops, stops]
    rfl

private theorem advanceWhile_add {width : Nat}
    (ends : ∀ place, source.utf8ByteSize ≤ place → goesOn (standing source place) = false)
    (goes : ∀ offset < width, goesOn (standing source (place + offset)) = true) :
    (standing source place).advanceWhile goesOn =
      (standing source (place + width)).advanceWhile goesOn := by
  induction width with
  | zero => rfl
  | succ width ih =>
      rw [ih fun offset inside => goes offset (Nat.lt_succ_of_lt inside),
        advanceWhile_of_true (ends _) (goes width (Nat.lt_succ_self width)), advance_standing]
      rfl

end AdvanceWhile

private theorem advanceBy_passes (width : Nat) (scanner : Scanner) :
    scanner.Passes (advanceBy width scanner) := by
  induction width generalizing scanner with
  | zero => exact .refl
  | succ width ih => exact .head rfl (ih scanner.advance)

/-- Where the scanner stops, the condition fails for the first time. -/
theorem advanceWhile_first {goesOn : Scanner → Bool} {scanner later : Scanner}
    (run : scanner.advanceWhile goesOn = some later) :
    ∃ width, later = advanceBy width scanner ∧ goesOn later = false ∧
      ∀ earlier < width, goesOn (advanceBy earlier scanner) = true := by
  fun_induction advanceWhile goesOn scanner with
  | case1 scanner goes _ ih =>
      obtain ⟨width, isLater, stops, goesFarther⟩ := ih run
      refine ⟨width + 1, isLater, stops, fun earlier before => ?_⟩
      cases earlier with
      | zero => exact goes
      | succ earlier => exact goesFarther earlier (Nat.lt_of_succ_lt_succ before)
  | case2 => cases run
  | case3 scanner goes _ stops =>
      cases run
      refine ⟨1, rfl, by simpa using stops, fun earlier before => ?_⟩
      obtain rfl := Nat.lt_one_iff.mp before
      exact goes
  | case4 scanner stops =>
      cases run
      exact ⟨0, rfl, by simpa using stops, nofun⟩

private theorem advanceWhile_passes {goesOn : Scanner → Bool} {scanner later : Scanner}
    (run : scanner.advanceWhile goesOn = some later) : scanner.Passes later := by
  obtain ⟨width, rfl, _⟩ := advanceWhile_first run
  exact advanceBy_passes width scanner

section Reading

variable {scanner later : Scanner} {read : Token}

private theorem word_passes (called : scanner.word = some (read, later)) :
    scanner.Passes later := by
  simp only [word, Option.bind_eq_bind, Option.bind_eq_some_iff] at called
  obtain ⟨_, run, _, _, ended⟩ := called
  cases ended
  exact advanceWhile_passes run

private theorem number_passes (called : scanner.number = some (read, later)) :
    scanner.Passes later := by
  simp only [number, Option.bind_eq_bind, Option.bind_eq_some_iff] at called
  obtain ⟨_, run, _, _, ended⟩ := called
  cases ended
  exact advanceWhile_passes run

private theorem quoted_passes (called : scanner.quoted = some (read, later)) :
    scanner.Passes later := by
  simp only [quoted, Option.bind_eq_bind, Option.bind_eq_some_iff] at called
  obtain ⟨_, run, _, _, ended⟩ := called
  cases ended
  exact .head rfl (.tail (advanceWhile_passes run) rfl)

private theorem illegal_passes (called : scanner.illegal = some (read, later)) :
    scanner.Passes later := by
  simp only [illegal, Option.bind_eq_bind, Option.bind_eq_some_iff] at called
  obtain ⟨_, _, _, _, ended⟩ := called
  cases ended
  exact advanceBy_passes _ _

private theorem operator_passes {kind : TokenKind}
    (called : scanner.operator kind = some (read, later)) :
    scanner.Passes later := by
  simp only [operator, Option.bind_eq_bind, Option.bind_eq_some_iff] at called
  obtain ⟨_, _, _, _, ended⟩ := called
  cases ended
  exact .single rfl

private theorem token_passes (called : scanner.token = some (read, later)) :
    scanner.Passes later := by
  unfold token at called
  split at called
  · split at called
    · exact .head rfl (operator_passes called)
    · exact operator_passes called
  · split at called
    · exact .head rfl (operator_passes called)
    · exact operator_passes called
  · exact quoted_passes called
  · split at called
    · exact operator_passes called
    · split at called
      · exact word_passes called
      · split at called
        · exact number_passes called
        · exact illegal_passes called

/-- A call goes on from byte to byte, through the blanks and then through the token. -/
theorem nextToken_passes {begun : Scanner} (skipped : scanner.skipBlanks = some begun)
    (called : scanner.nextToken = some (read, later)) :
    scanner.Passes begun ∧ begun.Passes later := by
  simp only [nextToken, skipped, Option.bind_eq_bind, Option.bind_some] at called
  constructor
  · exact advanceWhile_passes skipped
  · split at called
    · cases called
      exact .refl
    · exact token_passes called

end Reading

/-! ## Runs of a class -/

theorem length_encode_of_ascii {c : Char} (ascii : c.toNat < 128) :
    (encode (before ++ [c])).length = (encode before).length + 1 := by
  have small : c.toNat ≤ 127 := Nat.le_of_lt_succ ascii
  simp [encode, String.utf8EncodeChar, small]

private theorem exists_head_encode (c : Char) (rest : List Char) :
    ∃ byte, (String.utf8EncodeChar c).head? = some byte ∧
      (encode (c :: rest)).head? = some byte := by
  cases encoded : String.utf8EncodeChar c with
  | nil => exact absurd encoded String.utf8EncodeChar_ne_nil
  | cons byte trail =>
      refine ⟨byte, rfl, ?_⟩
      rw [encode, List.flatMap_cons, encoded]
      rfl

/-- The current byte is the next character, or both are not ASCII. -/
theorem lead_eq_or {c : Char} (split : source.toList = before ++ c :: rest) :
    (standing source (encode before).length).lead = c ∨
      128 ≤ (standing source (encode before).length).lead.toNat ∧ 128 ≤ c.toNat := by
  obtain ⟨byte, isHead, isHead'⟩ := exists_head_encode c rest
  have isByte : byteAt source (encode before).length = byte := by
    rw [byteAt_of_append split, isHead']
    rfl
  simp only [lead, standing, isByte, toNat_ofUInt8]
  by_cases ascii : byte.toNat < 128
  · exact .inl (eq_ofUInt8_of_head isHead ascii).symm
  · refine .inr ⟨Nat.not_lt.mp ascii, Nat.not_lt.mp fun small => ascii ?_⟩
    have single : c.val.toNat ≤ 127 := Nat.le_of_lt_succ small
    simp only [String.utf8EncodeChar, if_pos single, List.head?_cons, Option.some.injEq] at isHead
    rw [← isHead, UInt8.toNat_ofNat']
    omega

section Class

variable {inClass : Char → Bool}

private theorem inClass_lead (ascii : ∀ c, inClass c = true → c.toNat < 128) {c : Char}
    (split : source.toList = before ++ c :: rest) :
    inClass (standing source (encode before).length).lead = inClass c := by
  have outside : ∀ d : Char, 128 ≤ d.toNat → inClass d = false := by
    intro d large
    by_contra inside
    exact absurd (ascii d (by simpa using inside)) (Nat.not_lt.mpr large)
  rcases lead_eq_or split with same | ⟨large, large'⟩
  · rw [same]
  · rw [outside _ large, outside _ large']

theorem inClass_of_size_le (zero : inClass (.ofUInt8 0) = false) {place : Nat}
    (beyond : source.utf8ByteSize ≤ place) : inClass (standing source place).lead = false := by
  rw [lead, standing, byteAt_of_size_le beyond]
  exact zero

private theorem advanceWhile_inClass (ascii : ∀ c, inClass c = true → c.toNat < 128)
    (zero : inClass (.ofUInt8 0) = false) (split : source.toList = before ++ rest) :
    (standing source (encode before).length).advanceWhile (inClass ·.lead) =
      some (standing source (encode (before ++ rest.takeWhile inClass)).length) := by
  induction rest generalizing before with
  | nil =>
      have ended : byteAt source (encode before).length = 0 := byteAt_of_append split
      rw [advanceWhile_of_false (by simpa [lead, standing, ended] using zero)]
      simp
  | cons c rest ih =>
      have same := inClass_lead ascii split
      cases inside : inClass c with
      | false =>
          rw [advanceWhile_of_false (same.trans inside)]
          simp [inside]
      | true =>
          have next := @ih (before ++ [c]) (by simpa using split)
          rw [length_encode_of_ascii (ascii c inside)] at next
          rw [advanceWhile_of_true (inClass_of_size_le zero) (same.trans inside),
            advance_standing, next,
            List.takeWhile_cons_of_pos inside, List.append_assoc, List.singleton_append]

end Class

/-- A run of bytes goes to the next quote, or to the end. -/
theorem advanceWhile_unquoted (split : source.toList = before ++ rest) :
    (standing source (encode before).length).advanceWhile
        (fun passed => passed.byte ≠ '"'.toUInt8 && !passed.atEnd) =
      some (standing source (encode (before ++ rest.takeWhile (· ≠ '"'))).length) := by
  induction rest generalizing before with
  | nil =>
      have ended : source.utf8ByteSize ≤ (encode before).length := by
        rw [size_eq, split, List.append_nil]
      rw [advanceWhile_of_false (by simp [atEnd, standing, ended])]
      simp
  | cons c rest ih =>
      by_cases quote : c = '"'
      · subst quote
        have isQuote : byteAt source (encode before).length = '"'.toUInt8 := byteAt_of_append split
        rw [advanceWhile_of_false (by simp [standing, isQuote])]
        simp
      · have encoded : encode source.toList =
            encode before ++ (String.utf8EncodeChar c ++ encode rest) := by
          rw [split, encode_append]
          rfl
        -- the bytes of the character, none of which is a quote
        have goes : ∀ offset < (String.utf8EncodeChar c).length,
            (fun passed : Scanner => passed.byte ≠ '"'.toUInt8 && !passed.atEnd)
              (standing source ((encode before).length + offset)) = true := by
          intro offset inside
          have isByte : byteAt source ((encode before).length + offset) =
              (String.utf8EncodeChar c)[offset] := by
            rw [byteAt_eq, encoded, List.getElem?_append_right (Nat.le_add_right _ _),
              Nat.add_sub_cancel_left, List.getElem?_append_left inside,
              List.getElem?_eq_getElem inside]
            rfl
          have notQuote : (String.utf8EncodeChar c)[offset] ≠ '"'.toUInt8 := by
            intro isQuote
            have member := List.getElem_mem inside
            rw [isQuote] at member
            exact quote (eq_ofUInt8_of_mem member (by decide))
          have before_end : ¬ source.utf8ByteSize ≤ (encode before).length + offset := by
            rw [size_eq, encoded, List.length_append, List.length_append]
            omega
          simp [standing, atEnd, isByte, notQuote, before_end]
        have next := @ih (before ++ [c]) (by simpa using split)
        have past : (encode (before ++ [c])).length =
            (encode before).length + (String.utf8EncodeChar c).length := by simp [encode]
        rw [past] at next
        have ends : ∀ place, source.utf8ByteSize ≤ place →
            (fun passed : Scanner => passed.byte ≠ '"'.toUInt8 && !passed.atEnd)
              (standing source place) = false := by
          intro place beyond
          simp [standing, atEnd, beyond]
        rw [advanceWhile_add ends goes, next, List.takeWhile_cons_of_pos (by simp [quote]),
          List.append_assoc, List.singleton_append]

/-! ## Cuts -/

private theorem isValid_of_append (split : source.toList = before ++ rest) :
    (⟨(encode before).length⟩ : String.Pos.Raw).IsValid source := by
  apply String.Pos.Raw.isValid_iff_exists_append.mpr
  refine ⟨.ofList before, .ofList rest, ?_, ?_⟩
  · rw [← String.ofList_append, ← split, String.ofList_toList]
  · apply String.Pos.Raw.ext
    rw [String.byteIdx_rawEndPos, size_eq, String.toList_ofList]

private theorem slice?_of_append {text : List Char}
    (split : source.toList = before ++ text ++ rest) :
    slice? source (encode before).length (encode (before ++ text)).length =
      some (.ofList text) := by
  have valid : (⟨(encode before).length⟩ : String.Pos.Raw).IsValid source :=
    isValid_of_append (split.trans (List.append_assoc _ _ _))
  have ordered : (encode before).length ≤ (encode (before ++ text)).length := by
    rw [encode_append, List.length_append]
    exact Nat.le_add_right _ _
  rw [slice?, dif_pos ⟨valid, isValid_of_append split, ordered⟩]
  refine congrArg some (String.toByteArray_inj.mp ?_)
  apply ByteArray.ext
  apply Array.toList_inj.mp
  have wholeBytes : source.toByteArray.data.toList = encode source.toList := by
    rw [← String.toUTF8_eq_toByteArray]
    exact bytes_eq_encode source
  have textBytes : (String.ofList text).toByteArray.data.toList = encode text := by
    rw [← String.toUTF8_eq_toByteArray]
    exact (bytes_eq_encode _).trans (by rw [String.toList_ofList])
  rw [String.toByteArray_extract, ByteArray.data_extract, Array.toList_extract, wholeBytes,
    textBytes, split, List.extract_eq_take_drop]
  simp [encode_append]

/-! ## Tokens -/

/-- The scanner stands before the characters that are left, or one place behind the end. -/
inductive Leaves (source : String) : Scanner → List Char → Prop where
  | inside {before rest : List Char} : source.toList = before ++ rest →
      Leaves source (standing source (encode before).length) rest
  | behind : Leaves source (standing source (source.utf8ByteSize + 1)) []

/-- A run of characters of an ASCII class, cut out byte by byte, is the longest run of such
characters. -/
theorem inClass_run {inClass : Char → Bool} (ascii : ∀ c, inClass c = true → c.toNat < 128)
    (zero : inClass (.ofUInt8 0) = false) (split : source.toList = before ++ rest) :
    ∃ later, (standing source (encode before).length).advanceWhile (inClass ·.lead) = some later ∧
      slice? source (encode before).length later.current =
        some (.ofList (rest.takeWhile inClass)) ∧
      Leaves source later (rest.dropWhile inClass) := by
  have parts : source.toList = before ++ rest.takeWhile inClass ++ rest.dropWhile inClass := by
    rw [List.append_assoc, List.takeWhile_append_dropWhile, split]
  exact ⟨_, advanceWhile_inClass ascii zero split, slice?_of_append parts, .inside parts⟩

private theorem word_of_append (split : source.toList = before ++ rest) :
    ∃ later, (standing source (encode before).length).word =
        some (.word (rest.takeWhile isNameChar), later) ∧
      Leaves source later (rest.dropWhile isNameChar) := by
  obtain ⟨later, run, cut, leaves⟩ := inClass_run (fun _ => isNameChar_ascii) rfl split
  exact ⟨later, by simp [word, run, cut, Token.word], leaves⟩

private theorem number_of_append (split : source.toList = before ++ rest) :
    ∃ later, (standing source (encode before).length).number =
        some (.number (rest.takeWhile isDigit), later) ∧
      Leaves source later (rest.dropWhile isDigit) := by
  obtain ⟨later, run, cut, leaves⟩ := inClass_run (fun _ => isDigit_ascii) rfl split
  exact ⟨later, by simp [number, run, cut, Token.number], leaves⟩

private theorem quoted_of_append (split : source.toList = before ++ '"' :: rest) :
    ∃ later, (standing source (encode before).length).quoted =
        some (.quoted (rest.takeWhile (· ≠ '"')), later) ∧
      Leaves source later ((rest.dropWhile (· ≠ '"')).drop 1) := by
  have opened : (standing source (encode before).length).advance =
      standing source (encode (before ++ ['"'])).length := by
    rw [advance_standing, length_encode_of_ascii (by decide)]
  have split' : source.toList = before ++ ['"'] ++ rest := by simpa using split
  have parts : source.toList =
      before ++ ['"'] ++ rest.takeWhile (· ≠ '"') ++ rest.dropWhile (· ≠ '"') := by
    rw [List.append_assoc (before ++ ['"']), List.takeWhile_append_dropWhile, split']
  have run := advanceWhile_unquoted split'
  have cut := slice?_of_append parts
  refine ⟨standing source ((encode (before ++ ['"'] ++ rest.takeWhile (· ≠ '"'))).length + 1),
    ?_, ?_⟩
  · simp only [quoted, opened, run, cut, standing_source, standing_current, Option.bind_eq_bind,
      Option.bind_some, advance_standing]
    rfl
  · generalize closing : rest.dropWhile (· ≠ '"') = left at parts
    cases left with
    | nil =>
        rw [List.append_nil] at parts
        rw [← parts, ← size_eq]
        exact .behind
    | cons c left =>
        have isQuote : c = '"' := by simpa using dropWhile_head c (congrArg List.head? closing)
        subst isQuote
        have parts' : source.toList =
            before ++ ['"'] ++ rest.takeWhile (· ≠ '"') ++ ['"'] ++ left := by simpa using parts
        rw [← length_encode_of_ascii (c := '"') (by decide)]
        exact .inside parts'

/-- An operator whose last byte is the current one. -/
theorem operator_of_append {kind : TokenKind} {text : List Char} {place : Nat}
    (split : source.toList = before ++ text ++ rest)
    (ends : place + 1 = (encode (before ++ text)).length)
    (wide : width kind = (encode text).length) :
    (standing source place).operator kind =
      some (⟨kind, .ofList text⟩, standing source (encode (before ++ text)).length) := by
  have sum : place + 1 = (encode before).length + width kind := by
    rw [ends, wide, encode_append, List.length_append]
  have starts : place + 1 - width kind = (encode before).length := by
    rw [sum, Nat.add_sub_cancel]
  have above : width kind ≤ place + 1 := by
    rw [sum]
    exact Nat.le_add_left _ _
  have cut := slice?_of_append split
  rw [← starts, ← ends] at cut
  rw [← ends]
  simp [operator, guard, above, cut, advance_standing]

private theorem illegal_of_append {c : Char} (split : source.toList = before ++ c :: rest) :
    (standing source (encode before).length).illegal =
      some (⟨.illegal, .ofList [c]⟩, standing source (encode (before ++ [c])).length) := by
  have whole : slice? source (encode before).length source.utf8ByteSize =
      some (.ofList (c :: rest)) := by
    rw [size_eq, split]
    exact slice?_of_append (split.trans (List.append_nil _).symm)
  have cut : slice? source (encode before).length (encode (before ++ [c])).length =
      some (.ofList [c]) := by
    refine @slice?_of_append source before rest [c] ?_
    simpa using split
  have wide : (encode (before ++ [c])).length = (encode before).length + c.utf8Size := by
    simp [encode, String.length_utf8EncodeChar]
  rw [wide] at cut ⊢
  simp [illegal, whole, cut, advanceBy_standing]

theorem symbol_ascii {c : Char} (proper : TokenKind.ofSymbol c ≠ .illegal) :
    c.toNat < 128 ∧ isNameChar c = false ∧ isDigit c = false := by
  unfold TokenKind.ofSymbol at proper
  split at proper
  case h_18 => exact absurd rfl proper
  all_goals decide

/-- What holds of all characters that are not ASCII. -/
theorem foreign {c : Char} (large : 128 ≤ c.toNat) :
    c ≠ '=' ∧ c ≠ '!' ∧ c ≠ '"' ∧ TokenKind.ofSymbol c = .illegal ∧ isNameChar c = false ∧
      isDigit c = false := by
  have unlike : ∀ d : Char, d.toNat < 128 → c ≠ d := by
    intro d ascii same
    exact absurd large (Nat.not_le.mpr (same ▸ ascii))
  refine ⟨unlike '=' (by decide), unlike '!' (by decide), unlike '"' (by decide), ?_, ?_, ?_⟩
  · by_contra proper
    exact absurd large (Nat.not_le.mpr (symbol_ascii proper).1)
  · rw [Bool.eq_false_iff]
    intro named
    exact absurd large (Nat.not_le.mpr (isNameChar_ascii named))
  · rw [Bool.eq_false_iff]
    intro digit
    exact absurd large (Nat.not_le.mpr (isDigit_ascii digit))

private theorem width_ofSymbol (c : Char) : width (.ofSymbol c) = 1 := by
  unfold TokenKind.ofSymbol
  split <;> rfl

theorem length_encode_singleton {c : Char} (ascii : c.toNat < 128) : (encode [c]).length = 1 :=
  @length_encode_of_ascii [] c ascii

/-- An operator of one character. -/
theorem operator_single {c : Char} (split : source.toList = before ++ c :: rest)
    (ascii : c.toNat < 128) {kind : TokenKind} (narrow : width kind = 1) :
    ∃ later, (standing source (encode before).length).operator kind =
        some (⟨kind, .ofList [c]⟩, later) ∧ Leaves source later rest := by
  have split' : source.toList = before ++ [c] ++ rest := by simpa using split
  refine ⟨_, operator_of_append split' (length_encode_of_ascii ascii).symm ?_, .inside split'⟩
  rw [narrow, length_encode_singleton ascii]

/-- A comparison, the first character of which has been passed. -/
theorem operator_double {c : Char} (split : source.toList = before ++ c :: '=' :: rest)
    (ascii : c.toNat < 128) {kind : TokenKind} (wide : width kind = 2) :
    ∃ later, (standing source (encode before).length).advance.operator kind =
        some (⟨kind, .ofList [c, '=']⟩, later) ∧ Leaves source later rest := by
  have split' : source.toList = before ++ [c, '='] ++ rest := by simpa using split
  have first := @length_encode_of_ascii before c ascii
  have second := @length_encode_of_ascii (before ++ [c]) '=' (by decide)
  have both : (encode (before ++ [c, '='])).length = (encode before).length + 1 + 1 := by
    rw [← first, ← second, List.append_assoc, List.singleton_append]
  rw [advance_standing]
  refine ⟨_, operator_of_append split' both.symm ?_, .inside split'⟩
  rw [wide, ← List.singleton_append, encode_append, List.length_append,
    length_encode_singleton ascii, length_encode_singleton (by decide)]

private theorem peek_eq_iff {c : Char} (split : source.toList = before ++ c :: rest)
    (ascii : c.toNat < 128) :
    (standing source (encode before).length).peek = '='.toUInt8 ↔ rest.head? = some '=' := by
  have split' : source.toList = before ++ [c] ++ rest := by simpa using split
  have isByte := byteAt_of_append split'
  rw [length_encode_of_ascii ascii] at isByte
  change byteAt source ((encode before).length + 1) = '='.toUInt8 ↔ _
  rw [isByte]
  constructor
  · intro isEqual
    cases heads : (encode rest).head? with
    | none =>
        rw [heads] at isEqual
        exact absurd isEqual (by decide)
    | some byte =>
        rw [heads] at isEqual
        exact head_of_head_encode (heads.trans (congrArg some isEqual)) (by decide)
  · intro heads
    obtain ⟨later, rfl⟩ := List.head?_eq_some_iff.mp heads
    rfl

private theorem comparison_of_append {c : Char} (split : source.toList = before ++ c :: rest)
    (starts : c = '=' ∨ c = '!') {pair single : TokenKind}
    (isPair : Token.comparison c = ⟨pair, .ofList [c, '=']⟩) (wide : width pair = 2)
    (isSingle : Token.symbol c = ⟨single, .ofList [c]⟩) (narrow : width single = 1) :
    ∃ later, (if (standing source (encode before).length).peek = '='.toUInt8
        then (standing source (encode before).length).advance.operator pair
        else (standing source (encode before).length).operator single) =
          some ((scan c rest).1, later) ∧ Leaves source later (scan c rest).2 := by
  have plain : c ≠ '"' ∧ isNameChar c = false ∧ isDigit c = false ∧ c.toNat < 128 := by
    rcases starts with rfl | rfl <;> decide
  obtain ⟨notQuote, notName, notDigit, ascii⟩ := plain
  simp only [peek_eq_iff split ascii, scan, notQuote, notName, notDigit, starts, true_and,
    if_false, Bool.false_eq_true]
  by_cases doubles : rest.head? = some '='
  · rw [if_pos doubles, if_pos doubles, isPair]
    obtain ⟨later, rfl⟩ := List.head?_eq_some_iff.mp doubles
    exact operator_double split ascii wide
  · rw [if_neg doubles, if_neg doubles, isSingle]
    exact operator_single split ascii narrow

private theorem illegal_leaves {c : Char} (split : source.toList = before ++ c :: rest)
    (isIllegal : TokenKind.ofSymbol c = .illegal) :
    ∃ later, (standing source (encode before).length).illegal = some (.symbol c, later) ∧
      Leaves source later rest := by
  refine ⟨_, ?_, .inside (show source.toList = before ++ [c] ++ rest by simpa using split)⟩
  rw [illegal_of_append split, Token.symbol, isIllegal]

/-- The token that starts at the current byte is the one that the next character starts. -/
theorem token_of_append {c : Char} (split : source.toList = before ++ c :: rest) :
    ∃ later, (standing source (encode before).length).token = some ((scan c rest).1, later) ∧
      Leaves source later (scan c rest).2 := by
  rcases lead_eq_or split with same | ⟨large, large'⟩
  · unfold token
    rw [same]
    split
    · exact comparison_of_append split (.inl rfl) rfl rfl rfl rfl
    · exact comparison_of_append split (.inr rfl) rfl rfl rfl rfl
    · exact quoted_of_append split
    · next notEqual notBang notQuote =>
      have noPair : ¬ ((c = '=' ∨ c = '!') ∧ rest.head? = some '=') :=
        fun pair => pair.1.elim notEqual notBang
      rw [scan, if_neg notQuote]
      by_cases proper : TokenKind.ofSymbol c = .illegal
      · rw [if_neg (not_not_intro proper)]
        cases named : isNameChar c with
        | true =>
            have word := word_of_append split
            rwa [List.takeWhile_cons_of_pos named, List.dropWhile_cons_of_pos named] at word
        | false =>
            cases digit : isDigit c with
            | true =>
                have number := number_of_append split
                rwa [List.takeWhile_cons_of_pos digit, List.dropWhile_cons_of_pos digit] at number
            | false =>
                rw [if_neg Bool.false_ne_true, if_neg Bool.false_ne_true, if_neg noPair]
                exact illegal_leaves split proper
      · obtain ⟨ascii, notName, notDigit⟩ := symbol_ascii proper
        rw [if_pos proper, notName, notDigit, if_neg Bool.false_ne_true,
          if_neg Bool.false_ne_true, if_neg noPair]
        exact operator_single split ascii (width_ofSymbol c)
  · obtain ⟨leadEqual, leadBang, leadQuote, leadIllegal, leadName, leadDigit⟩ := foreign large
    obtain ⟨notEqual, notBang, notQuote, isIllegal, notName, notDigit⟩ := foreign large'
    have scanned : scan c rest = (.symbol c, rest) := by
      simp [scan, notEqual, notBang, notQuote, notName, notDigit]
    have passed : (standing source (encode before).length).token =
        (standing source (encode before).length).illegal := by
      unfold token
      split
      · next isEqual => exact absurd isEqual leadEqual
      · next isBang => exact absurd isBang leadBang
      · next isQuote => exact absurd isQuote leadQuote
      · simp [leadIllegal, leadName, leadDigit]
    rw [scanned, passed]
    exact illegal_leaves split isIllegal

/-! ## Calls -/

private theorem atEnd_of_leaves {scanner : Scanner} (leaves : Leaves source scanner rest) :
    scanner.atEnd = true ↔ rest = [] := by
  cases leaves with
  | @inside before _ split =>
      rw [atEnd, standing_source, standing_current, size_eq, split, encode_append,
        List.length_append, decide_eq_true_eq]
      constructor
      · intro ended
        by_contra nonempty
        have some := List.length_pos_iff.mpr (encode_ne_nil nonempty)
        omega
      · rintro rfl
        exact Nat.le_refl _
  | behind => simp [atEnd]

private theorem skipBlanks_of_leaves {scanner : Scanner} (leaves : Leaves source scanner rest) :
    ∃ begun, scanner.skipBlanks = some begun ∧ Leaves source begun (rest.dropWhile isBlank) := by
  cases leaves with
  | inside split =>
      have ascii : ∀ c, isBlank c = true → c.toNat < 128 := by
        intro c blank
        rcases isBlank_iff.mp blank with rfl | rfl | rfl | rfl <;> decide
      obtain ⟨begun, skipped, _, leaves⟩ := inClass_run ascii rfl split
      exact ⟨begun, skipped, leaves⟩
  | behind =>
      have stops : isBlank (standing source (source.utf8ByteSize + 1)).lead = false :=
        inClass_of_size_le rfl (Nat.le_succ _)
      exact ⟨_, advanceWhile_of_false stops, .behind⟩

/-- A call gives the next token, and leaves what that leaves. -/
theorem nextToken_of_leaves {scanner : Scanner} (leaves : Leaves source scanner rest) :
    ∃ later, scanner.nextToken = some ((Lexer.next rest).1, later) ∧
      Leaves source later (Lexer.next rest).2 := by
  obtain ⟨begun, skipped, leaves⟩ := skipBlanks_of_leaves leaves
  have ended := atEnd_of_leaves leaves
  simp only [nextToken, skipped, Option.bind_eq_bind, Option.bind_some, Lexer.next]
  generalize rest.dropWhile isBlank = left at leaves ended
  cases leaves with
  | @inside before _ split =>
      cases left with
      | nil =>
          rw [if_pos (ended.mpr rfl)]
          exact ⟨_, rfl, .inside split⟩
      | cons c left =>
          rw [if_neg (ended.not.mpr (List.cons_ne_nil c left))]
          exact token_of_append split
  | behind =>
      rw [if_pos (ended.mpr rfl)]
      exact ⟨_, rfl, .behind⟩

private theorem after_of_leaves {scanner : Scanner} (leaves : Leaves source scanner rest)
    (number : Nat) :
    ∃ later left, scanner.after number = some later ∧ Leaves source later left ∧
      scanner.Passes later ∧ (Lexer.next left).1 = Lexer.call rest number := by
  induction number generalizing scanner rest with
  | zero => exact ⟨scanner, rest, rfl, leaves, .refl, rfl⟩
  | succ number ih =>
      obtain ⟨begun, skipped, _⟩ := skipBlanks_of_leaves leaves
      obtain ⟨later, called, leaves⟩ := nextToken_of_leaves leaves
      obtain ⟨passesBlanks, passesToken⟩ := nextToken_passes skipped called
      obtain ⟨last, left, calls, leaves, passes, isCall⟩ := ih leaves
      refine ⟨last, left, ?_, leaves, (passesBlanks.trans passesToken).trans passes, isCall⟩
      simp [after, called, calls]

def BetweenChars (scanner : Scanner) : Prop :=
  (⟨scanner.current⟩ : String.Pos.Raw).IsValid scanner.source ∨
    scanner.source.utf8ByteSize ≤ scanner.current

private theorem betweenChars_of_leaves {scanner : Scanner} (leaves : Leaves source scanner rest) :
    scanner.BetweenChars := by
  cases leaves with
  | inside split => exact .inl (isValid_of_append split)
  | behind => exact .inr (Nat.le_succ _)

private theorem exists_standing {scanner : Scanner} (leaves : Leaves source scanner rest) :
    ∃ place ≤ source.utf8ByteSize + 1, scanner = standing source place := by
  cases leaves with
  | @inside before _ split =>
      refine ⟨_, ?_, rfl⟩
      rw [size_eq, split, encode_append, List.length_append]
      omega
  | behind => exact ⟨_, Nat.le_refl _, rfl⟩

/-- Any number of calls can be made on any source, none of them fails, and they give its tokens:
every cut is inside the source and between characters, and no place is before the source. Each call
starts between characters, or at or behind the end, and so does the token behind the blanks. At
every place that the scanner comes through, the byte is the one of the source, and no place is
farther than one behind the end. -/
theorem calls_stay_inside (source : String) (number : Nat) :
    ∃ scanner begun later, (new source).after number = some scanner ∧
      scanner.skipBlanks = some begun ∧
      scanner.nextToken = some (Lexer.call source.toList number, later) ∧
      scanner.BetweenChars ∧ begun.BetweenChars ∧ (new source).Passes scanner ∧
      scanner.Passes begun ∧ begun.Passes later ∧
      ∀ passed, (new source).Passes passed → passed.Passes later →
        passed.next = passed.current + 1 ∧
        passed.byte = (bytes source)[passed.current]?.getD 0 ∧
        passed.current ≤ source.utf8ByteSize + 1 := by
  have started : Leaves source (new source) source.toList := .inside (List.nil_append _).symm
  obtain ⟨scanner, left, calls, leaves, passes, isCall⟩ := after_of_leaves started number
  obtain ⟨begun, skipped, leavesBegun⟩ := skipBlanks_of_leaves leaves
  obtain ⟨later, called, leavesLater⟩ := nextToken_of_leaves leaves
  obtain ⟨passesBlanks, passesToken⟩ := nextToken_passes skipped called
  rw [isCall] at called
  refine ⟨scanner, begun, later, calls, skipped, called, betweenChars_of_leaves leaves,
    betweenChars_of_leaves leavesBegun, passes, passesBlanks, passesToken, ?_⟩
  intro passed reached goesOn
  obtain ⟨place, _, rfl⟩ := passes_standing reached
  obtain ⟨last, near, rfl⟩ := exists_standing leavesLater
  obtain ⟨place', farther, same⟩ := passes_standing goesOn
  have isPlace : last = place' := congrArg current same
  refine ⟨rfl, ?_, ?_⟩
  · rw [bytes_eq_encode]
    exact byteAt_eq source place
  · exact Nat.le_trans farther (isPlace ▸ near)

end Scanner

end Script
