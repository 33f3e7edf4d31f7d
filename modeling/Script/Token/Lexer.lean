import Script.Token.Basic

/-!
# Reading tokens

`next` reads one token from the characters that are left, and `tokens` all of them up to the end.
Every character belongs to a token or is a blank between tokens: there are no comments, no
escapes, and a character that starts no token becomes an `illegal` token of its own.

`next_length_lt` is the reason why reading ends: each token other than the end of input uses up at
least one character.
-/

set_option autoImplicit false

namespace Script.Lexer

def isBlank (c : Char) : Bool := c = ' ' || c = '\t' || c = '\n' || c = '\r'

/-- The characters of identifiers and reserved words: the ASCII letters and the underscore.
Digits are not among them. -/
def isNameChar (c : Char) : Bool :=
  ('a' ≤ c && c ≤ 'z') || ('A' ≤ c && c ≤ 'Z') || c = '_'

def isDigit (c : Char) : Bool := '0' ≤ c && c ≤ '9'

/-- The token that starts with the character `c`, and the characters after it. Words and numbers
are as long as possible, and a string that lacks its closing quote runs to the end of the input. -/
def scan (c : Char) (rest : List Char) : Token × List Char :=
  if c = '"' then
    (.quoted (rest.takeWhile (· ≠ '"')), (rest.dropWhile (· ≠ '"')).drop 1)
  else if isNameChar c then
    (.word (c :: rest.takeWhile isNameChar), rest.dropWhile isNameChar)
  else if isDigit c then
    (.number (c :: rest.takeWhile isDigit), rest.dropWhile isDigit)
  else if (c = '=' ∨ c = '!') ∧ rest.head? = some '=' then
    (.comparison c, rest.drop 1)
  else
    (.symbol c, rest)

/-- The next token, and the characters after it. At the end of the input it is the end token, and
nothing is left. -/
def next (chars : List Char) : Token × List Char :=
  match chars.dropWhile isBlank with
  | [] => (.endOfInput, [])
  | c :: rest => scan c rest

theorem length_dropWhile_le (p : Char → Bool) (chars : List Char) :
    (chars.dropWhile p).length ≤ chars.length :=
  (List.dropWhile_suffix p).length_le

theorem scan_length_le (c : Char) (rest : List Char) :
    (scan c rest).2.length ≤ rest.length := by
  unfold scan
  split
  · have bound := length_dropWhile_le (· ≠ '"') rest
    simp only [List.length_drop]
    omega
  · split
    · exact length_dropWhile_le _ _
    · split
      · exact length_dropWhile_le _ _
      · split <;> simp

private theorem word_kind_ne_eof (chars : List Char) : (Token.word chars).kind ≠ .eof := by
  simp only [Token.word, TokenKind.keyword?]
  split <;> simp

private theorem symbol_kind_ne_eof (c : Char) : (Token.symbol c).kind ≠ .eof := by
  simp only [Token.symbol, TokenKind.ofSymbol]
  split <;> simp

/-- A token that starts with a character is never the end token. -/
theorem scan_kind_ne_eof (c : Char) (rest : List Char) : (scan c rest).1.kind ≠ .eof := by
  unfold scan
  split
  · simp [Token.quoted]
  · split
    · exact word_kind_ne_eof _
    · split
      · simp [Token.number]
      · split
        · simp only [Token.comparison]
          split <;> simp
        · exact symbol_kind_ne_eof _

/-- Reading a token other than the end token uses up at least one character. -/
theorem next_length_lt {chars : List Char} (proper : (next chars).1.kind ≠ .eof) :
    (next chars).2.length < chars.length := by
  revert proper
  unfold next
  have dropped := length_dropWhile_le isBlank chars
  split
  · simp [Token.endOfInput]
  · next c rest shape =>
    intro _
    have used := scan_length_le c rest
    rw [shape, List.length_cons] at dropped
    omega

/-- All tokens of a source, in order and without the end token. -/
def tokens (chars : List Char) : List Token :=
  if _ : (next chars).1.kind ≠ .eof then
    (next chars).1 :: tokens (next chars).2
  else
    []
termination_by chars.length
decreasing_by exact next_length_lt (by assumption)

@[simp]
theorem next_nil : next [] = (.endOfInput, []) := rfl

@[simp]
theorem tokens_nil : tokens [] = [] := by
  unfold tokens
  simp [Token.endOfInput]

/-- One token at a time: the first token of a source that starts with the character `c` is the one
that `scan` reads, and the others are those of what it leaves. -/
theorem tokens_cons {c : Char} (rest : List Char) (solid : isBlank c = false) :
    tokens (c :: rest) = (scan c rest).1 :: tokens (scan c rest).2 := by
  have first : next (c :: rest) = scan c rest := by simp [next, solid]
  rw [tokens, first, dif_pos (scan_kind_ne_eof c rest)]

/-- Blanks before a token do not matter. -/
theorem tokens_blank {c : Char} (rest : List Char) (blank : isBlank c = true) :
    tokens (c :: rest) = tokens rest := by
  have same : next (c :: rest) = next rest := by simp [next, blank]
  rw [tokens, same, ← tokens]

end Script.Lexer
