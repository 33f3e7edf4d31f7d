import Script.Token.Lexer

/-!
# Reading tokens by places

A scanner reads the tokens of a source without a list of the characters that are left. It keeps a
place in the bytes of the source, goes on from byte to byte, and cuts the text of each token out of
the source when it has come to the end of it. What is wrong with a place makes a call fail: a cut
outside the source or inside a character, a place before the source, or a search that never ends.
-/

set_option autoImplicit false

namespace Script

/-- A place in a source: the current byte, which is zero from the end on, its place, and the place
of the byte after it. -/
structure Scanner where
  source : String
  current : Nat
  next : Nat
  byte : UInt8

namespace Scanner

/-- The byte at a place, zero from the end on. -/
def byteAt (source : String) (place : Nat) : UInt8 := source.toUTF8.data[place]?.getD 0

def advance (scanner : Scanner) : Scanner :=
  { scanner with
    current := scanner.next
    next := scanner.next + 1
    byte := byteAt scanner.source scanner.next }

def advanceBy : Nat → Scanner → Scanner
  | 0, scanner => scanner
  | width + 1, scanner => advanceBy width scanner.advance

/-- Go on as long as the condition holds. From the end on all bytes are zero, so that what still
goes on there never stops. -/
def advanceWhile (goesOn : Scanner → Bool) (scanner : Scanner) : Option Scanner :=
  if goesOn scanner then
    if scanner.next < scanner.source.utf8ByteSize then advanceWhile goesOn scanner.advance
    else if goesOn scanner.advance then none
    else some scanner.advance
  else some scanner
termination_by scanner.source.utf8ByteSize - scanner.next
decreasing_by exact Nat.sub_succ_lt_self _ _ ‹_›

def new (source : String) : Scanner := advance ⟨source, 0, 0, 0⟩

def peek (scanner : Scanner) : UInt8 := byteAt scanner.source scanner.next

def atEnd (scanner : Scanner) : Bool := scanner.source.utf8ByteSize ≤ scanner.current

/-- The character that the current byte is, if it is one alone. -/
def lead (scanner : Scanner) : Char := .ofUInt8 scanner.byte

/-- The text between two places, which have to be in order and between characters. -/
def slice? (source : String) (start stop : Nat) : Option String :=
  if cut : (⟨start⟩ : String.Pos.Raw).IsValid source ∧ (⟨stop⟩ : String.Pos.Raw).IsValid source ∧
      start ≤ stop then
    some (source.extract ⟨⟨start⟩, cut.1⟩ ⟨⟨stop⟩, cut.2.1⟩)
  else
    none

def skipBlanks (scanner : Scanner) : Option Scanner :=
  scanner.advanceWhile (Lexer.isBlank ·.lead)

def word (scanner : Scanner) : Option (Token × Scanner) := do
  let later ← scanner.advanceWhile (Lexer.isNameChar ·.lead)
  let text ← slice? scanner.source scanner.current later.current
  return (⟨(TokenKind.keyword? text).getD .ident, text⟩, later)

def number (scanner : Scanner) : Option (Token × Scanner) := do
  let later ← scanner.advanceWhile (Lexer.isDigit ·.lead)
  let text ← slice? scanner.source scanner.current later.current
  return (⟨.int, text⟩, later)

/-- A string literal, up to the next quote or to the end of the source. -/
def quoted (scanner : Scanner) : Option (Token × Scanner) := do
  let opened := scanner.advance
  let later ← opened.advanceWhile fun passed => passed.byte ≠ '"'.toUInt8 && !passed.atEnd
  let text ← slice? scanner.source opened.current later.current
  return (⟨.str, text⟩, later.advance)

/-- A whole character that starts no token, however many bytes it has. -/
def illegal (scanner : Scanner) : Option (Token × Scanner) := do
  let rest ← slice? scanner.source scanner.current scanner.source.utf8ByteSize
  let width := (rest.toList.head?.map Char.utf8Size).getD 1
  let later := advanceBy width scanner
  let text ← slice? scanner.source scanner.current (scanner.current + width)
  return (⟨.illegal, text⟩, later)

def width : TokenKind → Nat
  | .equal | .notEqual => 2
  | _ => 1

/-- An operator or a mark that ends on the current byte. -/
def operator (kind : TokenKind) (scanner : Scanner) : Option (Token × Scanner) := do
  guard (width kind ≤ scanner.current + 1)
  let text ← slice? scanner.source (scanner.current + 1 - width kind) scanner.next
  return (⟨kind, text⟩, scanner.advance)

def token (scanner : Scanner) : Option (Token × Scanner) :=
  match scanner.lead with
  | '=' =>
      if scanner.peek = '='.toUInt8 then scanner.advance.operator .equal
      else scanner.operator .assign
  | '!' =>
      if scanner.peek = '='.toUInt8 then scanner.advance.operator .notEqual
      else scanner.operator .bang
  | '"' => scanner.quoted
  | lead =>
      if TokenKind.ofSymbol lead ≠ .illegal then scanner.operator (.ofSymbol lead)
      else if Lexer.isNameChar lead then scanner.word
      else if Lexer.isDigit lead then scanner.number
      else scanner.illegal

def nextToken (scanner : Scanner) : Option (Token × Scanner) := do
  let begun ← scanner.skipBlanks
  if begun.atEnd then return (.endOfInput, begun) else begun.token

def after (scanner : Scanner) : Nat → Option Scanner
  | 0 => some scanner
  | number + 1 => do
      let (_, later) ← scanner.nextToken
      later.after number

end Scanner

end Script
