/-!
# Tokens

A token is a class together with the text that it was read from. The text of a string literal
excludes its quotes. The names of the classes are the ones that syntax errors show.
-/

set_option autoImplicit false

namespace Script

/-- The classes of tokens. `eof` stands for the end of the source and `illegal` for a character
that starts no other token. -/
inductive TokenKind where
  | illegal | eof
  | ident | int | str
  | assign | plus | minus | star | slash | bang
  | less | greater | equal | notEqual
  | comma | semicolon | colon
  | openParen | closeParen | openBrace | closeBrace | openBracket | closeBracket
  | kwFn | kwLet | kwTrue | kwFalse | kwIf | kwElse | kwReturn
  deriving DecidableEq, Repr

namespace TokenKind

/-- The name of a class in messages: operators and punctuation name themselves. -/
def name : TokenKind → String
  | illegal => "ILLEGAL"
  | eof => "EOF"
  | ident => "IDENT"
  | int => "INT"
  | str => "STRING"
  | assign => "="
  | plus => "+"
  | minus => "-"
  | star => "*"
  | slash => "/"
  | bang => "!"
  | less => "<"
  | greater => ">"
  | equal => "=="
  | notEqual => "!="
  | comma => ","
  | semicolon => ";"
  | colon => ":"
  | openParen => "("
  | closeParen => ")"
  | openBrace => "\x7b"
  | closeBrace => "\x7d"
  | openBracket => "["
  | closeBracket => "]"
  | kwFn => "FUNCTION"
  | kwLet => "LET"
  | kwTrue => "TRUE"
  | kwFalse => "FALSE"
  | kwIf => "IF"
  | kwElse => "ELSE"
  | kwReturn => "RETURN"

/-- The class of a reserved word. Words are reserved in lower case only. -/
def keyword? : String → Option TokenKind
  | "fn" => some kwFn
  | "let" => some kwLet
  | "true" => some kwTrue
  | "false" => some kwFalse
  | "if" => some kwIf
  | "else" => some kwElse
  | "return" => some kwReturn
  | _ => none

/-- The class of a character that is a token on its own, `illegal` when it is none. -/
def ofSymbol : Char → TokenKind
  | '=' => assign
  | '!' => bang
  | '+' => plus
  | '-' => minus
  | '*' => star
  | '/' => slash
  | '<' => less
  | '>' => greater
  | ',' => comma
  | ';' => semicolon
  | ':' => colon
  | '(' => openParen
  | ')' => closeParen
  | '\x7b' => openBrace
  | '\x7d' => closeBrace
  | '[' => openBracket
  | ']' => closeBracket
  | _ => illegal

end TokenKind

structure Token where
  kind : TokenKind
  text : String
  deriving DecidableEq, Repr

namespace Token

def endOfInput : Token := ⟨.eof, ""⟩

/-- A run of letters and underscores: a reserved word, or else an identifier. -/
def word (chars : List Char) : Token :=
  let text := String.ofList chars
  ⟨(TokenKind.keyword? text).getD .ident, text⟩

def number (digits : List Char) : Token := ⟨.int, String.ofList digits⟩

/-- A string literal, given by what stands between its quotes. -/
def quoted (chars : List Char) : Token := ⟨.str, String.ofList chars⟩

def symbol (c : Char) : Token := ⟨.ofSymbol c, String.ofList [c]⟩

def comparison (c : Char) : Token :=
  if c = '=' then ⟨.equal, "=="⟩ else ⟨.notEqual, "!="⟩

end Token

end Script
