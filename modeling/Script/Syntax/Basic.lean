import Script.Operator

/-!
# Syntax trees

Programs are lists of statements. Every node keeps the token that introduces it: the operator of a
unary or binary expression, the keyword of a statement, condition or function, the opening bracket
of a call, list, map, index or block. An expression statement keeps the first token of its text,
which is an opening parenthesis when the text starts with one.

The types do not force these tokens to fit their nodes; a tree that was parsed from a source does
have fitting tokens.
-/

set_option autoImplicit false

namespace Script

mutual

/-- Expressions. The name of an identifier and the characters of a string literal are the text of
the token. Grouping parentheses leave no trace. -/
inductive Expr where
  | ident (token : Token)
  | int (token : Token) (value : Int64)
  | bool (token : Token) (value : Bool)
  | str (token : Token)
  | unary (token : Token) (op : UnaryOp) (operand : Expr)
  | binary (token : Token) (op : BinaryOp) (left right : Expr)
  | conditional (token : Token) (condition : Expr) (consequence : Block)
      (alternative : Option Block)
  | function (token : Token) (parameters : List Token) (body : Block)
  | call (token : Token) (callee : Expr) (arguments : List Expr)
  | list (token : Token) (elements : List Expr)
  | map (token : Token) (pairs : List (Expr × Expr))
  | index (token : Token) (collection position : Expr)

structure Block where
  token : Token
  statements : List Stmt

inductive Stmt where
  | bind (token name : Token) (value : Expr)
  | ret (token : Token) (value : Expr)
  | expr (token : Token) (expression : Expr)

end

structure Program where
  statements : List Stmt

namespace Expr

def token : Expr → Token
  | ident token | int token _ | bool token _ | str token | unary token _ _ | binary token _ _ _
  | conditional token _ _ _ | function token _ _ | call token _ _ | list token _ | map token _
  | index token _ _ => token

end Expr

namespace Stmt

def token : Stmt → Token
  | bind token _ _ | ret token _ | expr token _ => token

end Stmt

namespace Program

/-- The text of the first statement's token, empty for a program without statements. -/
def leadingText (program : Program) : String :=
  match program.statements with
  | [] => ""
  | first :: _ => first.token.text

end Program

end Script
