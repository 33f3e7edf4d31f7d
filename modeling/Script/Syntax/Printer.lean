import Script.Syntax.Basic
import Script.Text

/-!
# Canonical text

Every tree has one canonical text. Unary, binary and index expressions carry parentheses of their
own, so that the text does not depend on binding powers. Statements inside a block end with `;`;
top-level expression statements stand without one and nothing separates them.
-/

set_option autoImplicit false

namespace Script

mutual

def Expr.render : Expr → String
  | .ident token => token.text
  | .int token _ => token.text
  | .bool token _ => token.text
  | .str token => "\"" ++ token.text ++ "\""
  | .unary _ op operand => "(" ++ op.symbol ++ operand.render ++ ")"
  | .binary _ op left right =>
      "(" ++ left.render ++ " " ++ op.symbol ++ " " ++ right.render ++ ")"
  | .conditional _ condition consequence none =>
      "if (" ++ condition.render ++ ") " ++ consequence.render
  | .conditional _ condition consequence (some alternative) =>
      "if (" ++ condition.render ++ ") " ++ consequence.render ++ " else " ++ alternative.render
  | .function _ parameters body =>
      "fn(" ++ Text.join ", " (parameters.map Token.text) ++ ") " ++ body.render
  | .call _ callee arguments =>
      callee.render ++ "(" ++ Text.join ", " (Expr.renderAll arguments) ++ ")"
  | .list _ elements => "[" ++ Text.join ", " (Expr.renderAll elements) ++ "]"
  | .map _ pairs => "\x7b" ++ Text.join ", " (Expr.renderPairs pairs) ++ "\x7d"
  | .index _ collection position => "(" ++ collection.render ++ "[" ++ position.render ++ "])"

def Expr.renderAll : List Expr → List String
  | [] => []
  | expr :: rest => expr.render :: Expr.renderAll rest

def Expr.renderPairs : List (Expr × Expr) → List String
  | [] => []
  | (key, value) :: rest => (key.render ++ ": " ++ value.render) :: Expr.renderPairs rest

def Block.render : Block → String
  | ⟨_, statements⟩ => "\x7b " ++ Stmt.renderInBlock statements ++ "\x7d"

/-- The statements of a block, each closed by `;` and followed by a blank. -/
def Stmt.renderInBlock : List Stmt → String
  | [] => ""
  | .expr _ expression :: rest => expression.render ++ "; " ++ Stmt.renderInBlock rest
  | .bind _ name value :: rest =>
      "let " ++ name.text ++ " = " ++ value.render ++ "; " ++ Stmt.renderInBlock rest
  | .ret _ value :: rest => "return " ++ value.render ++ "; " ++ Stmt.renderInBlock rest

end

/-- The canonical text of a statement outside a block. -/
def Stmt.render : Stmt → String
  | .bind _ name value => "let " ++ name.text ++ " = " ++ value.render ++ ";"
  | .ret _ value => "return " ++ value.render ++ ";"
  | .expr _ expression => expression.render

def Program.render (program : Program) : String :=
  Text.join "" (program.statements.map Stmt.render)

theorem Expr.renderAll_eq_map (exprs : List Expr) :
    Expr.renderAll exprs = exprs.map Expr.render := by
  induction exprs with
  | nil => rfl
  | cons expr rest ih => rw [Expr.renderAll, ih, List.map_cons]

theorem Expr.renderPairs_eq_map (pairs : List (Expr × Expr)) :
    Expr.renderPairs pairs =
      pairs.map (fun pair => pair.1.render ++ ": " ++ pair.2.render) := by
  induction pairs with
  | nil => rfl
  | cons pair rest ih => rw [Expr.renderPairs, ih, List.map_cons]

end Script
