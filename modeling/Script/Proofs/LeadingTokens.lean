import Script.Syntax.Printer

/-!
# Trees without leading tokens

An expression statement keeps the first token of its text, which depends on the parentheses that
the text starts with. Everything else in a tree is independent of grouping, so that trees are
compared after these tokens have been replaced, at every depth, by a fixed one.
-/

set_option autoImplicit false

namespace Script

mutual

/-- The expression with a fixed token at each expression statement inside of it. -/
def Expr.dropLeads : Expr → Expr
  | .ident token => .ident token
  | .int token value => .int token value
  | .bool token value => .bool token value
  | .str token => .str token
  | .unary token op operand => .unary token op operand.dropLeads
  | .binary token op left right => .binary token op left.dropLeads right.dropLeads
  | .conditional token condition consequence none =>
      .conditional token condition.dropLeads consequence.dropLeads none
  | .conditional token condition consequence (some alternative) =>
      .conditional token condition.dropLeads consequence.dropLeads (some alternative.dropLeads)
  | .function token parameters body => .function token parameters body.dropLeads
  | .call token callee arguments =>
      .call token callee.dropLeads (Expr.dropLeadsAll arguments)
  | .list token elements => .list token (Expr.dropLeadsAll elements)
  | .map token pairs => .map token (Expr.dropLeadsPairs pairs)
  | .index token collection position => .index token collection.dropLeads position.dropLeads

def Expr.dropLeadsAll : List Expr → List Expr
  | [] => []
  | expr :: rest => expr.dropLeads :: Expr.dropLeadsAll rest

def Expr.dropLeadsPairs : List (Expr × Expr) → List (Expr × Expr)
  | [] => []
  | (key, value) :: rest => (key.dropLeads, value.dropLeads) :: Expr.dropLeadsPairs rest

def Block.dropLeads : Block → Block
  | ⟨token, statements⟩ => ⟨token, Stmt.dropLeadsAll statements⟩

def Stmt.dropLeadsAll : List Stmt → List Stmt
  | [] => []
  | stmt :: rest => stmt.dropLeads :: Stmt.dropLeadsAll rest

def Stmt.dropLeads : Stmt → Stmt
  | .bind token name value => .bind token name value.dropLeads
  | .ret token value => .ret token value.dropLeads
  | .expr _ expression => .expr .endOfInput expression.dropLeads

end

def Program.dropLeads (program : Program) : Program := ⟨Stmt.dropLeadsAll program.statements⟩

/-! ## What the leading tokens do not decide -/

mutual

/-- The canonical text does not depend on the tokens that expression statements keep. -/
theorem Expr.render_dropLeads : (expr : Expr) → expr.dropLeads.render = expr.render
  | .ident _ | .int _ _ | .bool _ _ | .str _ => rfl
  | .unary _ _ operand => by
      simp only [Expr.dropLeads, Expr.render, operand.render_dropLeads]
  | .binary _ _ left right => by
      simp only [Expr.dropLeads, Expr.render, left.render_dropLeads, right.render_dropLeads]
  | .conditional _ condition consequence none => by
      simp only [Expr.dropLeads, Expr.render, condition.render_dropLeads,
        consequence.render_dropLeads]
  | .conditional _ condition consequence (some alternative) => by
      simp only [Expr.dropLeads, Expr.render, condition.render_dropLeads,
        consequence.render_dropLeads, alternative.render_dropLeads]
  | .function _ _ body => by
      simp only [Expr.dropLeads, Expr.render, body.render_dropLeads]
  | .call _ callee arguments => by
      simp only [Expr.dropLeads, Expr.render, callee.render_dropLeads,
        Expr.renderAll_dropLeadsAll arguments]
  | .list _ elements => by
      simp only [Expr.dropLeads, Expr.render, Expr.renderAll_dropLeadsAll elements]
  | .map _ pairs => by
      simp only [Expr.dropLeads, Expr.render, Expr.renderPairs_dropLeadsPairs pairs]
  | .index _ collection position => by
      simp only [Expr.dropLeads, Expr.render, collection.render_dropLeads,
        position.render_dropLeads]

theorem Expr.renderAll_dropLeadsAll :
    (exprs : List Expr) → Expr.renderAll (Expr.dropLeadsAll exprs) = Expr.renderAll exprs
  | [] => rfl
  | expr :: rest => by
      simp only [Expr.dropLeadsAll, Expr.renderAll, expr.render_dropLeads,
        Expr.renderAll_dropLeadsAll rest]

theorem Expr.renderPairs_dropLeadsPairs : (pairs : List (Expr × Expr)) →
    Expr.renderPairs (Expr.dropLeadsPairs pairs) = Expr.renderPairs pairs
  | [] => rfl
  | (key, value) :: rest => by
      simp only [Expr.dropLeadsPairs, Expr.renderPairs, key.render_dropLeads,
        value.render_dropLeads, Expr.renderPairs_dropLeadsPairs rest]

theorem Block.render_dropLeads : (block : Block) → block.dropLeads.render = block.render
  | ⟨_, statements⟩ => by
      simp only [Block.dropLeads, Block.render, Stmt.renderInBlock_dropLeadsAll statements]

theorem Stmt.renderInBlock_dropLeadsAll : (stmts : List Stmt) →
    Stmt.renderInBlock (Stmt.dropLeadsAll stmts) = Stmt.renderInBlock stmts
  | [] => rfl
  | .bind _ _ value :: rest | .ret _ value :: rest | .expr _ value :: rest => by
      simp only [Stmt.dropLeadsAll, Stmt.dropLeads, Stmt.renderInBlock, value.render_dropLeads,
        Stmt.renderInBlock_dropLeadsAll rest]

end

private theorem Stmt.render_dropLeads (stmt : Stmt) : stmt.dropLeads.render = stmt.render := by
  cases stmt <;> simp only [Stmt.dropLeads, Stmt.render, Expr.render_dropLeads]

private theorem Stmt.map_render_dropLeadsAll (stmts : List Stmt) :
    (Stmt.dropLeadsAll stmts).map Stmt.render = stmts.map Stmt.render := by
  induction stmts with
  | nil => rfl
  | cons stmt stmts ih =>
      rw [Stmt.dropLeadsAll, List.map_cons, List.map_cons, stmt.render_dropLeads, ih]

/-- The canonical text shows no leading token. -/
theorem Program.render_dropLeads (program : Program) :
    program.dropLeads.render = program.render := by
  rw [Program.render, Program.render, Program.dropLeads, Stmt.map_render_dropLeadsAll]

end Script
