import Mathlib.Logic.Relation
import Script.Proofs.Coherence

/-!
# Pieces of code

Which expressions, blocks and statements a syntax tree is made of, at every depth and also inside
the bodies of functions. Every piece of a coherent tree is coherent, so that what parsing promises
of a program it promises of each piece of it.
-/

set_option autoImplicit false

namespace Script

inductive Code where
  | expr (expr : Expr)
  | block (block : Block)
  | stmt (stmt : Stmt)

namespace Code

inductive Child : Code → Code → Prop where
  | operand {token op operand} : Child (.expr (.unary token op operand)) (.expr operand)
  | left {token op left right} : Child (.expr (.binary token op left right)) (.expr left)
  | right {token op left right} : Child (.expr (.binary token op left right)) (.expr right)
  | condition {token condition consequence alternative} :
      Child (.expr (.conditional token condition consequence alternative)) (.expr condition)
  | consequence {token condition consequence alternative} :
      Child (.expr (.conditional token condition consequence alternative)) (.block consequence)
  | alternative {token condition consequence alternative} :
      Child (.expr (.conditional token condition consequence (some alternative)))
        (.block alternative)
  | body {token parameters body} : Child (.expr (.function token parameters body)) (.block body)
  | callee {token callee arguments} : Child (.expr (.call token callee arguments)) (.expr callee)
  | argument {token callee arguments argument} : argument ∈ arguments →
      Child (.expr (.call token callee arguments)) (.expr argument)
  | element {token elements element} : element ∈ elements →
      Child (.expr (.list token elements)) (.expr element)
  | key {token pairs key value} : (key, value) ∈ pairs →
      Child (.expr (.map token pairs)) (.expr key)
  | value {token pairs key value} : (key, value) ∈ pairs →
      Child (.expr (.map token pairs)) (.expr value)
  | collection {token collection position} :
      Child (.expr (.index token collection position)) (.expr collection)
  | position {token collection position} :
      Child (.expr (.index token collection position)) (.expr position)
  | statement {token statements stmt} : stmt ∈ statements →
      Child (.block ⟨token, statements⟩) (.stmt stmt)
  | bound {token name value} : Child (.stmt (.bind token name value)) (.expr value)
  | returned {token value} : Child (.stmt (.ret token value)) (.expr value)
  | plain {token expression} : Child (.stmt (.expr token expression)) (.expr expression)

def Contains : Code → Code → Prop := Relation.ReflTransGen Child

def Coherent : Code → Prop
  | .expr code => code.Coherent
  | .block code => code.Coherent
  | .stmt code => code.Coherent

end Code

def Program.Contains (program : Program) (code : Code) : Prop :=
  ∃ stmt ∈ program.statements, (Code.stmt stmt).Contains code

private theorem Expr.coherent_of_mem {exprs : List Expr} {expr : Expr}
    (coherent : Expr.CoherentAll exprs)
    (member : expr ∈ exprs) : expr.Coherent := by
  induction exprs with
  | nil => cases member
  | cons first rest ih =>
      cases member with
      | head => exact coherent.1
      | tail _ later => exact ih coherent.2 later

private theorem Expr.coherent_of_mem_pairs {pairs : List (Expr × Expr)} {key value : Expr}
    (coherent : Expr.CoherentPairs pairs) (member : (key, value) ∈ pairs) :
    key.Coherent ∧ value.Coherent := by
  induction pairs with
  | nil => cases member
  | cons first rest ih =>
      cases member with
      | head => exact ⟨coherent.1, coherent.2.1⟩
      | tail _ later => exact ih coherent.2.2 later

theorem Stmt.coherent_of_mem {stmts : List Stmt} {stmt : Stmt} (coherent : Stmt.CoherentAll stmts)
    (member : stmt ∈ stmts) : stmt.Coherent := by
  induction stmts with
  | nil => cases member
  | cons first rest ih =>
      cases member with
      | head => exact coherent.1
      | tail _ later => exact ih coherent.2 later

namespace Code

theorem Child.coherent {outer inner : Code} (child : Child outer inner)
    (coherent : outer.Coherent) : inner.Coherent := by
  cases child with
  | operand => exact coherent.2
  | left => exact coherent.2.1
  | right => exact coherent.2.2
  | @condition _ _ _ alternative => cases alternative <;> exact coherent.2.1
  | @consequence _ _ _ alternative =>
      cases alternative with
      | none => exact coherent.2.2
      | some _ => exact coherent.2.2.1
  | alternative => exact coherent.2.2.2
  | body => exact coherent.2.2
  | callee => exact coherent.2.1
  | argument member => exact Expr.coherent_of_mem coherent.2.2 member
  | element member => exact Expr.coherent_of_mem coherent.2 member
  | key member => exact (Expr.coherent_of_mem_pairs coherent.2 member).1
  | value member => exact (Expr.coherent_of_mem_pairs coherent.2 member).2
  | collection => exact coherent.2.1
  | position => exact coherent.2.2
  | statement member => exact Stmt.coherent_of_mem coherent.2 member
  | bound => exact coherent.2.2
  | returned => exact coherent.2
  | plain => exact coherent

/-- All code that stands in coherent code is coherent. -/
theorem Contains.coherent {outer inner : Code} (contains : outer.Contains inner)
    (coherent : outer.Coherent) : inner.Coherent := by
  induction contains with
  | refl => exact coherent
  | tail _ child ih => exact child.coherent ih

end Code

/-- Every piece of a program that was parsed is coherent. -/
theorem Program.coherent_of_contains {source : String} {code : Code}
    (contains : (Program.parse source).1.Contains code) : code.Coherent := by
  obtain ⟨stmt, member, inside⟩ := contains
  exact inside.coherent (Stmt.coherent_of_mem (Program.parse_coherent source) member)

end Script
