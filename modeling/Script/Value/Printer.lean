import Script.Syntax.Printer
import Script.Value.Basic

/-!
# Displayed values

The text that output and the interactive session show for a value. A string shows its characters
without quotes, a function its canonical text, and an error its message behind `ERROR: `. In which
order a map shows its entries is left open: an arrangement chooses it, for each map on its own.
-/

set_option autoImplicit false

namespace Script

/-- The order in which maps show their entries. It permutes the texts of the entries, and each map,
named by its identity, may have a permutation of its own. -/
structure Arrangement where
  order : Ref → List String → List String
  perm : ∀ ref texts, (order ref texts).Perm texts

def Arrangement.byInsertion : Arrangement := ⟨fun _ texts => texts, fun _ _ => .refl _⟩

def Closure.render (closure : Closure) : String :=
  "fn(" ++ Text.join ", " (closure.parameters.map Token.text) ++ ") " ++ closure.body.render

def Key.render : Key → String
  | .int n => Text.decimal n.toInt
  | .bool b => Text.boolean b
  | .str text => text

mutual

def Value.render (arrangement : Arrangement := .byInsertion) : Value → String
  | .null => "null"
  | .bool b => Text.boolean b
  | .int n => Text.decimal n.toInt
  | .str _ text => text
  | .list _ items => "[" ++ Text.join ", " (Value.renderAll arrangement items) ++ "]"
  | .map ref entries =>
      "\x7b" ++ Text.join ", " (arrangement.order ref (Value.renderEntries arrangement entries)) ++
        "\x7d"
  | .function _ closure => closure.render
  | .builtin _ => "builtin function"
  | .returned value => value.render arrangement
  | .error cause => "ERROR: " ++ cause.message

def Value.renderAll (arrangement : Arrangement) : List Value → List String
  | [] => []
  | value :: rest => value.render arrangement :: Value.renderAll arrangement rest

def Value.renderEntries (arrangement : Arrangement) : List (Key × Value) → List String
  | [] => []
  | (key, value) :: rest =>
      (key.render ++ ": " ++ value.render arrangement) :: Value.renderEntries arrangement rest

end

theorem Value.renderAll_eq_map (arrangement : Arrangement) (values : List Value) :
    Value.renderAll arrangement values = values.map (Value.render arrangement) := by
  induction values with
  | nil => rfl
  | cons value rest ih => rw [Value.renderAll, ih, List.map_cons]

end Script
