/-!
# Text

Rules on plain text that several printers and readers share: separated lists, the spelling of
integers and booleans, and the right trim of an input line.
-/

set_option autoImplicit false

namespace Script.Text

/-- The items in order with `separator` between neighbours, and nothing before the first or after
the last. -/
def join (separator : String) : List String → String
  | [] => ""
  | [item] => item
  | item :: next :: rest => item ++ separator ++ join separator (next :: rest)

/-- The decimal spelling of an integer: no leading zeros, and a minus sign exactly when it is
negative. -/
def decimal (n : Int) : String :=
  let digits := String.ofList (Nat.toDigits 10 n.natAbs)
  if n < 0 then "-" ++ digits else digits

def boolean : Bool → String
  | true => "true"
  | false => "false"

/-- The characters with the Unicode property `White_Space`. -/
def isWhiteSpace (c : Char) : Bool :=
  let code := c.toNat
  (0x9 ≤ code && code ≤ 0xd) || code = 0x20 || code = 0x85 || code = 0xa0 || code = 0x1680 ||
    (0x2000 ≤ code && code ≤ 0x200a) || code = 0x2028 || code = 0x2029 || code = 0x202f ||
    code = 0x205f || code = 0x3000

/-- The characters without the white space at their end. White space before another character
stays. -/
def trimEnd (chars : List Char) : List Char :=
  (chars.reverse.dropWhile isWhiteSpace).reverse

@[simp]
theorem join_nil (separator : String) : join separator [] = "" := rfl

@[simp]
theorem join_singleton (separator item : String) : join separator [item] = item := rfl

theorem join_cons_cons (separator item next : String) (rest : List String) :
    join separator (item :: next :: rest) = item ++ separator ++ join separator (next :: rest) :=
  rfl

end Script.Text
