import Script.Value.Kind

/-!
# Map keys

Integers, booleans and strings can be keys. Two keys are the same when they have the same kind and
the same 64-bit digest, so two strings whose FNV-1a digests collide are one key.
-/

set_option autoImplicit false

namespace Script

/-- The 64-bit FNV-1a digest of a sequence of bytes. -/
def fnv1a (bytes : List UInt8) : UInt64 :=
  bytes.foldl (fun digest byte => (digest ^^^ byte.toUInt64) * 0x100000001b3) 0xcbf29ce484222325

structure HashKey where
  kind : ValueKind
  digest : UInt64
  deriving DecidableEq, Repr

/-- A value that can be a map key. A string is kept without its identity: no operation gives a key
of a map back as a value, so that nothing can tell. -/
inductive Key where
  | int (n : Int64)
  | bool (b : Bool)
  | str (text : String)
  deriving DecidableEq

namespace Key

def kind : Key → ValueKind
  | int _ => .int
  | bool _ => .bool
  | str _ => .str

/-- The digest of an integer is its 64 bits, of a boolean 0 or 1, of a string the one of its
UTF-8 bytes. -/
def digest : Key → UInt64
  | int n => n.toUInt64
  | bool false => 0
  | bool true => 1
  | str text => fnv1a text.toUTF8.data.toList

def hash (key : Key) : HashKey := ⟨key.kind, key.digest⟩

end Key

end Script
