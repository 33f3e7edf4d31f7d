/-!
# Output

A sink collects the bytes that a program writes. It may have room for a limited number of bytes
only. A write that does not fit leaves the bytes that do fit and fails; an empty write always
succeeds.
-/

set_option autoImplicit false

namespace Script

/-- What can go wrong with a stream of bytes: there is no room left to write to, or what was read
is not text. -/
inductive StreamError where
  | full
  | notText
  deriving DecidableEq, Repr

def StreamError.message : StreamError → String
  | full => "sink full"
  | notText => "stream did not contain valid UTF-8"

/-- The bytes written so far, and how many more there is room for. Without a `room` there is no
limit. -/
structure Sink where
  written : ByteArray
  room : Option Nat

namespace Sink

def empty (room : Option Nat) : Sink := ⟨.empty, room⟩

/-- Write a text as UTF-8. -/
def write : Sink → String → Except StreamError Unit × Sink
  | ⟨written, none⟩, text => (.ok (), ⟨written ++ text.toUTF8, none⟩)
  | ⟨written, some room⟩, text =>
      let bytes := text.toUTF8
      if bytes.size ≤ room then
        (.ok (), ⟨written ++ bytes, some (room - bytes.size)⟩)
      else
        (.error .full, ⟨written ++ bytes.extract 0 room, some 0⟩)

theorem write_unlimited (written : ByteArray) (text : String) :
    write ⟨written, none⟩ text = (.ok (), ⟨written ++ text.toUTF8, none⟩) := rfl

theorem write_of_fits (written : ByteArray) {room : Nat} {text : String}
    (fits : text.toUTF8.size ≤ room) :
    write ⟨written, some room⟩ text =
      (.ok (), ⟨written ++ text.toUTF8, some (room - text.toUTF8.size)⟩) := by
  simp only [write, if_pos fits]

theorem write_of_overflows (written : ByteArray) {room : Nat} {text : String}
    (overflows : room < text.toUTF8.size) :
    write ⟨written, some room⟩ text =
      (.error .full, ⟨written ++ text.toUTF8.extract 0 room, some 0⟩) := by
  simp only [write, if_neg (Nat.not_le.mpr overflows)]

end Sink

end Script
