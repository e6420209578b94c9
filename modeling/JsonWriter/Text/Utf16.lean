import JsonWriter.Text.Basic

/-!
UTF-16 with the high byte of a unit first: one unit for a code point in the Basic Multilingual Plane, a
surrogate pair past it.
-/

namespace JsonWriter.Utf16

def units (c : CodePoint) : List Nat :=
  if c.val < 0x10000 then [c.val]
  else
    let n := c.val - 0x10000
    [0xD800 + n / 0x400, 0xDC00 + n % 0x400]

def unitBytes (n : Nat) : List UInt8 := [.ofNat (n / 0x100), .ofNat (n % 0x100)]

/-- The bytes of a text; meant for those without surrogates. -/
def encode (t : Text) : List UInt8 := (t.flatMap units).flatMap unitBytes

end JsonWriter.Utf16
