import JsonWriter.Text.Basic

/-!
UTF-8: the byte form of a code point, and a strict decoder that stops at the first ill-formed
sequence and names the byte it starts with. Surrogates have no byte form.
-/

namespace JsonWriter.Utf8

/-- The continuation byte for the low six bits of `n`. -/
def continuation (n : Nat) : UInt8 := .ofNat (0x80 + n % 0x40)

/-- The one to four bytes of a code point; meant for those that are no surrogates. -/
def encodePoint (c : CodePoint) : List UInt8 :=
  let n := c.val
  if n < 0x80 then [.ofNat n]
  else if n < 0x800 then [.ofNat (0xC0 + n / 0x40), continuation n]
  else if n < 0x10000 then
    [.ofNat (0xE0 + n / 0x1000), continuation (n / 0x40), continuation n]
  else
    [.ofNat (0xF0 + n / 0x40000), continuation (n / 0x1000), continuation (n / 0x40),
      continuation n]

/-- The bytes of a text, none when it holds a surrogate. -/
def encode? (t : Text) : Option (List UInt8) :=
  if t.IsScalar then some (t.flatMap encodePoint) else none

/-- The low six bits of a continuation byte, none for any other byte. -/
def payload? (b : UInt8) : Option Nat :=
  if 0x80 ≤ b.toNat ∧ b.toNat < 0xC0 then some (b.toNat - 0x80) else none

/-- The number that `n` and the next `count` continuation bytes spell, six bits a byte. -/
def spell? (n : Nat) : Nat → List UInt8 → Option Nat
  | 0, _ => some n
  | _ + 1, [] => none
  | count + 1, b :: rest =>
    match payload? b with
    | some low => spell? (n * 0x40 + low) count rest
    | none => none

/-- How many continuation bytes follow a lead byte, the bits it gives, and the least number that
needs a sequence of this length. -/
def lead? (b : UInt8) : Option (Nat × Nat × Nat) :=
  let n := b.toNat
  if n < 0x80 then some (0, n, 0)
  else if n < 0xC0 then none
  else if n < 0xE0 then some (1, n - 0xC0, 0x80)
  else if n < 0xF0 then some (2, n - 0xE0, 0x800)
  else if n < 0xF8 then some (3, n - 0xF0, 0x10000)
  else none

/-- The code point that the bytes start with and the number of bytes after its first; none when
the sequence is cut short, longer than needed, a surrogate or past the code space. -/
def head? (b : UInt8) (rest : List UInt8) : Option (CodePoint × Nat) :=
  match lead? b with
  | none => none
  | some (count, bits, least) =>
    match spell? bits count rest with
    | none => none
    | some n =>
      if h : n < 0x110000 then
        if least ≤ n ∧ ¬ CodePoint.IsSurrogate ⟨n, h⟩ then some (⟨n, h⟩, count) else none
      else none

/-- The text of well-formed bytes, else the first byte of the first ill-formed sequence. -/
def decode : List UInt8 → Except UInt8 Text
  | [] => .ok []
  | b :: rest =>
    match head? b rest with
    | none => .error b
    | some (c, count) => (decode (rest.drop count)).map (c :: ·)
termination_by bytes => bytes.length
decreasing_by simp only [List.length_cons, List.length_drop]; omega

end JsonWriter.Utf8
