import JsonWriter.Text.Utf16
import JsonWriter.Text.Utf8

/-!
Bodies of JSON strings, made from UTF-8 bytes. The plain form keeps all but quote, backslash and
control characters as they are; the ASCII form also writes every character past U+007F as one or
two UTF-16 units. Both escape single bytes first. The ASCII form then takes longest runs of what looks
like sequences of several bytes and leaves it to the decoder whether they are.
-/

namespace JsonWriter.Escape

/-- The letter of a two-character escape. -/
def short? (n : Nat) : Option Char :=
  match n with
  | 0x08 => some 'b'
  | 0x09 => some 't'
  | 0x0A => some 'n'
  | 0x0C => some 'f'
  | 0x0D => some 'r'
  | 0x22 => some '"'
  | 0x5C => some '\\'
  | _ => none

def hexDigit (n : Nat) : CodePoint :=
  .ofNat (if n % 16 < 10 then 0x30 + n % 16 else 0x61 + (n % 16 - 10))

/-- The lowest digits of `n` to base 16, as many as asked for, in lower case. -/
def hex : Nat → Nat → Text
  | 0, _ => []
  | count + 1, n => hex count (n / 16) ++ [hexDigit n]

/-- The escape of one UTF-16 unit. -/
def unit (n : Nat) : Text := text "\\u" ++ hex 4 n

/-- What stands for a character that may not stand for itself. -/
def image? (n : Nat) : Option Text :=
  match short? n with
  | some letter => some [.ofChar '\\', .ofChar letter]
  | none => if n < 0x20 then some (unit n) else none

/-- The characters that are always escaped, with their escapes. -/
def table : List (Nat × Text) :=
  (List.range 0x20 ++ [0x22, 0x5C]).filterMap fun n => (image? n).map (n, ·)

/-- One unit in the Basic Multilingual Plane, a surrogate pair past it. -/
def units (c : CodePoint) : Text :=
  if c.val < 0x10000 then unit c.val
  else
    let n := c.val - 0x10000
    unit (0xD800 + n / 0x400) ++ unit (0xDC00 + n % 0x400)

/-- The ASCII form of a code point that needs no escape in the plain form. -/
def foldPoint (c : CodePoint) : Text := if c.IsAscii then [c] else units c

/-- The ASCII form of a text, character by character. -/
def fold (t : Text) : Text := t.flatMap foldPoint

/-- The bytes that stand for one byte in the plain form. -/
def imageBytes (b : UInt8) : List UInt8 :=
  match image? b.toNat with
  | some t => t.map fun c => .ofNat c.val
  | none => [b]

/-- The plain body: single bytes are escaped first, and what comes out is decoded as a whole.
Fails with the first byte of the first ill-formed sequence. -/
def plain (raw : List UInt8) : Except UInt8 Text := Utf8.decode (raw.flatMap imageBytes)

/-! ## The ASCII form -/

/-- How many bytes a lead byte of a sequence of several bytes asks for. -/
def following? (b : UInt8) : Option Nat :=
  let n := b.toNat
  if n < 0xC2 then none
  else if n < 0xE0 then some 1
  else if n < 0xF0 then some 2
  else if n < 0xF5 then some 3
  else none

/-- The bytes start with so many continuation bytes. -/
def continues : Nat → List UInt8 → Bool
  | 0, _ => true
  | _ + 1, [] => false
  | count + 1, b :: rest => (Utf8.payload? b).isSome && continues count rest

/-- How many bytes come after the first one in what looks like a sequence of several bytes: any
continuation bytes will do. -/
def sequence? (b : UInt8) (rest : List UInt8) : Option Nat :=
  (following? b).filter fun count => continues count rest

/-- The length of the longest run of sequences of several bytes that the bytes start with. -/
def runLength : List UInt8 → Nat
  | [] => 0
  | b :: rest =>
    match sequence? b rest with
    | none => 0
    | some count => count + 1 + runLength (rest.drop count)
termination_by bytes => bytes.length
decreasing_by simp only [List.length_cons, List.length_drop]; omega

/-- Two digits to base 16 for each byte. -/
def digits (bytes : List UInt8) : Text := bytes.flatMap fun b => hex 2 b.toNat

/-- An escape for each four digits to base 16, the last of them for what is left. -/
def escapes : Text → Text
  | w :: x :: y :: z :: rest => text "\\u" ++ [w, x, y, z] ++ escapes rest
  | [] => []
  | rest => text "\\u" ++ rest

/-- The ASCII form of a run, which is decoded as a whole. Fails with the first byte of the first
ill-formed sequence in it. -/
def foldRun (run : List UInt8) : Except UInt8 Text :=
  (Utf8.decode run).map fun t => escapes (digits (Utf16.encode t))

/-- The bytes with each run in its ASCII form. A byte past ASCII that starts no run is the fault. -/
def foldRuns : List UInt8 → Except UInt8 Text
  | [] => .ok []
  | b :: rest =>
    if b.toNat < 0x80 then (foldRuns rest).map (.ofByte b :: ·)
    else
      match runLength (b :: rest) with
      | 0 => .error b
      | count + 1 =>
        match foldRun (b :: rest.take count) with
        | .error e => .error e
        | .ok folded => (foldRuns (rest.drop count)).map (folded ++ ·)
termination_by bytes => bytes.length
decreasing_by all_goals simp only [List.length_cons, List.length_drop]; omega

/-- The ASCII body: single bytes are escaped first, and in what comes out runs are folded. Fails with
the first byte of the first ill-formed sequence. -/
def ascii (raw : List UInt8) : Except UInt8 Text := foldRuns (raw.flatMap imageBytes)

end JsonWriter.Escape
