/-!
Text as a sequence of Unicode code points. Surrogates may stand alone, so a text is not always
a `String`.
-/

namespace JsonWriter

/-- A number in the Unicode code space, surrogates included. -/
structure CodePoint where
  val : Nat
  isLt : val < 0x110000
deriving DecidableEq

abbrev Text := List CodePoint

namespace CodePoint

def ofChar (c : Char) : CodePoint :=
  ⟨c.val.toNat, by
    have h := c.valid
    simp only [UInt32.isValidChar, Nat.isValidChar] at h
    omega⟩

/-- The code point of that number; numbers outside the code space give U+0000. -/
def ofNat (n : Nat) : CodePoint := if h : n < 0x110000 then ⟨n, h⟩ else ⟨0, by decide⟩

def ofByte (b : UInt8) : CodePoint := ⟨b.toNat, by have := b.toNat_lt; omega⟩

def IsSurrogate (c : CodePoint) : Prop := 0xD800 ≤ c.val ∧ c.val < 0xE000

instance (c : CodePoint) : Decidable c.IsSurrogate := inferInstanceAs (Decidable (_ ∧ _))

def IsAscii (c : CodePoint) : Prop := c.val < 0x80

instance (c : CodePoint) : Decidable c.IsAscii := inferInstanceAs (Decidable (_ < _))

theorem ofNat_val (c : CodePoint) : ofNat c.val = c := by simp [ofNat, c.isLt]

theorem val_ofNat {n : Nat} (h : n < 0x110000) : (ofNat n).val = n := by simp [ofNat, h]

end CodePoint

/-- The text of fixed wording. -/
def text (s : String) : Text := s.toList.map CodePoint.ofChar

/-- The items `n` times over. Where there are none that takes no time, however great `n` is. -/
def copies {α : Type} (items : List α) (n : Nat) : List α :=
  if items.isEmpty then [] else (List.replicate n items).flatten

namespace Text

/-- No surrogate stands in the text, so it has a UTF-8 form. -/
def IsScalar (t : Text) : Prop := ∀ c ∈ t, ¬ c.IsSurrogate

instance (t : Text) : Decidable (IsScalar t) := inferInstanceAs (Decidable (∀ c ∈ t, _))

def IsAscii (t : Text) : Prop := ∀ c ∈ t, c.IsAscii

instance (t : Text) : Decidable (IsAscii t) := inferInstanceAs (Decidable (∀ c ∈ t, _))

/-- The texts in order with the separator between each two. -/
def join (separator : Text) (ts : List Text) : Text := (ts.intersperse separator).flatten

end Text

end JsonWriter
