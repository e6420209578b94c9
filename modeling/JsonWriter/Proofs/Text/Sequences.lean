import JsonWriter.Proofs.Text.Utf8

/-!
# Well-formed UTF-8

The sequences of bytes that UTF-8 has, by the ranges that their bytes are in, and the place where bytes
are no longer made of them. Main statements: `decode_eq_ok_iff` and `decode_eq_error_iff`, the decoder
takes just the well-formed bytes and stops where the first ill-formed sequence starts.
-/

namespace JsonWriter.Utf8

/-! ## Sequences -/

abbrev Between (low high : Nat) (b : UInt8) : Prop := low ≤ b.toNat ∧ b.toNat ≤ high

/-- A continuation byte. -/
abbrev Tail (b : UInt8) : Prop := Between 0x80 0xBF b

/-- The bytes of one character: none longer than needed, none for a surrogate and none past the code
space. -/
inductive Sequence : List UInt8 → Prop
  | ascii {b : UInt8} (hb : Between 0x00 0x7F b) : Sequence [b]
  | two {b c : UInt8} (hb : Between 0xC2 0xDF b) (hc : Tail c) : Sequence [b, c]
  | threeLow {b c d : UInt8} (hb : Between 0xE0 0xE0 b) (hc : Between 0xA0 0xBF c) (hd : Tail d) :
    Sequence [b, c, d]
  | three {b c d : UInt8} (hb : Between 0xE1 0xEC b) (hc : Tail c) (hd : Tail d) : Sequence [b, c, d]
  | threeBelowSurrogates {b c d : UInt8} (hb : Between 0xED 0xED b) (hc : Between 0x80 0x9F c)
    (hd : Tail d) : Sequence [b, c, d]
  | threeHigh {b c d : UInt8} (hb : Between 0xEE 0xEF b) (hc : Tail c) (hd : Tail d) :
    Sequence [b, c, d]
  | fourLow {b c d e : UInt8} (hb : Between 0xF0 0xF0 b) (hc : Between 0x90 0xBF c) (hd : Tail d)
    (he : Tail e) : Sequence [b, c, d, e]
  | four {b c d e : UInt8} (hb : Between 0xF1 0xF3 b) (hc : Tail c) (hd : Tail d) (he : Tail e) :
    Sequence [b, c, d, e]
  | fourHigh {b c d e : UInt8} (hb : Between 0xF4 0xF4 b) (hc : Between 0x80 0x8F c) (hd : Tail d)
    (he : Tail e) : Sequence [b, c, d, e]

theorem spell?_tail {n count : Nat} {b : UInt8} (hb : Tail b) (rest : List UInt8) :
    spell? n (count + 1) (b :: rest) = spell? (n * 0x40 + (b.toNat - 0x80)) count rest := by
  have hpayload : payload? b = some (b.toNat - 0x80) := if_pos (by omega)
  rw [spell?, hpayload]

/-- A lead byte, its continuation bytes and a number that they may spell. -/
theorem exists_encodePoint {b : UInt8} {bs : List UInt8} {bits least n : Nat}
    (hlead : lead? b = some (bs.length, bits, least)) (hspell : spell? bits bs.length bs = some n)
    (hleast : least ≤ n) (hlt : n < 0x110000) (hsurrogate : n < 0xD800 ∨ 0xE000 ≤ n) :
    ∃ c : CodePoint, ¬ c.IsSurrogate ∧ encodePoint c = b :: bs := by
  have hc : ¬ CodePoint.IsSurrogate ⟨n, hlt⟩ := by
    simp only [CodePoint.IsSurrogate]
    omega
  have hhead : head? b bs = some (⟨n, hlt⟩, bs.length) := head?_eq hc bits least hlead hspell hleast
  obtain ⟨-, hbytes⟩ := eq_encodePoint_of_head? hhead
  rw [List.drop_length, List.append_nil] at hbytes
  exact ⟨_, hc, hbytes.symm⟩

/-- The bytes of a three-byte sequence spell a number between those of its ends. -/
theorem exists_encodePoint_three {b c d : UInt8} (hb : Between 0xE0 0xEF b) (hc : Tail c)
    (hd : Tail d) {n : Nat}
    (hn : n = (b.toNat - 0xE0) * 0x1000 + (c.toNat - 0x80) * 0x40 + (d.toNat - 0x80))
    (hleast : 0x800 ≤ n) (hsurrogate : n < 0xD800 ∨ 0xE000 ≤ n) :
    ∃ c' : CodePoint, ¬ c'.IsSurrogate ∧ encodePoint c' = [b, c, d] := by
  have hlead : lead? b = some (2, b.toNat - 0xE0, 0x800) := by
    simp only [lead?]
    rw [if_neg (by omega), if_neg (by omega), if_neg (by omega), if_pos (by omega)]
  have hspell : spell? (b.toNat - 0xE0) 2 [c, d] = some n := by
    rw [spell?_tail hc, spell?_tail hd, spell?, hn]
    exact congrArg some (by omega)
  exact exists_encodePoint hlead hspell hleast (by omega) hsurrogate

theorem exists_encodePoint_four {b c d e : UInt8} (hb : Between 0xF0 0xF4 b) (hc : Tail c)
    (hd : Tail d) (he : Tail e) {n : Nat}
    (hn : n = (b.toNat - 0xF0) * 0x40000 + (c.toNat - 0x80) * 0x1000 + (d.toNat - 0x80) * 0x40 +
      (e.toNat - 0x80)) (hleast : 0x10000 ≤ n) (hlt : n < 0x110000) :
    ∃ c' : CodePoint, ¬ c'.IsSurrogate ∧ encodePoint c' = [b, c, d, e] := by
  have hlead : lead? b = some (3, b.toNat - 0xF0, 0x10000) := by
    simp only [lead?]
    rw [if_neg (by omega), if_neg (by omega), if_neg (by omega), if_neg (by omega),
      if_pos (by omega)]
  have hspell : spell? (b.toNat - 0xF0) 3 [c, d, e] = some n := by
    rw [spell?_tail hc, spell?_tail hd, spell?_tail he, spell?, hn]
    exact congrArg some (by omega)
  exact exists_encodePoint hlead hspell hleast hlt (by omega)

theorem Sequence.exists_encodePoint {bytes : List UInt8} (h : Sequence bytes) :
    ∃ c : CodePoint, ¬ c.IsSurrogate ∧ encodePoint c = bytes := by
  cases h with
  | @ascii b hb =>
    have hlead : lead? b = some (0, b.toNat, 0) := if_pos (by omega)
    have hspell : spell? b.toNat 0 [] = some b.toNat := rfl
    exact Utf8.exists_encodePoint hlead hspell (by omega) (by omega) (by omega)
  | @two b c hb hc =>
    have hlead : lead? b = some (1, b.toNat - 0xC0, 0x80) := by
      simp only [lead?]
      rw [if_neg (by omega), if_neg (by omega), if_pos (by omega)]
    have hspell : spell? (b.toNat - 0xC0) 1 [c] = some ((b.toNat - 0xC0) * 0x40 + (c.toNat - 0x80)) :=
      spell?_tail hc []
    exact Utf8.exists_encodePoint hlead hspell (by omega) (by omega) (by omega)
  | threeLow hb hc hd =>
    exact exists_encodePoint_three (by omega) (by omega) hd rfl (by omega) (by omega)
  | three hb hc hd =>
    exact exists_encodePoint_three (by omega) hc hd rfl (by omega) (by omega)
  | threeBelowSurrogates hb hc hd =>
    exact exists_encodePoint_three (by omega) (by omega) hd rfl (by omega) (by omega)
  | threeHigh hb hc hd =>
    exact exists_encodePoint_three (by omega) hc hd rfl (by omega) (by omega)
  | fourLow hb hc hd he =>
    exact exists_encodePoint_four (by omega) (by omega) hd he rfl (by omega) (by omega)
  | four hb hc hd he =>
    exact exists_encodePoint_four (by omega) hc hd he rfl (by omega) (by omega)
  | fourHigh hb hc hd he =>
    exact exists_encodePoint_four (by omega) (by omega) hd he rfl (by omega) (by omega)

theorem tail_continuation (n : Nat) : Tail (continuation n) := by
  rw [Tail, Between, continuation, toNat_ofNat_of_lt (by omega)]
  omega

theorem between_ofNat {low high n : Nat} (hlow : low ≤ n) (hhigh : n ≤ high) (h : n < 0x100) :
    Between low high (.ofNat n) := by
  rw [Between, toNat_ofNat_of_lt h]
  exact ⟨hlow, hhigh⟩

theorem between_continuation {low high n : Nat} (hlow : low ≤ 0x80 + n % 0x40)
    (hhigh : 0x80 + n % 0x40 ≤ high) : Between low high (continuation n) :=
  between_ofNat hlow hhigh (by omega)

theorem sequence_encodePoint {c : CodePoint} (hc : ¬ c.IsSurrogate) : Sequence (encodePoint c) := by
  have hlt := c.isLt
  simp only [CodePoint.IsSurrogate] at hc
  simp only [encodePoint]
  split
  · exact .ascii (between_ofNat (by omega) (by omega) (by omega))
  split
  · exact .two (between_ofNat (by omega) (by omega) (by omega)) (tail_continuation _)
  split
  · by_cases h1 : c.val < 0x1000
    · exact .threeLow (between_ofNat (by omega) (by omega) (by omega))
        (between_continuation (by omega) (by omega)) (tail_continuation _)
    by_cases h2 : c.val < 0xD000
    · exact .three (between_ofNat (by omega) (by omega) (by omega)) (tail_continuation _)
        (tail_continuation _)
    by_cases h3 : c.val < 0xE000
    · exact .threeBelowSurrogates (between_ofNat (by omega) (by omega) (by omega))
        (between_continuation (by omega) (by omega)) (tail_continuation _)
    · exact .threeHigh (between_ofNat (by omega) (by omega) (by omega)) (tail_continuation _)
        (tail_continuation _)
  · by_cases h1 : c.val < 0x40000
    · exact .fourLow (between_ofNat (by omega) (by omega) (by omega))
        (between_continuation (by omega) (by omega)) (tail_continuation _) (tail_continuation _)
    by_cases h2 : c.val < 0x100000
    · exact .four (between_ofNat (by omega) (by omega) (by omega)) (tail_continuation _)
        (tail_continuation _) (tail_continuation _)
    · exact .fourHigh (between_ofNat (by omega) (by omega) (by omega))
        (between_continuation (by omega) (by omega)) (tail_continuation _) (tail_continuation _)

/-! ## Well-formed bytes -/

/-- Sequences one after the other. -/
inductive WellFormed : List UInt8 → Prop
  | nil : WellFormed []
  | cons {bytes rest : List UInt8} (hbytes : Sequence bytes) (hrest : WellFormed rest) :
    WellFormed (bytes ++ rest)

/-- The first ill-formed sequence starts at an index: what comes before is well formed, and no sequence
starts there. -/
structure IllFormedAt (raw : List UInt8) (i : Nat) : Prop where
  before : WellFormed (raw.take i)
  none : ∀ bytes, Sequence bytes → ¬ bytes <+: raw.drop i

/-- Well-formed bytes are those of a text without surrogates. -/
theorem wellFormed_iff {raw : List UInt8} :
    WellFormed raw ↔ ∃ t : Text, t.IsScalar ∧ t.flatMap encodePoint = raw := by
  constructor
  · intro h
    induction h with
    | nil => exact ⟨[], nofun, rfl⟩
    | cons hbytes _ ih =>
      obtain ⟨c, hc, rfl⟩ := hbytes.exists_encodePoint
      obtain ⟨t, ht, rfl⟩ := ih
      exact ⟨c :: t, List.forall_mem_cons.mpr ⟨hc, ht⟩, List.flatMap_cons⟩
  · rintro ⟨t, ht, rfl⟩
    induction t with
    | nil => exact .nil
    | cons c t ih =>
      obtain ⟨hc, ht⟩ := List.forall_mem_cons.mp ht
      rw [List.flatMap_cons]
      exact .cons (sequence_encodePoint hc) (ih ht)

/-! ## The decoder -/

theorem decode_eq_ok_iff {raw : List UInt8} {t : Text} :
    decode raw = .ok t ↔ t.IsScalar ∧ t.flatMap encodePoint = raw := by
  refine ⟨encode_of_decode, ?_⟩
  rintro ⟨ht, rfl⟩
  exact decode_encode ht

/-- The decoder takes no character from bytes that no sequence starts, and only from those. -/
theorem head?_eq_none_iff {b : UInt8} {rest : List UInt8} :
    head? b rest = none ↔ ∀ bytes, Sequence bytes → ¬ bytes <+: b :: rest := by
  constructor
  · rintro h bytes hbytes ⟨more, hmore⟩
    obtain ⟨c, hc, rfl⟩ := hbytes.exists_encodePoint
    obtain ⟨b', bs, hb, hhead⟩ := head?_encodePoint hc
    rw [hb, List.cons_append] at hmore
    obtain ⟨rfl, rfl⟩ := List.cons.inj hmore
    rw [hhead] at h
    cases h
  · intro h
    cases hhead : head? b rest with
    | none => rfl
    | some taken =>
      obtain ⟨hc, hbytes⟩ := eq_encodePoint_of_head? hhead
      exact absurd ⟨_, hbytes.symm⟩ (h _ (sequence_encodePoint hc))

theorem decode_eq_error_iff {raw : List UInt8} {b : UInt8} :
    decode raw = .error b ↔ ∃ i, IllFormedAt raw i ∧ raw[i]? = some b := by
  constructor
  · intro h
    obtain ⟨t, rest, ht, rfl, hhead⟩ := exists_of_decode_error h
    refine ⟨(t.flatMap encodePoint).length, ⟨?_, ?_⟩, ?_⟩
    · rw [List.take_left]
      exact wellFormed_iff.mpr ⟨t, ht, rfl⟩
    · rw [List.drop_left]
      exact head?_eq_none_iff.mp hhead
    · simp
  · rintro ⟨i, hi, hb⟩
    obtain ⟨t, ht, htake⟩ := wellFormed_iff.mp hi.before
    have hdrop : raw.drop i = b :: raw.drop (i + 1) := by
      obtain ⟨hlt, hget⟩ := List.getElem?_eq_some_iff.mp hb
      rw [List.drop_eq_getElem_cons hlt, hget]
    have hhead : head? b (raw.drop (i + 1)) = none := by
      have hnone := hi.none
      rw [hdrop] at hnone
      exact head?_eq_none_iff.mpr hnone
    have hraw := decode_append ht (raw.drop i)
    rw [htake, List.take_append_drop, hdrop, decode, hhead] at hraw
    exact hraw

end JsonWriter.Utf8
