import JsonWriter.Text.Utf8

/-!
# The byte form of text is read back

The bytes of a code point start with a lead byte that says how many follow, and the decoder takes just
these. Main statements: `decode_encode` and `encode_of_decode`, what is written is read back and what is
read has one byte form, and `exists_of_decode_error`, where the decoder stops.
-/

namespace JsonWriter.Utf8

theorem toNat_ofNat_of_lt {n : Nat} (h : n < 0x100) : (UInt8.ofNat n).toNat = n := by
  simp only [UInt8.toNat_ofNat']
  omega

theorem payload?_continuation (n : Nat) : payload? (continuation n) = some (n % 0x40) := by
  have h : (continuation n).toNat = 0x80 + n % 0x40 := toNat_ofNat_of_lt (by omega)
  have hlow : 0x80 + n % 0x40 < 0xC0 := by omega
  simp only [payload?, h, Nat.le_add_right, hlow, and_self, ↓reduceIte, Option.some.injEq]
  omega

theorem spell?_continuation (n low count : Nat) (rest : List UInt8) :
    spell? n (count + 1) (continuation low :: rest) = spell? (n * 0x40 + low % 0x40) count rest := by
  rw [spell?, payload?_continuation]

/-- A sequence with the right lead byte and payload is the one of its code point. -/
theorem head?_eq {c : CodePoint} (hc : ¬ c.IsSurrogate) {b : UInt8} {rest : List UInt8}
    (bits least : Nat) {count : Nat} (hlead : lead? b = some (count, bits, least))
    (hspell : spell? bits count rest = some c.val) (hleast : least ≤ c.val) :
    head? b rest = some (c, count) := by
  simp only [head?, hlead, hspell, c.isLt, ↓reduceDIte]
  exact if_pos ⟨hleast, hc⟩

/-- The decoder takes the bytes of a code point that is no surrogate, whatever comes after them. -/
theorem head?_encodePoint {c : CodePoint} (hc : ¬ c.IsSurrogate) :
    ∃ b bs, encodePoint c = b :: bs ∧ ∀ rest, head? b (bs ++ rest) = some (c, bs.length) := by
  have hlt := c.isLt
  by_cases h1 : c.val < 0x80
  · refine ⟨.ofNat c.val, [], by simp [encodePoint, h1], fun rest => head?_eq hc _ 0 ?_ rfl ?_⟩
    · rw [lead?, toNat_ofNat_of_lt (by omega), if_pos h1, List.length_nil]
    · omega
  by_cases h2 : c.val < 0x800
  · refine ⟨.ofNat (0xC0 + c.val / 0x40), [continuation c.val], by simp [encodePoint, h1, h2],
      fun rest => head?_eq hc (c.val / 0x40) 0x80 ?_ ?_ (by omega)⟩
    · rw [lead?, toNat_ofNat_of_lt (by omega), if_neg (by omega), if_neg (by omega),
        if_pos (by omega), Nat.add_sub_cancel_left, List.length_singleton]
    · refine (spell?_continuation _ _ 0 _).trans (congrArg some ?_)
      omega
  by_cases h3 : c.val < 0x10000
  · refine ⟨.ofNat (0xE0 + c.val / 0x1000), [continuation (c.val / 0x40), continuation c.val],
      by simp [encodePoint, h1, h2, h3],
      fun rest => head?_eq hc (c.val / 0x1000) 0x800 ?_ ?_ (by omega)⟩
    · rw [lead?, toNat_ofNat_of_lt (by omega), if_neg (by omega), if_neg (by omega),
        if_neg (by omega), if_pos (by omega), Nat.add_sub_cancel_left]
      rfl
    · refine (spell?_continuation _ _ 1 _).trans ?_
      refine (spell?_continuation _ _ 0 _).trans (congrArg some ?_)
      omega
  · refine ⟨.ofNat (0xF0 + c.val / 0x40000),
      [continuation (c.val / 0x1000), continuation (c.val / 0x40), continuation c.val],
      by simp [encodePoint, h1, h2, h3],
      fun rest => head?_eq hc (c.val / 0x40000) 0x10000 ?_ ?_ (by omega)⟩
    · rw [lead?, toNat_ofNat_of_lt (by omega), if_neg (by omega), if_neg (by omega),
        if_neg (by omega), if_neg (by omega), if_pos (by omega), Nat.add_sub_cancel_left]
      rfl
    · refine (spell?_continuation _ _ 2 _).trans ((spell?_continuation _ _ 1 _).trans ?_)
      refine (spell?_continuation _ _ 0 _).trans (congrArg some ?_)
      omega

theorem encodePoint_of_isAscii {c : CodePoint} (h : c.IsAscii) : encodePoint c = [.ofNat c.val] :=
  if_pos h

/-! ## What the decoder takes -/

theorem eq_ofNat_of_toNat {b : UInt8} {n : Nat} (h : b.toNat = n) : b = .ofNat n := by
  rw [← h, UInt8.ofNat_toNat]

/-- The four kinds of lead byte. -/
theorem eq_of_lead? {b : UInt8} {count bits least : Nat} (h : lead? b = some (count, bits, least)) :
    (count = 0 ∧ least = 0 ∧ bits < 0x80 ∧ b = .ofNat bits) ∨
    (count = 1 ∧ least = 0x80 ∧ bits < 0x20 ∧ b = .ofNat (0xC0 + bits)) ∨
    (count = 2 ∧ least = 0x800 ∧ bits < 0x10 ∧ b = .ofNat (0xE0 + bits)) ∨
    (count = 3 ∧ least = 0x10000 ∧ bits < 0x08 ∧ b = .ofNat (0xF0 + bits)) := by
  simp only [lead?] at h
  split at h
  · obtain ⟨rfl, rfl, rfl⟩ : 0 = count ∧ b.toNat = bits ∧ 0 = least := by simpa using h
    exact .inl ⟨rfl, rfl, by assumption, eq_ofNat_of_toNat rfl⟩
  split at h
  · cases h
  split at h
  · obtain ⟨rfl, rfl, rfl⟩ : 1 = count ∧ b.toNat - 0xC0 = bits ∧ 0x80 = least := by simpa using h
    exact .inr (.inl ⟨rfl, rfl, by omega, eq_ofNat_of_toNat (by omega)⟩)
  split at h
  · obtain ⟨rfl, rfl, rfl⟩ : 2 = count ∧ b.toNat - 0xE0 = bits ∧ 0x800 = least := by simpa using h
    exact .inr (.inr (.inl ⟨rfl, rfl, by omega, eq_ofNat_of_toNat (by omega)⟩))
  split at h
  · obtain ⟨rfl, rfl, rfl⟩ : 3 = count ∧ b.toNat - 0xF0 = bits ∧ 0x10000 = least := by simpa using h
    exact .inr (.inr (.inr ⟨rfl, rfl, by omega, eq_ofNat_of_toNat (by omega)⟩))
  · cases h

theorem eq_continuation_of_payload? {b : UInt8} {low : Nat} (h : payload? b = some low) :
    low < 0x40 ∧ ∀ n, b = continuation (n * 0x40 + low) := by
  unfold payload? at h
  split at h
  · next hb =>
    obtain rfl := Option.some.inj h
    refine ⟨by omega, fun n => UInt8.toNat_inj.mp ?_⟩
    rw [continuation, toNat_ofNat_of_lt (by omega)]
    omega
  · cases h

/-- The first of the bytes that a number is spelt with. -/
theorem exists_of_spell? {n count m : Nat} {rest : List UInt8}
    (h : spell? n (count + 1) rest = some m) :
    ∃ low rest', low < 0x40 ∧ rest = continuation (n * 0x40 + low) :: rest' ∧
      spell? (n * 0x40 + low) count rest' = some m := by
  cases rest with
  | nil => cases h
  | cons b rest =>
    rw [spell?] at h
    split at h
    · next low hlow =>
      obtain ⟨hlt, hb⟩ := eq_continuation_of_payload? hlow
      exact ⟨low, rest, hlt, by rw [← hb], h⟩
    · cases h

/-- The lead byte and the payload of a sequence that the decoder takes. -/
theorem exists_of_head? {b : UInt8} {rest : List UInt8} {c : CodePoint} {count : Nat}
    (h : head? b rest = some (c, count)) :
    ∃ bits least, lead? b = some (count, bits, least) ∧ spell? bits count rest = some c.val ∧
      least ≤ c.val ∧ ¬ c.IsSurrogate := by
  unfold head? at h
  split at h
  · cases h
  · next count' bits least hlead =>
    split at h
    · cases h
    · next n hspell =>
      split at h
      · split at h
        · next hleast =>
          obtain ⟨rfl, rfl⟩ := Prod.mk.inj (Option.some.inj h)
          exact ⟨bits, least, hlead, hspell, hleast⟩
        · cases h
      · cases h

/-- The decoder takes the bytes of a code point, which is no surrogate. -/
theorem eq_encodePoint_of_head? {b : UInt8} {rest : List UInt8} {c : CodePoint} {count : Nat}
    (h : head? b rest = some (c, count)) :
    ¬ c.IsSurrogate ∧ b :: rest = encodePoint c ++ rest.drop count := by
  obtain ⟨bits, least, hlead, hspell, hleast, hc⟩ := exists_of_head? h
  refine ⟨hc, ?_⟩
  have hlt := c.isLt
  obtain ⟨rfl, rfl, hbits, rfl⟩ | ⟨rfl, rfl, hbits, rfl⟩ | ⟨rfl, rfl, hbits, rfl⟩ |
    ⟨rfl, rfl, hbits, rfl⟩ := eq_of_lead? hlead
  · obtain rfl := Option.some.inj hspell
    rw [encodePoint, if_pos hbits]
    rfl
  · obtain ⟨low, rest, hlow, rfl, hend⟩ := exists_of_spell? hspell
    have hval : bits * 0x40 + low = c.val := Option.some.inj hend
    have hbits : c.val / 0x40 = bits := by omega
    simp only [encodePoint]
    rw [if_neg (by omega), if_pos (by omega), hval, hbits]
    rfl
  · obtain ⟨high, rest, hhigh, rfl, hlast⟩ := exists_of_spell? hspell
    obtain ⟨low, rest, hlow, rfl, hend⟩ := exists_of_spell? hlast
    have hval : (bits * 0x40 + high) * 0x40 + low = c.val := Option.some.inj hend
    have hbits : c.val / 0x1000 = bits := by omega
    have hhigh : c.val / 0x40 = bits * 0x40 + high := by omega
    simp only [encodePoint]
    rw [if_neg (by omega), if_neg (by omega), if_pos (by omega), hval, hbits, hhigh]
    rfl
  · obtain ⟨top, rest, htop, rfl, hmore⟩ := exists_of_spell? hspell
    obtain ⟨high, rest, hhigh, rfl, hlast⟩ := exists_of_spell? hmore
    obtain ⟨low, rest, hlow, rfl, hend⟩ := exists_of_spell? hlast
    have hval : ((bits * 0x40 + top) * 0x40 + high) * 0x40 + low = c.val := Option.some.inj hend
    have hbits : c.val / 0x40000 = bits := by omega
    have htop : c.val / 0x1000 = bits * 0x40 + top := by omega
    have hhigh : c.val / 0x40 = (bits * 0x40 + top) * 0x40 + high := by omega
    simp only [encodePoint]
    rw [if_neg (by omega), if_neg (by omega), if_neg (by omega), hval, hbits, htop, hhigh]
    rfl

/-! ## Decoding -/

/-- The bytes of a text are decoded to the text, whatever comes after them. -/
theorem decode_append {t : Text} (ht : t.IsScalar) (rest : List UInt8) :
    decode (t.flatMap encodePoint ++ rest) = (decode rest).map (t ++ ·) := by
  induction t with
  | nil => cases h : decode rest <;> simp [h, Except.map]
  | cons c t ih =>
    obtain ⟨b, bs, hb, hhead⟩ := head?_encodePoint (ht c List.mem_cons_self)
    have hrest := ih fun d hd => ht d (List.mem_cons_of_mem c hd)
    rw [List.flatMap_cons, List.append_assoc, hb, List.cons_append, decode, hhead]
    simp only [List.drop_left, hrest]
    cases decode rest <;> rfl

/-- The bytes of a text are decoded to the text. -/
theorem decode_encode {t : Text} (ht : t.IsScalar) : decode (t.flatMap encodePoint) = .ok t := by
  have h := decode_append ht []
  rw [decode] at h
  simpa [Except.map] using h

/-- What is decoded is the text whose bytes were given. -/
theorem encode_of_decode {raw : List UInt8} {t : Text} (h : decode raw = .ok t) :
    t.IsScalar ∧ t.flatMap encodePoint = raw := by
  induction raw using decode.induct generalizing t with
  | case1 =>
    rw [decode] at h
    obtain rfl := Except.ok.inj h
    exact ⟨nofun, rfl⟩
  | case2 b rest hhead =>
    rw [decode, hhead] at h
    cases h
  | case3 b rest c count hhead ih =>
    rw [decode, hhead] at h
    cases hdecode : decode (rest.drop count) with
    | error e => simp [hdecode, Except.map] at h
    | ok u =>
      obtain rfl : c :: u = t := by simpa [hdecode, Except.map] using h
      obtain ⟨hc, hbytes⟩ := eq_encodePoint_of_head? hhead
      obtain ⟨hu, hrest⟩ := ih hdecode
      exact ⟨List.forall_mem_cons.mpr ⟨hc, hu⟩, by rw [List.flatMap_cons, hrest, hbytes]⟩

/-- The decoder stops at a byte that no code point starts with there, after the bytes of a text. -/
theorem exists_of_decode_error {raw : List UInt8} {b : UInt8} (h : decode raw = .error b) :
    ∃ (t : Text) (rest : List UInt8), t.IsScalar ∧ raw = t.flatMap encodePoint ++ b :: rest ∧
      head? b rest = none := by
  induction raw using decode.induct with
  | case1 =>
    rw [decode] at h
    cases h
  | case2 d rest hhead =>
    rw [decode, hhead] at h
    obtain rfl := Except.error.inj h
    exact ⟨[], rest, nofun, rfl, hhead⟩
  | case3 d rest c count hhead ih =>
    rw [decode, hhead] at h
    cases hdecode : decode (rest.drop count) with
    | ok u => simp [hdecode, Except.map] at h
    | error e =>
      obtain rfl : e = b := by simpa [hdecode, Except.map] using h
      obtain ⟨hc, hbytes⟩ := eq_encodePoint_of_head? hhead
      obtain ⟨t, rest', ht, hrest, hnone⟩ := ih hdecode
      refine ⟨c :: t, rest', List.forall_mem_cons.mpr ⟨hc, ht⟩, ?_, hnone⟩
      rw [hbytes, hrest, List.flatMap_cons, List.append_assoc]

end JsonWriter.Utf8
