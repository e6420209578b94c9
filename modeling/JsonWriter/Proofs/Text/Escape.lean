import JsonWriter.Proofs.Json.Grammar
import JsonWriter.Proofs.Text.Runs

/-!
# Escaped bodies spell the text

Both escapers work on bytes. Escaping single bytes first changes neither where the decoder stops nor
what it reads otherwise, so both come to one image for each code point of the decoded text, or to the
fault of the decoder. The images in order are the body of a JSON string for the text. Main statements:
`plain_eq`, `ascii_eq` and `spellsString_flatMap`.
-/

namespace JsonWriter.Escape

open Json (SpellsBody SpellsString joinPairs quote backslash)

/-- The image of a code point in the plain form. -/
def plainPoint (c : CodePoint) : Text := (image? c.val).getD [c]

/-- The image of a code point in the ASCII form. -/
def asciiPoint (c : CodePoint) : Text := (image? c.val).getD (foldPoint c)

/-! ## Images of bytes -/

theorem hexDigit_val (n : Nat) :
    (hexDigit n).val = if n % 16 < 10 then 0x30 + n % 16 else 0x61 + (n % 16 - 10) := by
  rw [hexDigit, CodePoint.val_ofNat]
  split <;> omega

theorem isAscii_of_mem_unit (n : Nat) : ∀ c ∈ unit n, c.IsAscii := by
  have hdigit (n : Nat) : (hexDigit n).IsAscii := by
    rw [CodePoint.IsAscii, hexDigit_val]
    split <;> omega
  intro c hc
  simp only [unit, hex, List.nil_append, List.cons_append, List.mem_append, List.mem_cons,
    List.not_mem_nil, or_false] at hc
  obtain hc | rfl | rfl | rfl | rfl := hc
  · revert c
    decide
  all_goals exact hdigit _

theorem isAscii_of_mem_image {n : Nat} {t : Text} (h : image? n = some t) : ∀ c ∈ t, c.IsAscii := by
  unfold image? at h
  split at h
  · next letter hletter =>
    obtain rfl := Option.some.inj h
    unfold short? at hletter
    split at hletter <;> cases hletter <;> decide
  · split at h
    · obtain rfl := Option.some.inj h
      exact isAscii_of_mem_unit n
    · cases h

theorem image?_of_le {n : Nat} (h : 0x80 ≤ n) : image? n = none := by
  have hshort : short? n = none := by
    unfold short?
    split <;> first | rfl | omega
  rw [image?, hshort]
  exact if_neg (by omega)

/-- Every byte of a code point past ASCII is past ASCII. -/
theorem le_of_mem_encodePoint {c : CodePoint} (h : ¬ c.IsAscii) :
    ∀ b ∈ Utf8.encodePoint c, 0x80 ≤ b.toNat := by
  have hlt := c.isLt
  have hcontinuation (n : Nat) : 0x80 ≤ (Utf8.continuation n).toNat := by
    rw [Utf8.continuation, Utf8.toNat_ofNat_of_lt (by omega)]
    omega
  simp only [CodePoint.IsAscii] at h
  intro b hb
  simp only [Utf8.encodePoint, if_neg h] at hb
  split at hb
  · simp only [List.mem_cons, List.not_mem_nil, or_false] at hb
    obtain rfl | rfl := hb
    · rw [Utf8.toNat_ofNat_of_lt (by omega)]
      omega
    · exact hcontinuation _
  · split at hb
    · simp only [List.mem_cons, List.not_mem_nil, or_false] at hb
      obtain rfl | rfl | rfl := hb
      · rw [Utf8.toNat_ofNat_of_lt (by omega)]
        omega
      · exact hcontinuation _
      · exact hcontinuation _
    · simp only [List.mem_cons, List.not_mem_nil, or_false] at hb
      obtain rfl | rfl | rfl | rfl := hb
      · rw [Utf8.toNat_ofNat_of_lt (by omega)]
        omega
      · exact hcontinuation _
      · exact hcontinuation _
      · exact hcontinuation _

/-- To escape the bytes of a code point is to encode its image. -/
theorem flatMap_imageBytes (c : CodePoint) :
    (Utf8.encodePoint c).flatMap imageBytes = (plainPoint c).flatMap Utf8.encodePoint := by
  by_cases hc : c.IsAscii
  · rw [Utf8.encodePoint_of_isAscii hc, List.flatMap_singleton, imageBytes, plainPoint,
      Utf8.toNat_ofNat_of_lt (Nat.lt_trans hc (by decide))]
    cases himage : image? c.val with
    | none => simp [Utf8.encodePoint_of_isAscii hc]
    | some t =>
      have hascii := isAscii_of_mem_image himage
      simp only [Option.getD_some]
      clear himage
      induction t with
      | nil => rfl
      | cons d rest ih =>
        rw [List.map_cons, List.flatMap_cons, Utf8.encodePoint_of_isAscii (hascii d List.mem_cons_self),
          ih fun e he => hascii e (List.mem_cons_of_mem d he)]
        rfl
  · have hval : 0x80 ≤ c.val := Nat.le_of_not_lt hc
    have hbytes := le_of_mem_encodePoint hc
    rw [plainPoint, image?_of_le hval, Option.getD_none, List.flatMap_singleton]
    generalize Utf8.encodePoint c = bytes at hbytes
    induction bytes with
    | nil => rfl
    | cons b rest ih =>
      have hb := hbytes b List.mem_cons_self
      rw [List.flatMap_cons, imageBytes, image?_of_le hb,
        ih fun d hd => hbytes d (List.mem_cons_of_mem b hd)]
      rfl

/-! ## Bodies by code point -/

theorem isScalar_plainPoint {c : CodePoint} (hc : ¬ c.IsSurrogate) : (plainPoint c).IsScalar := by
  intro d hd
  rw [plainPoint] at hd
  cases himage : image? c.val with
  | none =>
    rw [himage, Option.getD_none, List.mem_singleton] at hd
    exact hd ▸ hc
  | some t =>
    rw [himage, Option.getD_some] at hd
    have hascii := isAscii_of_mem_image himage d hd
    simp only [CodePoint.IsAscii, CodePoint.IsSurrogate] at hascii ⊢
    omega

theorem isAscii_of_mem_foldPoint (c : CodePoint) : ∀ d ∈ foldPoint c, d.IsAscii := by
  rw [foldPoint, units]
  split
  · next hc => exact List.forall_mem_singleton.mpr hc
  · split
    · exact isAscii_of_mem_unit _
    · exact List.forall_mem_append.mpr ⟨isAscii_of_mem_unit _, isAscii_of_mem_unit _⟩

theorem isAscii_of_mem_asciiPoint (c : CodePoint) : ∀ d ∈ asciiPoint c, d.IsAscii := by
  rw [asciiPoint]
  cases himage : image? c.val with
  | some t => exact isAscii_of_mem_image himage
  | none => exact isAscii_of_mem_foldPoint c

/-! ## Folded texts -/

theorem fold_of_isAscii {t : Text} (ht : t.IsAscii) : fold t = t := by
  induction t with
  | nil => rfl
  | cons c rest ih =>
    obtain ⟨hc, hrest⟩ := List.forall_mem_cons.mp ht
    rw [fold, List.flatMap_cons, foldPoint, if_pos hc, ← fold, ih hrest]
    rfl

theorem fold_plainPoint (c : CodePoint) : fold (plainPoint c) = asciiPoint c := by
  rw [plainPoint, asciiPoint]
  cases himage : image? c.val with
  | none => exact List.flatMap_singleton _ _
  | some t => exact fold_of_isAscii (isAscii_of_mem_image himage)

/-- The ASCII body of a text is its plain body folded. -/
theorem fold_flatMap_plainPoint (t : Text) : fold (t.flatMap plainPoint) = t.flatMap asciiPoint := by
  rw [fold, List.flatMap_assoc]
  exact congrArg (List.flatMap · t) (funext fold_plainPoint)

/-! ## Escaping before decoding -/

theorem exists_of_image? {n : Nat} {t : Text} (h : image? n = some t) :
    ∃ rest, t = backslash :: rest := by
  unfold image? at h
  split at h
  · exact ⟨_, (Option.some.inj h).symm⟩
  · split at h
    · exact ⟨_, (Option.some.inj h).symm⟩
    · cases h

/-- Where a continuation byte has to follow, an escape does no more than the byte that it is for. -/
theorem spell?_flatMap_imageBytes (n count : Nat) (rest : List UInt8) :
    Utf8.spell? n count (rest.flatMap imageBytes) = Utf8.spell? n count rest := by
  induction count generalizing n rest with
  | zero => rfl
  | succ count ih =>
    cases rest with
    | nil => rfl
    | cons b rest =>
      rw [List.flatMap_cons, imageBytes]
      cases himage : image? b.toNat with
      | none =>
        rw [List.singleton_append, Utf8.spell?, Utf8.spell?]
        split
        · exact ih _ _
        · rfl
      | some t =>
        obtain ⟨escape, rfl⟩ := exists_of_image? himage
        have hpayload : Utf8.payload? b = none := by
          refine if_neg fun h => ?_
          rw [image?_of_le h.1] at himage
          cases himage
        rw [Utf8.spell?, hpayload]
        rfl

theorem head?_flatMap_imageBytes (b : UInt8) (rest : List UInt8) :
    Utf8.head? b (rest.flatMap imageBytes) = Utf8.head? b rest := by
  simp only [Utf8.head?, spell?_flatMap_imageBytes]

theorem le_of_head?_eq_none {b : UInt8} {rest : List UInt8} (h : Utf8.head? b rest = none) :
    0x80 ≤ b.toNat := by
  refine Nat.le_of_not_lt fun hb => ?_
  have hlead : Utf8.lead? b = some (0, b.toNat, 0) := if_pos hb
  have hc : ¬ (CodePoint.ofByte b).IsSurrogate := by
    simp only [CodePoint.IsSurrogate, CodePoint.ofByte]
    omega
  rw [Utf8.head?_eq hc b.toNat 0 hlead rfl (Nat.zero_le _)] at h
  cases h

/-- To escape bytes and decode what comes out is to decode the bytes and write the image of each
character, and it fails with the same byte. -/
theorem plain_eq (raw : List UInt8) : plain raw = (Utf8.decode raw).map (·.flatMap plainPoint) := by
  rw [plain]
  induction raw using Utf8.decode.induct with
  | case1 => simp [Utf8.decode, Except.map]
  | case2 b rest hhead =>
    rw [List.flatMap_cons, imageBytes, image?_of_le (le_of_head?_eq_none hhead),
      List.singleton_append, Utf8.decode, head?_flatMap_imageBytes, hhead, Utf8.decode, hhead]
    rfl
  | case3 b rest c count hhead ih =>
    obtain ⟨hc, hbytes⟩ := Utf8.eq_encodePoint_of_head? hhead
    have hdecode := Utf8.decode_append (isScalar_plainPoint hc) ((rest.drop count).flatMap imageBytes)
    rw [hbytes, List.flatMap_append, flatMap_imageBytes, hdecode, ih, ← hbytes, Utf8.decode, hhead]
    simp only
    cases Utf8.decode (rest.drop count) <;> rfl

theorem ascii_eq (raw : List UInt8) : ascii raw = (Utf8.decode raw).map (·.flatMap asciiPoint) := by
  have hplain := plain_eq raw
  rw [plain] at hplain
  rw [ascii, foldRuns_eq, hplain]
  cases Utf8.decode raw with
  | error b => rfl
  | ok t => exact congrArg Except.ok (fold_flatMap_plainPoint t)

/-! ## Bodies spell -/

theorem spellsBody_append {body points : Text} (h : SpellsBody body points) {body' points' : Text}
    (h' : SpellsBody body' points') : SpellsBody (body ++ body') (points ++ points') := by
  induction h with
  | nil => exact h'
  | plain hc _ ih => exact .plain hc ih
  | short hc _ ih => exact .short hc ih
  | unit hc _ ih => exact .unit hc ih

theorem hexValue?_hexDigit (n : Nat) : Json.hexValue? (hexDigit n) = some (n % 16) := by
  simp only [Json.hexValue?, hexDigit_val]
  split
  · rw [if_pos (by omega)]
    simp
  · rw [if_neg (by omega), if_neg (by omega), if_pos (by omega)]
    simp
    omega

theorem spellsBody_unit {n : Nat} (h : n < 0x10000) : SpellsBody (unit n) [.ofNat n] := by
  have hunit : Json.unit? (hexDigit (n / 16 / 16 / 16)) (hexDigit (n / 16 / 16))
      (hexDigit (n / 16)) (hexDigit n) = some (.ofNat n) := by
    simp only [Json.unit?, hexValue?_hexDigit, Option.bind_eq_bind, Option.bind_some, pure]
    congr 2
    omega
  exact .unit hunit .nil

theorem spellsBody_image {c : CodePoint} {t : Text} (h : image? c.val = some t) :
    SpellsBody t [c] := by
  unfold image? at h
  split at h
  · next letter hletter =>
    obtain rfl := Option.some.inj h
    have hshort : Json.unescape? (.ofChar letter) = some (.ofNat c.val) := by
      unfold short? at hletter
      split at hletter <;> cases hletter <;> simp_all <;> rfl
    rw [CodePoint.ofNat_val] at hshort
    exact .short hshort .nil
  · split at h
    · obtain rfl := Option.some.inj h
      have hunit := spellsBody_unit (n := c.val) (by omega)
      rwa [CodePoint.ofNat_val] at hunit
    · cases h

theorem isPlain_of_image? {c : CodePoint} (h : image? c.val = none) : Json.IsPlain c := by
  refine ⟨?_, ?_, ?_⟩
  · unfold image? at h
    split at h
    · cases h
    · split at h
      · cases h
      · omega
  · rintro rfl
    cases h
  · rintro rfl
    cases h

theorem spellsBody_plainPoint (c : CodePoint) : SpellsBody (plainPoint c) [c] := by
  rw [plainPoint]
  cases himage : image? c.val with
  | none => exact .plain (isPlain_of_image? himage) .nil
  | some t => exact spellsBody_image himage

/-- The surrogates that a code point past the first plane is written as, or else itself. -/
def unitPoints (c : CodePoint) : Text :=
  if c.val < 0x10000 then [c]
  else [.ofNat (0xD800 + (c.val - 0x10000) / 0x400), .ofNat (0xDC00 + (c.val - 0x10000) % 0x400)]

theorem unitPoints_of_lt {c : CodePoint} (h : c.val < 0x10000) : unitPoints c = [c] := if_pos h

theorem spellsBody_units (c : CodePoint) : SpellsBody (units c) (unitPoints c) := by
  have hlt := c.isLt
  rw [units, unitPoints]
  split
  · next h =>
    have hunit := spellsBody_unit h
    rwa [CodePoint.ofNat_val] at hunit
  · exact spellsBody_append (spellsBody_unit (by omega)) (spellsBody_unit (by omega))

theorem spellsBody_asciiPoint (c : CodePoint) : SpellsBody (asciiPoint c) (unitPoints c) := by
  rw [asciiPoint]
  cases himage : image? c.val with
  | none =>
    rw [Option.getD_none, foldPoint]
    split
    · next hc =>
      rw [unitPoints_of_lt (Nat.lt_trans hc (by decide))]
      exact .plain (isPlain_of_image? himage) .nil
    · exact spellsBody_units c
  | some t =>
    have hlt : c.val < 0x80 := by
      refine Nat.lt_of_not_le fun h => ?_
      rw [image?_of_le h] at himage
      cases himage
    rw [unitPoints_of_lt (by omega)]
    exact spellsBody_image himage

theorem spellsBody_flatMap {image points : CodePoint → Text}
    (h : ∀ c, SpellsBody (image c) (points c)) (t : Text) :
    SpellsBody (t.flatMap image) (t.flatMap points) := by
  induction t with
  | nil => exact .nil
  | cons c rest ih => exact spellsBody_append (h c) ih

/-! ## Surrogates -/

theorem joinPairs_cons {c : CodePoint} (hc : ¬ c.IsSurrogate) (rest : Text) :
    joinPairs (c :: rest) = c :: joinPairs rest := by
  cases rest with
  | nil => rfl
  | cons d rest =>
    rw [joinPairs, if_neg]
    simp only [CodePoint.IsSurrogate] at hc
    omega

theorem joinPairs_unitPoints {c : CodePoint} (hc : ¬ c.IsSurrogate) (rest : Text) :
    joinPairs (unitPoints c ++ rest) = c :: joinPairs rest := by
  have hlt := c.isLt
  by_cases h : c.val < 0x10000
  · rw [unitPoints_of_lt h]
    exact joinPairs_cons hc rest
  · have hhigh := CodePoint.val_ofNat (n := 0xD800 + (c.val - 0x10000) / 0x400) (by omega)
    have hlow := CodePoint.val_ofNat (n := 0xDC00 + (c.val - 0x10000) % 0x400) (by omega)
    have hsum : 0x10000 + (0xD800 + (c.val - 0x10000) / 0x400 - 0xD800) * 0x400 +
        (0xDC00 + (c.val - 0x10000) % 0x400 - 0xDC00) = c.val := by omega
    rw [unitPoints, if_neg h, List.cons_append, List.cons_append, List.nil_append, joinPairs, hhigh,
      hlow, if_pos (by omega), hsum, CodePoint.ofNat_val]

theorem joinPairs_flatMap {points : CodePoint → Text} {t : Text} (ht : t.IsScalar)
    (h : ∀ c, ¬ c.IsSurrogate → ∀ rest, joinPairs (points c ++ rest) = c :: joinPairs rest) :
    joinPairs (t.flatMap points) = t := by
  induction t with
  | nil => rfl
  | cons c rest ih =>
    rw [List.flatMap_cons, h c (ht c List.mem_cons_self),
      ih fun d hd => ht d (List.mem_cons_of_mem c hd)]

/-- The image of a code point in a body. -/
def point (asciiOnly : Bool) (c : CodePoint) : Text := if asciiOnly then asciiPoint c else plainPoint c

/-- Either body of bytes is the images of the text that they are decoded to. -/
theorem escape_eq (asciiOnly : Bool) (raw : List UInt8) :
    (if asciiOnly then ascii raw else plain raw) =
      (Utf8.decode raw).map (·.flatMap (point asciiOnly)) := by
  cases asciiOnly with
  | true => exact ascii_eq raw
  | false => exact plain_eq raw

theorem escape_encode {t : Text} (ht : t.IsScalar) (asciiOnly : Bool) :
    (if asciiOnly then ascii (t.flatMap Utf8.encodePoint) else plain (t.flatMap Utf8.encodePoint)) =
      .ok (t.flatMap (point asciiOnly)) := by
  rw [escape_eq, Utf8.decode_encode ht]
  rfl

/-- The images of a text are a body that spells it. -/
theorem spellsString_flatMap {t : Text} (ht : t.IsScalar) (asciiOnly : Bool) :
    SpellsString (quote :: t.flatMap (point asciiOnly) ++ [quote]) t := by
  cases asciiOnly with
  | true =>
    have hspells := SpellsString.intro (spellsBody_flatMap spellsBody_asciiPoint t)
    rwa [joinPairs_flatMap ht fun c hc => joinPairs_unitPoints hc] at hspells
  | false =>
    have hspells := SpellsString.intro (spellsBody_flatMap spellsBody_plainPoint t)
    rwa [joinPairs_flatMap ht fun c hc => joinPairs_cons hc] at hspells

end JsonWriter.Escape
