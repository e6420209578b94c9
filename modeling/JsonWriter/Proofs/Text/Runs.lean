import JsonWriter.Proofs.Text.Utf8
import JsonWriter.Text.Escape

/-!
# Folding by runs is folding by character

The ASCII form takes runs of what looks like sequences of several bytes and decodes each as a whole.
The lead byte of a sequence says how long it is, so a run ends where one of its sequences does, and
what a run comes to does not depend on what is after it. Main statement: `foldRuns_eq`.
-/

namespace JsonWriter.Escape

/-! ## Sequences in runs -/

theorem continues_of_spell? {n count m : Nat} {rest : List UInt8}
    (h : Utf8.spell? n count rest = some m) : continues count rest = true := by
  induction count generalizing n rest with
  | zero => rfl
  | succ count ih =>
    cases rest with
    | nil => cases h
    | cons b rest =>
      rw [Utf8.spell?] at h
      split at h
      · next low hlow => simp [continues, hlow, ih h]
      · cases h

/-- What the decoder takes past ASCII is a sequence for a run. -/
theorem sequence?_of_head? {b : UInt8} {rest : List UInt8} {c : CodePoint} {count : Nat}
    (h : Utf8.head? b rest = some (c, count)) (hb : 0x80 ≤ b.toNat) :
    sequence? b rest = some count := by
  obtain ⟨bits, least, hlead, hspell, hleast, -⟩ := Utf8.exists_of_head? h
  have hcontinues := continues_of_spell? hspell
  have hlt := c.isLt
  -- A code point that needs as many bytes, within the code space, leaves only such lead bytes.
  have hfollowing : following? b = some count := by
    obtain ⟨rfl, rfl, hbits, rfl⟩ | ⟨rfl, rfl, hbits, rfl⟩ | ⟨rfl, rfl, hbits, rfl⟩ |
      ⟨rfl, rfl, hbits, rfl⟩ := Utf8.eq_of_lead? hlead
    · rw [Utf8.toNat_ofNat_of_lt (by omega)] at hb
      omega
    · obtain ⟨low, _, hlow, -, hend⟩ := Utf8.exists_of_spell? hspell
      have hval : bits * 0x40 + low = c.val := Option.some.inj hend
      simp only [following?]
      rw [Utf8.toNat_ofNat_of_lt (by omega), if_neg (by omega), if_pos (by omega)]
    · simp only [following?]
      rw [Utf8.toNat_ofNat_of_lt (by omega), if_neg (by omega), if_neg (by omega),
        if_pos (by omega)]
    · obtain ⟨top, _, htop, -, hmore⟩ := Utf8.exists_of_spell? hspell
      obtain ⟨high, _, hhigh, -, hlast⟩ := Utf8.exists_of_spell? hmore
      obtain ⟨low, _, hlow, -, hend⟩ := Utf8.exists_of_spell? hlast
      have hval : ((bits * 0x40 + top) * 0x40 + high) * 0x40 + low = c.val := Option.some.inj hend
      simp only [following?]
      rw [Utf8.toNat_ofNat_of_lt (by omega), if_neg (by omega), if_neg (by omega),
        if_neg (by omega), if_pos (by omega)]
  simp [sequence?, hfollowing, hcontinues]

/-- A sequence for a run has a lead byte of its length and continuation bytes. -/
theorem eq_of_sequence? {b : UInt8} {rest : List UInt8} {count : Nat}
    (h : sequence? b rest = some count) :
    (∃ bits least, Utf8.lead? b = some (count, bits, least)) ∧ 0x80 ≤ b.toNat ∧
      continues count rest = true := by
  obtain ⟨hfollowing, hcontinues⟩ := Option.filter_eq_some_iff.mp h
  refine ⟨?_, ?_, hcontinues⟩
  · simp only [following?] at hfollowing
    split at hfollowing
    · cases hfollowing
    split at hfollowing
    · obtain rfl := Option.some.inj hfollowing
      refine ⟨b.toNat - 0xC0, 0x80, ?_⟩
      simp only [Utf8.lead?]
      rw [if_neg (by omega), if_neg (by omega), if_pos (by omega)]
    split at hfollowing
    · obtain rfl := Option.some.inj hfollowing
      refine ⟨b.toNat - 0xE0, 0x800, ?_⟩
      simp only [Utf8.lead?]
      rw [if_neg (by omega), if_neg (by omega), if_neg (by omega), if_pos (by omega)]
    split at hfollowing
    · obtain rfl := Option.some.inj hfollowing
      refine ⟨b.toNat - 0xF0, 0x10000, ?_⟩
      simp only [Utf8.lead?]
      rw [if_neg (by omega), if_neg (by omega), if_neg (by omega), if_neg (by omega),
        if_pos (by omega)]
    · cases hfollowing
  · refine Nat.le_of_not_lt fun hb => ?_
    simp only [following?] at hfollowing
    rw [if_pos (by omega)] at hfollowing
    cases hfollowing

/-- The decoder looks at no more bytes than the lead byte asks for. -/
theorem spell?_take (n count more : Nat) (rest : List UInt8) :
    Utf8.spell? n count (rest.take (count + more)) = Utf8.spell? n count rest := by
  induction count generalizing n rest with
  | zero => rfl
  | succ count ih =>
    cases rest with
    | nil => rw [List.take_nil]
    | cons b rest =>
      rw [Nat.add_right_comm, List.take_succ_cons, Utf8.spell?, Utf8.spell?]
      split
      · exact ih _ _
      · rfl

theorem head?_take {b : UInt8} {count bits least : Nat}
    (hlead : Utf8.lead? b = some (count, bits, least)) (rest : List UInt8) (more : Nat) :
    Utf8.head? b (rest.take (count + more)) = Utf8.head? b rest := by
  simp only [Utf8.head?, hlead, spell?_take]

/-! ## Runs -/

theorem runLength_of_sequence? {b : UInt8} {rest : List UInt8} {count : Nat}
    (h : sequence? b rest = some count) :
    runLength (b :: rest) = count + runLength (rest.drop count) + 1 := by
  rw [runLength, h]
  exact Nat.add_right_comm _ _ _

/-- Every byte of a run is past ASCII. -/
theorem le_of_mem_run (bytes : List UInt8) :
    ∀ d ∈ bytes.take (runLength bytes), 0x80 ≤ d.toNat := by
  have hcontinues {count : Nat} {rest : List UInt8} (h : continues count rest = true) :
      ∀ d ∈ rest.take count, 0x80 ≤ d.toNat := by
    induction count generalizing rest with
    | zero => simp
    | succ count ih =>
      cases rest with
      | nil => simp
      | cons b rest =>
        simp only [continues, Bool.and_eq_true, Option.isSome_iff_exists] at h
        obtain ⟨⟨low, hlow⟩, hrest⟩ := h
        refine List.forall_mem_cons.mpr ⟨?_, ih hrest⟩
        unfold Utf8.payload? at hlow
        split at hlow
        · next hb => exact hb.1
        · cases hlow
  induction bytes using runLength.induct with
  | case1 => simp
  | case2 b rest hnone => simp [runLength, hnone]
  | case3 b rest count hsequence ih =>
    obtain ⟨-, hb, hcount⟩ := eq_of_sequence? hsequence
    rw [runLength_of_sequence? hsequence, List.take_succ_cons, List.take_add]
    exact List.forall_mem_cons.mpr ⟨hb, List.forall_mem_append.mpr ⟨hcontinues hcount, ih⟩⟩

/-- To decode a run and then what comes after it is to decode all. -/
theorem decode_run (bytes : List UInt8) :
    Utf8.decode bytes = (Utf8.decode (bytes.take (runLength bytes))).bind fun t =>
      (Utf8.decode (bytes.drop (runLength bytes))).map (t ++ ·) := by
  induction bytes using runLength.induct with
  | case1 => simp [Utf8.decode, Except.bind, Except.map]
  | case2 b rest hnone =>
    have hrun : runLength (b :: rest) = 0 := by rw [runLength, hnone]
    rw [hrun, List.take_zero, List.drop_zero, Utf8.decode.eq_1]
    cases Utf8.decode (b :: rest) <;> rfl
  | case3 b rest count hsequence ih =>
    obtain ⟨⟨bits, least, hlead⟩, -, -⟩ := eq_of_sequence? hsequence
    have hhead := head?_take hlead rest (runLength (rest.drop count))
    rw [runLength_of_sequence? hsequence, List.take_succ_cons, List.drop_succ_cons, ← List.drop_drop,
      Utf8.decode, Utf8.decode, hhead]
    cases h : Utf8.head? b rest with
    | none => rfl
    | some taken =>
      obtain ⟨c, count'⟩ := taken
      obtain ⟨bits', least', hlead', -⟩ := Utf8.exists_of_head? h
      obtain rfl : count = count' := by
        rw [hlead] at hlead'
        exact congrArg (·.1) (Option.some.inj hlead')
      simp only [List.drop_take, Nat.add_sub_cancel_left]
      rw [ih]
      generalize Utf8.decode ((rest.drop count).take (runLength (rest.drop count))) = run
      generalize Utf8.decode ((rest.drop count).drop (runLength (rest.drop count))) = after
      cases run <;> cases after <;> rfl

/-! ## The escapes of a run -/

theorem hexDigit_congr {m n : Nat} (h : m % 16 = n % 16) : hexDigit m = hexDigit n := by
  rw [hexDigit, hexDigit, h]

theorem digits_unitBytes {n : Nat} (h : n < 0x10000) : digits (Utf16.unitBytes n) = hex 4 n := by
  have hhigh : (UInt8.ofNat (n / 0x100)).toNat = n / 0x100 := Utf8.toNat_ofNat_of_lt (by omega)
  have hlow : (UInt8.ofNat (n % 0x100)).toNat = n % 0x100 := Utf8.toNat_ofNat_of_lt (by omega)
  simp only [digits, Utf16.unitBytes, List.flatMap_cons, List.flatMap_nil, hhigh, hlow, hex,
    List.nil_append, List.cons_append, List.cons.injEq, and_true]
  refine ⟨?_, ?_, ?_, ?_⟩ <;> exact hexDigit_congr (by omega)

theorem escapes_hex (n : Nat) (rest : Text) : escapes (hex 4 n ++ rest) = unit n ++ escapes rest := rfl

theorem escapes_units {us : List Nat} (h : ∀ n ∈ us, n < 0x10000) :
    escapes (digits (us.flatMap Utf16.unitBytes)) = us.flatMap unit := by
  induction us with
  | nil => rfl
  | cons n us ih =>
    obtain ⟨hn, hus⟩ := List.forall_mem_cons.mp h
    have hdigits : digits ((n :: us).flatMap Utf16.unitBytes) =
        hex 4 n ++ digits (us.flatMap Utf16.unitBytes) := by
      rw [← digits_unitBytes hn, digits, digits, digits, ← List.flatMap_append, List.flatMap_cons]
    rw [hdigits, escapes_hex, ih hus, List.flatMap_cons]

theorem lt_of_mem_units (c : CodePoint) : ∀ n ∈ Utf16.units c, n < 0x10000 := by
  have hlt := c.isLt
  intro n hn
  unfold Utf16.units at hn
  split at hn
  · obtain rfl := List.mem_singleton.mp hn
    assumption
  · simp only [List.mem_cons, List.not_mem_nil, or_false] at hn
    omega

theorem flatMap_units (c : CodePoint) : (Utf16.units c).flatMap unit = units c := by
  unfold Utf16.units units
  split
  · exact List.flatMap_singleton _ _
  · simp only [List.flatMap_cons, List.flatMap_nil, List.append_nil]

theorem escapes_encode (t : Text) : escapes (digits (Utf16.encode t)) = t.flatMap units := by
  rw [Utf16.encode, escapes_units, List.flatMap_assoc]
  · exact congrArg (List.flatMap · t) (funext flatMap_units)
  · intro n hn
    obtain ⟨c, -, hn⟩ := List.mem_flatMap.mp hn
    exact lt_of_mem_units c n hn

/-! ## Folding -/

theorem fold_append (t u : Text) : fold (t ++ u) = fold t ++ fold u := List.flatMap_append

/-- The ASCII form of a text and what comes after it, if there is no fault in either. -/
theorem map_fold_joined (x y : Except UInt8 Text) :
    (x.bind fun t => y.map (t ++ ·)).map fold =
      (x.map fold).bind fun u => (y.map fold).map (u ++ ·) := by
  cases x with
  | error b => rfl
  | ok t =>
    cases y with
    | error b => rfl
    | ok u => exact congrArg Except.ok (fold_append t u)

/-- Where no byte is ASCII, no character is. -/
theorem not_isAscii_of_decode {bytes : List UInt8} (h : ∀ d ∈ bytes, 0x80 ≤ d.toNat) {t : Text}
    (hdecode : Utf8.decode bytes = .ok t) : ∀ c ∈ t, ¬ c.IsAscii := by
  obtain ⟨-, hbytes⟩ := Utf8.encode_of_decode hdecode
  intro c hc hascii
  have hmem : UInt8.ofNat c.val ∈ bytes := by
    rw [← hbytes, List.mem_flatMap]
    exact ⟨c, hc, by rw [Utf8.encodePoint_of_isAscii hascii, List.mem_singleton]⟩
  have hle := h _ hmem
  simp only [CodePoint.IsAscii] at hascii
  rw [Utf8.toNat_ofNat_of_lt (by omega)] at hle
  omega

theorem flatMap_units_eq_fold {t : Text} (h : ∀ c ∈ t, ¬ c.IsAscii) : t.flatMap units = fold t := by
  induction t with
  | nil => rfl
  | cons c t ih =>
    obtain ⟨hc, ht⟩ := List.forall_mem_cons.mp h
    rw [List.flatMap_cons, ih ht, fold, fold, List.flatMap_cons, foldPoint, if_neg hc]

/-- A run comes to the ASCII form of its text. -/
theorem foldRun_eq {run : List UInt8} (h : ∀ d ∈ run, 0x80 ≤ d.toNat) :
    foldRun run = (Utf8.decode run).map fold := by
  rw [foldRun]
  cases hdecode : Utf8.decode run with
  | error b => rfl
  | ok t =>
    rw [Except.map, Except.map, escapes_encode, flatMap_units_eq_fold (not_isAscii_of_decode h hdecode)]

/-- What the bytes come to when they start with a run, and what the run comes to. -/
theorem decode_of_run {b : UInt8} {rest : List UInt8} {count : Nat}
    (hrun : runLength (b :: rest) = count + 1) :
    (Utf8.decode (b :: rest) = (Utf8.decode (b :: rest.take count)).bind fun t =>
      (Utf8.decode (rest.drop count)).map (t ++ ·)) ∧
      foldRun (b :: rest.take count) = (Utf8.decode (b :: rest.take count)).map fold := by
  have hdecode := decode_run (b :: rest)
  have hbytes := le_of_mem_run (b :: rest)
  rw [hrun, List.take_succ_cons] at hdecode hbytes
  exact ⟨hdecode, foldRun_eq hbytes⟩

/-- An ASCII byte is a character of its own. -/
theorem decode_of_isAscii {b : UInt8} (hb : b.toNat < 0x80) (rest : List UInt8) :
    Utf8.decode (b :: rest) = (Utf8.decode rest).map (.ofByte b :: ·) := by
  have hascii : (CodePoint.ofByte b).IsAscii := hb
  have hpoint : Utf8.encodePoint (.ofByte b) = [b] := by
    rw [Utf8.encodePoint_of_isAscii hascii, CodePoint.ofByte, UInt8.ofNat_toNat]
  have hscalar : Text.IsScalar [.ofByte b] := by
    refine List.forall_mem_singleton.mpr fun h => ?_
    simp only [CodePoint.IsSurrogate, CodePoint.ofByte] at h
    omega
  have hdecode := Utf8.decode_append hscalar rest
  rwa [List.flatMap_singleton, hpoint, List.singleton_append] at hdecode

/-- Whatever runs there are, each character comes to its own ASCII form, and the fault is where the
decoder stops. -/
theorem foldRuns_eq (bytes : List UInt8) : foldRuns bytes = (Utf8.decode bytes).map fold := by
  induction bytes using foldRuns.induct with
  | case1 => simp [foldRuns, Utf8.decode, Except.map, fold]
  | case2 b rest hb ih =>
    have hfold : foldPoint (.ofByte b) = [.ofByte b] := if_pos hb
    rw [foldRuns, if_pos hb, ih, decode_of_isAscii hb]
    cases Utf8.decode rest with
    | error e => rfl
    | ok t => simp [Except.map, fold, hfold]
  | case3 b rest hb hrun =>
    have hhead : Utf8.head? b rest = none := by
      cases h : Utf8.head? b rest with
      | none => rfl
      | some taken =>
        have hsequence := sequence?_of_head? h (by omega)
        rw [runLength_of_sequence? hsequence] at hrun
        cases hrun
    rw [foldRuns, if_neg hb, hrun, Utf8.decode, hhead]
    rfl
  | case4 b rest hb count hrun e hfolded =>
    obtain ⟨hdecode, hfold⟩ := decode_of_run hrun
    rw [foldRuns, if_neg hb, hrun, hdecode, map_fold_joined, ← hfold]
    simp only
    rw [hfolded]
    rfl
  | case5 b rest hb count hrun folded hfolded ih =>
    obtain ⟨hdecode, hfold⟩ := decode_of_run hrun
    rw [foldRuns, if_neg hb, hrun, hdecode, map_fold_joined, ← hfold]
    simp only
    rw [hfolded, ih]
    rfl

end JsonWriter.Escape
