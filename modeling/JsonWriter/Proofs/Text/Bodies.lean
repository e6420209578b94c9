import JsonWriter.Proofs.Json.Reader
import JsonWriter.Proofs.Text.Escape
import JsonWriter.Proofs.Text.Sequences
import JsonWriter.Report
import JsonWriter.Render.Token

/-!
# The bodies of strings, byte by byte

What both escapers come to for any bytes. Main statements: `escape_wellFormed`, they take well-formed
UTF-8 and otherwise fail in one way, and `escape_images`, they write the image of each character and a
reader of JSON gets the characters back.
-/

namespace JsonWriter

namespace Escape

/-! ## The table of escapes -/

theorem lookup_filterMap (ns : List Nat) (n : Nat) :
    (ns.filterMap fun m => (image? m).map (m, ·)).lookup n = if n ∈ ns then image? n else none := by
  induction ns with
  | nil => rfl
  | cons m ns ih =>
    cases himage : image? m with
    | none =>
      rw [List.filterMap_cons_none (by rw [himage, Option.map_none]), ih]
      by_cases hn : n = m
      · subst hn
        simp [himage]
      · simp [hn]
    | some t =>
      rw [List.filterMap_cons_some (by rw [himage, Option.map_some]), List.lookup_cons, ih]
      by_cases hn : n = m
      · subst hn
        simp [himage]
      · have hne : (n == m) = false := beq_false_of_ne hn
        simp [hn, hne]

theorem image?_of_not_mem {n : Nat} (h : n ∉ List.range 0x20 ++ [0x22, 0x5C]) : image? n = none := by
  simp only [List.mem_append, List.mem_range, List.mem_cons, List.not_mem_nil, or_false, not_or] at h
  have hshort : short? n = none := by
    unfold short?
    split <;> first | rfl | omega
  rw [image?, hshort]
  exact if_neg h.1

/-- The table has every character that is escaped. -/
theorem lookup_table (n : Nat) : table.lookup n = image? n := by
  rw [table, lookup_filterMap]
  split
  · rfl
  · next h => exact (image?_of_not_mem h).symm

/-- The image of a character: its entry in the table if it has one, else itself or, where only ASCII may
be written, its ASCII form. -/
def image (asciiOnly : Bool) (c : CodePoint) : Text :=
  (table.lookup c.val).getD (if asciiOnly then foldPoint c else [c])

theorem image_eq_point (asciiOnly : Bool) : image asciiOnly = point asciiOnly := by
  funext c
  cases asciiOnly <;> simp [image, point, plainPoint, asciiPoint, lookup_table]

end Escape

namespace Render

/-- The body is what the decoder reads, image by image, or the fault is the byte that it stops at. -/
theorem escape_fst (asciiOnly : Bool) (raw : List UInt8) (s : Session) :
    (escape asciiOnly raw s).1 =
      match Utf8.decode raw with
      | .ok t => .ok (t.flatMap (Escape.image asciiOnly))
      | .error b => .error (.encoding (.illFormed b raw)) := by
  have houtcome : (escape asciiOnly raw s).1 =
      match if asciiOnly then Escape.ascii raw else Escape.plain raw with
      | .ok body => .ok body
      | .error b => .error (.encoding (.illFormed b raw)) := rfl
  rw [houtcome, Escape.escape_eq, Escape.image_eq_point]
  cases Utf8.decode raw <;> rfl

end Render

/-- Both escapers succeed on well-formed UTF-8 and on nothing else. Otherwise each fails with the first
byte of the first ill-formed sequence and with all of the bytes as they were given, whatever has to be
escaped around that sequence. -/
theorem escape_wellFormed (raw : List UInt8) (asciiOnly : Bool) (s : Session) :
    ((∃ body, (Render.escape asciiOnly raw s).1 = .ok body) ↔ Utf8.WellFormed raw) ∧
      (∀ f, (Render.escape asciiOnly raw s).1 = .error f ↔
        ∃ i b, Utf8.IllFormedAt raw i ∧ raw[i]? = some b ∧ f = .encoding (.illFormed b raw)) ∧
      ∀ b, (Fault.encoding (.illFormed b raw)).report =
        .encoding (text "invalid utf8 byte: '\\x" ++ Escape.hex 2 b.toNat ++ text "'")
          (.binary .bytes raw) (.int b.toNat) := by
  rw [Render.escape_fst]
  refine ⟨?_, fun f => ?_, fun b => rfl⟩
  · rw [Utf8.wellFormed_iff]
    simp only [← Utf8.decode_eq_ok_iff]
    cases Utf8.decode raw <;> simp
  · have hstop (b : UInt8) : Utf8.decode raw = .error b ↔ _ := Utf8.decode_eq_error_iff
    cases hdecode : Utf8.decode raw with
    | ok t =>
      simp only [hdecode, reduceCtorEq, false_iff] at hstop
      simp only [reduceCtorEq, false_iff]
      rintro ⟨i, b, hi, hb, -⟩
      exact hstop b ⟨i, hi, hb⟩
    | error b =>
      simp only [hdecode, Except.error.injEq] at hstop
      simp only [Except.error.injEq]
      constructor
      · rintro rfl
        obtain ⟨i, hi, hb⟩ := (hstop b).mp rfl
        exact ⟨i, b, hi, hb, rfl⟩
      · rintro ⟨i, d, hi, hd, rfl⟩
        rw [(hstop d).mpr ⟨i, hi, hd⟩]

/-- A surrogate that starts in the middle of a run. -/
example : Escape.ascii [0x22, 0xC3, 0xA9, 0xED, 0xA0, 0x80, 0x22] = .error 0xED := by cbv

/-- On well-formed UTF-8 both escapers write the image of each character in turn, however the characters
come in runs. A reader of JSON strings gets the characters back, so no other well-formed bytes have the
same body. -/
theorem escape_images {raw : List UInt8} (hraw : Utf8.WellFormed raw) (asciiOnly : Bool)
    (s : Session) :
    ∃ t : Text, t.IsScalar ∧ t.flatMap Utf8.encodePoint = raw ∧
      (Render.escape asciiOnly raw s).1 = .ok (t.flatMap (Escape.image asciiOnly)) ∧
      (∀ rest, Json.readString (Json.quote :: t.flatMap (Escape.image asciiOnly) ++
        Json.quote :: rest) = some (t, rest)) ∧
      ∀ raw', Utf8.WellFormed raw' → ∀ s',
        (Render.escape asciiOnly raw' s').1 = (Render.escape asciiOnly raw s).1 → raw' = raw := by
  have houtcome {u : Text} (hu : u.IsScalar) (s : Session) :
      (Render.escape asciiOnly (u.flatMap Utf8.encodePoint) s).1 =
        .ok (u.flatMap (Escape.image asciiOnly)) := by
    rw [Render.escape_fst, Utf8.decode_encode hu]
  have hread {u : Text} (hu : u.IsScalar) (rest : Text) :
      Json.readString (Json.quote :: u.flatMap (Escape.image asciiOnly) ++ Json.quote :: rest) =
        some (u, rest) := by
    rw [Escape.image_eq_point]
    have h := Json.readString_of_spells (Escape.spellsString_flatMap hu asciiOnly) rest
    rwa [List.append_assoc, List.singleton_append] at h
  obtain ⟨t, ht, rfl⟩ := Utf8.wellFormed_iff.mp hraw
  refine ⟨t, ht, rfl, houtcome ht s, hread ht, fun raw' hraw' s' h => ?_⟩
  obtain ⟨u, hu, rfl⟩ := Utf8.wellFormed_iff.mp hraw'
  -- One body is read in one way only.
  rw [houtcome hu, houtcome ht] at h
  have hbody := hread hu []
  rw [Except.ok.inj h, hread ht] at hbody
  rw [(Prod.mk.inj (Option.some.inj hbody)).1]

/-- A character past ASCII, a quote, a character past the first plane and a line feed. -/
def mixedBytes : List UInt8 := [0xC3, 0xA9, 0x22, 0xF0, 0x9D, 0x84, 0x9E, 0x0A]

def mixedText : Text := [.ofNat 0xE9, .ofNat 0x22, .ofNat 0x1D11E, .ofNat 0x0A]

theorem escape_mixedBytes :
    Utf8.WellFormed mixedBytes ∧
      (Render.escape true mixedBytes (Session.initial true)).1 =
        .ok (text "\\u00e9\\\"\\ud834\\udd1e\\n") ∧
      Json.readString (text "\"\\u00e9\\\"\\ud834\\udd1e\\n\"") = some (mixedText, []) := by
  have hscalar : mixedText.IsScalar := by decide
  have hraw : Utf8.WellFormed mixedBytes := Utf8.wellFormed_iff.mpr ⟨mixedText, hscalar, by decide⟩
  obtain ⟨t, ht, hbytes, hbody, hread, -⟩ := escape_images hraw true (Session.initial true)
  obtain rfl : t = mixedText := by
    have hdecode := Utf8.decode_encode ht
    rw [hbytes] at hdecode
    exact Except.ok.inj (hdecode.symm.trans (Utf8.decode_encode hscalar))
  have himages : mixedText.flatMap (Escape.image true) =
      text "\\u00e9\\\"\\ud834\\udd1e\\n" := by
    rw [Escape.image_eq_point]
    cbv
  rw [himages] at hbody hread
  exact ⟨hraw, hbody, hread []⟩

end JsonWriter
