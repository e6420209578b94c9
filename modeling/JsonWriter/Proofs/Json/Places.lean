import JsonWriter.Proofs.Json.Reader
import Mathlib.Algebra.Ring.Int.Defs

/-!
# Inside and outside strings

Which characters of a JSON text are in strings, found character by character. Texts in which every string
ends can be put together without moving what is in strings. Main statements: `squeeze_append` and
`balance_append`, and `IsToken.squeeze_eq` and `IsToken.balance_eq_zero` on names, numbers and strings.
-/

namespace JsonWriter.Json

/-- Where in a text a character is: outside strings, in a string, or behind a backslash in one. -/
inductive Place
  | outside
  | inside
  | escaped
deriving DecidableEq

namespace Place

/-- The place after a character. The quotes of a string are outside at its start and inside at its
end. -/
def next : Place → CodePoint → Place
  | outside, c => if c = quote then inside else outside
  | inside, c => if c = quote then outside else if c = backslash then escaped else inside
  | escaped, _ => inside

/-- The place after a text. -/
def after (p : Place) (t : Text) : Place := t.foldl next p

/-- The characters of a text with their places. -/
def scan : Place → Text → List (Place × CodePoint)
  | _, [] => []
  | p, c :: t => (p, c) :: scan (p.next c) t

theorem after_append (p : Place) (s t : Text) : p.after (s ++ t) = (p.after s).after t :=
  List.foldl_append

theorem scan_append (p : Place) (s t : Text) :
    p.scan (s ++ t) = p.scan s ++ (p.after s).scan t := by
  induction s generalizing p with
  | nil => rfl
  | cons c s ih => rw [List.cons_append, scan, ih, scan, List.cons_append, after, after, List.foldl_cons]

theorem map_snd_scan (p : Place) (t : Text) : (p.scan t).map Prod.snd = t := by
  induction t generalizing p with
  | nil => rfl
  | cons c t ih => rw [scan, List.map_cons, ih]

end Place

/-- Every string in the text ends in it. -/
def IsWhole (t : Text) : Prop := Place.outside.after t = .outside

instance (t : Text) : Decidable (IsWhole t) := inferInstanceAs (Decidable (_ = _))

/-- The text without the blanks outside strings. -/
def squeeze (t : Text) : Text :=
  ((Place.outside.scan t).filter fun x => ¬ (x.1 = .outside ∧ IsBlank x.2)).map Prod.snd

/-- The characters outside strings. -/
def outer (t : Text) : Text := ((Place.outside.scan t).filter (·.1 = .outside)).map Prod.snd

def lineFeed : CodePoint := .ofNat 0x0A

def IsClosing (c : CodePoint) : Prop := c = .ofChar ']' ∨ c = .ofChar '\x7d'

instance (c : CodePoint) : Decidable (IsClosing c) := inferInstanceAs (Decidable (_ ∨ _))

/-- One more bracket is open after an opening one, and one fewer after a closing one. -/
def bracket (c : CodePoint) : Int :=
  if c = .ofChar '[' ∨ c = .ofChar '\x7b' then 1 else if IsClosing c then -1 else 0

/-- The number of brackets outside strings that open, without that of those that close. -/
def balance (t : Text) : Int := ((outer t).map bracket).sum

section

variable {s t : Text}

theorem IsWhole.append (hs : IsWhole s) (ht : IsWhole t) : IsWhole (s ++ t) := by
  rw [IsWhole, Place.after_append, hs, ht]

theorem IsWhole.after_append (hs : IsWhole s) :
    Place.outside.after (s ++ t) = Place.outside.after t := by
  rw [Place.after_append, hs]

theorem squeeze_append (hs : IsWhole s) : squeeze (s ++ t) = squeeze s ++ squeeze t := by
  rw [squeeze, Place.scan_append, hs, List.filter_append, List.map_append, squeeze, squeeze]

theorem balance_append (hs : IsWhole s) : balance (s ++ t) = balance s + balance t := by
  rw [balance, outer, Place.scan_append, hs, List.filter_append, List.map_append, List.map_append,
    List.sum_append, balance, balance, outer, outer]

/-! ## Texts without strings -/

theorem scan_of_ne_quote (h : quote ∉ t) :
    Place.outside.scan t = t.map (Place.outside, ·) ∧ IsWhole t := by
  induction t with
  | nil => exact ⟨rfl, rfl⟩
  | cons c t ih =>
    obtain ⟨hc, ht⟩ := List.ne_and_not_mem_of_not_mem_cons h
    have hnext : Place.outside.next c = .outside := if_neg (Ne.symm hc)
    obtain ⟨hscan, hwhole⟩ := ih ht
    refine ⟨by rw [Place.scan, hnext, hscan, List.map_cons], ?_⟩
    rw [IsWhole, Place.after, List.foldl_cons, hnext]
    exact hwhole

theorem isWhole_of_ne_quote (h : quote ∉ t) : IsWhole t := (scan_of_ne_quote h).2

theorem squeeze_of_ne_quote (h : quote ∉ t) : squeeze t = t.filter fun c => ¬ IsBlank c := by
  rw [squeeze, (scan_of_ne_quote h).1, List.filter_map, List.map_map]
  simp [Function.comp_def]

theorem quote_not_mem_of_allBlank (h : AllBlank t) : quote ∉ t := fun hmem =>
  absurd (h quote hmem) (by decide)

theorem squeeze_of_allBlank (h : AllBlank t) : squeeze t = [] := by
  rw [squeeze_of_ne_quote (quote_not_mem_of_allBlank h), List.filter_eq_nil_iff]
  intro c hc
  simpa using h c hc

/-- A character with blanks around it, which is no quote and no blank. -/
theorem squeeze_around {before after : Text} {c : CodePoint} (hbefore : AllBlank before)
    (hafter : AllBlank after) (hc : c ≠ quote ∧ ¬ IsBlank c) :
    IsWhole (before ++ c :: after) ∧ squeeze (before ++ c :: after) = [c] := by
  have hone : quote ∉ [c] := by simpa using hc.1.symm
  have hwhole : IsWhole before := isWhole_of_ne_quote (quote_not_mem_of_allBlank hbefore)
  have hwhole' : IsWhole [c] := isWhole_of_ne_quote hone
  have hsingle : squeeze [c] = [c] := by
    rw [squeeze_of_ne_quote hone, List.filter_cons_of_pos (by simpa using hc.2), List.filter_nil]
  have hsplit : before ++ c :: after = before ++ ([c] ++ after) := rfl
  rw [hsplit, squeeze_append hwhole, squeeze_append hwhole', squeeze_of_allBlank hbefore,
    squeeze_of_allBlank hafter, hsingle]
  exact ⟨hwhole.append (hwhole'.append (isWhole_of_ne_quote (quote_not_mem_of_allBlank hafter))), rfl⟩

theorem balance_of_ne_quote (h : quote ∉ t) : balance t = (t.map bracket).sum := by
  have houter : outer t = t := by
    rw [outer, (scan_of_ne_quote h).1, List.filter_eq_self.mpr (by simp), List.map_map]
    exact List.map_id t
  rw [balance, houter]

theorem balance_eq_zero (hquote : quote ∉ t) (h : ∀ c ∈ t, bracket c = 0) : balance t = 0 := by
  rw [balance_of_ne_quote hquote, List.map_congr_left h, List.map_const', List.sum_replicate_int,
    Int.mul_zero]

/-! ## Strings -/

theorem next_of_isPlain {c : CodePoint} (h : IsPlain c) : Place.inside.next c = .inside := by
  rw [Place.next, if_neg h.2.1, if_neg h.2.2]

theorem isPlain_of_hexValue? {c : CodePoint} (h : (hexValue? c).isSome) : IsPlain c := by
  have hval : 0x30 ≤ c.val ∧ c.val ≠ 0x5C := by
    unfold hexValue? at h
    split at h
    · omega
    · split at h
      · omega
      · split at h
        · omega
        · cases h
  refine ⟨by omega, ?_, ?_⟩
  · rintro rfl
    exact absurd hval.1 (by decide)
  · rintro rfl
    exact hval.2 rfl

/-- The body of a string is in the string. -/
theorem scan_body {body points : Text} (h : SpellsBody body points) :
    Place.inside.after body = .inside ∧
      ∀ x ∈ Place.inside.scan body, x.1 ≠ .outside ∧ 0x20 ≤ x.2.val := by
  induction h with
  | nil => exact ⟨rfl, List.forall_mem_nil _⟩
  | plain hc _ ih =>
    simp only [Place.after, List.foldl_cons, Place.scan, next_of_isPlain hc, List.forall_mem_cons]
    exact ⟨ih.1, ⟨nofun, hc.1⟩, ih.2⟩
  | @short letter c _ _ hc _ ih =>
    have hnext : (Place.inside.next backslash).next letter = .inside := rfl
    have hletter : 0x20 ≤ letter.val := by
      unfold unescape? at hc
      split at hc
      all_goals first | omega | cases hc
    simp only [Place.after, List.foldl_cons, Place.scan, hnext, List.forall_mem_cons]
    exact ⟨ih.1, ⟨nofun, by decide⟩, ⟨nofun, hletter⟩, ih.2⟩
  | @unit w x y z c _ _ hc _ ih =>
    have hnext : (Place.inside.next backslash).next (.ofChar 'u') = .inside := rfl
    obtain ⟨hw, hx, hy, hz⟩ : IsPlain w ∧ IsPlain x ∧ IsPlain y ∧ IsPlain z := by
      simp only [unit?, Option.bind_eq_bind, Option.bind_eq_some_iff] at hc
      obtain ⟨_, hw, _, hx, _, hy, _, hz, _⟩ := hc
      exact ⟨isPlain_of_hexValue? (by simp [hw]), isPlain_of_hexValue? (by simp [hx]),
        isPlain_of_hexValue? (by simp [hy]), isPlain_of_hexValue? (by simp [hz])⟩
    simp only [Place.after, List.foldl_cons, Place.scan, hnext, next_of_isPlain hw, next_of_isPlain hx,
      next_of_isPlain hy, next_of_isPlain hz, List.forall_mem_cons]
    exact ⟨ih.1, ⟨nofun, by decide⟩, ⟨nofun, by decide⟩, ⟨nofun, hw.1⟩, ⟨nofun, hx.1⟩, ⟨nofun, hy.1⟩,
      ⟨nofun, hz.1⟩, ih.2⟩

/-- Outside a string is its first quote alone. -/
theorem SpellsString.exists_scan_eq {content : Text} (h : SpellsString t content) :
    IsWhole t ∧ ∃ rest, Place.outside.scan t = (.outside, quote) :: rest ∧
      ∀ x ∈ rest, x.1 ≠ .outside ∧ 0x20 ≤ x.2.val := by
  obtain @⟨body, points, h⟩ := h
  obtain ⟨hafter, hinside⟩ := scan_body h
  have hopen : Place.outside.next quote = .inside := rfl
  refine ⟨?_, Place.inside.scan body ++ [(.inside, quote)], ?_, ?_⟩
  · have hend : Place.inside.after (body ++ [quote]) = .outside := by
      rw [Place.after_append, hafter]
      rfl
    exact hend
  · rw [List.cons_append, Place.scan, hopen, Place.scan_append, hafter]
    rfl
  · exact List.forall_mem_append.mpr ⟨hinside, List.forall_mem_singleton.mpr ⟨nofun, by decide⟩⟩

/-! ## Tokens -/

/-- A name, a number or a string. -/
def IsToken (t : Text) : Prop := (t ≠ [] ∧ ∀ c ∈ t, IsWord c) ∨ ∃ content, SpellsString t content

theorem isToken_of_spells {nan : Bool} {j : Json} (h : Spells nan t j)
    (harray : ∀ items, j ≠ .array items) (hobject : ∀ members, j ≠ .object members) : IsToken t := by
  cases h with
  | null => exact .inl (by decide)
  | bool b => cases b <;> exact .inl (by decide)
  | number hp => exact .inl ⟨Parts.text_ne_nil hp, isWord_of_mem_text hp⟩
  | nan => exact .inl (by decide)
  | infinity negative => cases negative <;> exact .inl (by decide)
  | string h => exact .inr ⟨_, h⟩
  | emptyArray | array => exact absurd rfl (harray _)
  | emptyObject | object => exact absurd rfl (hobject _)

theorem bracket_of_isWord {c : CodePoint} (h : IsWord c) : bracket c = 0 := by
  have hne {d : CodePoint} (hd : ¬ IsWord d) : c ≠ d := fun heq => hd (heq ▸ h)
  have hclosing : ¬ IsClosing c := not_or.mpr ⟨hne (by decide), hne (by decide)⟩
  rw [bracket, if_neg (not_or.mpr ⟨hne (by decide), hne (by decide)⟩), if_neg hclosing]

namespace IsToken

theorem isWhole (h : IsToken t) : IsWhole t := by
  obtain ⟨-, hword⟩ | ⟨_, h⟩ := h
  · exact isWhole_of_ne_quote fun hmem => absurd (hword _ hmem) (by decide)
  · exact h.exists_scan_eq.1

theorem squeeze_eq (h : IsToken t) : squeeze t = t := by
  obtain ⟨-, hword⟩ | ⟨_, h⟩ := h
  · rw [squeeze_of_ne_quote fun hmem => absurd (hword _ hmem) (by decide), List.filter_eq_self]
    intro c hc
    simpa using not_isBlank_of_isWord (hword c hc)
  · obtain ⟨-, rest, hscan, hrest⟩ := h.exists_scan_eq
    have hquote : ¬ IsBlank quote := by decide
    rw [squeeze, List.filter_eq_self.mpr, Place.map_snd_scan]
    rw [hscan, List.forall_mem_cons]
    exact ⟨by simp [hquote], fun x hx => by simp [(hrest x hx).1]⟩

theorem balance_eq_zero (h : IsToken t) : balance t = 0 := by
  obtain ⟨-, hword⟩ | ⟨_, h⟩ := h
  · exact Json.balance_eq_zero (fun hmem => absurd (hword _ hmem) (by decide)) fun c hc =>
      bracket_of_isWord (hword c hc)
  · obtain ⟨-, rest, hscan, hrest⟩ := h.exists_scan_eq
    have hnone : rest.filter (·.1 = .outside) = [] :=
      List.filter_eq_nil_iff.mpr fun x hx => by simp [(hrest x hx).1]
    rw [balance, outer, hscan, List.filter_cons_of_pos (by simp), hnone]
    rfl

theorem not_mem_lineFeed (h : IsToken t) : lineFeed ∉ t := by
  obtain ⟨-, hword⟩ | ⟨_, h⟩ := h
  · exact fun hmem => absurd (hword _ hmem) (by decide)
  · obtain ⟨-, rest, hscan, hrest⟩ := h.exists_scan_eq
    rw [← Place.map_snd_scan .outside t, hscan, List.map_cons, List.mem_cons, not_or]
    refine ⟨by decide, fun hmem => ?_⟩
    obtain ⟨x, hx, hlf⟩ := List.mem_map.mp hmem
    exact absurd (hlf ▸ (hrest x hx).2) (by decide)

theorem isOpening (h : IsToken t) : ∃ c rest, t = c :: rest ∧ IsOpening c := by
  obtain ⟨hne, hword⟩ | ⟨_, ⟨_⟩⟩ := h
  · obtain ⟨c, rest, rfl⟩ := List.exists_cons_of_ne_nil hne
    exact ⟨c, rest, rfl, .inr (.inr (.inr (hword c List.mem_cons_self)))⟩
  · exact ⟨_, _, rfl, .inl rfl⟩

end IsToken

end

end JsonWriter.Json
