import JsonWriter.Proofs.Layout.Settled

/-!
# Parts that join

Parts join if all of them are texts, and then to these texts in order. What a generator sets between
tokens joins if its settings are texts, and then it is made of their characters. Main statements:
`join_append_eq_ok`, `gap_joins` and `ending_joins`.
-/

namespace JsonWriter

namespace Render.Part

theorem firstOther?_eq_none {index : Nat} {parts : List Part} :
    firstOther? index parts = none ↔ ∃ ts : List Text, parts = ts.map text := by
  induction parts generalizing index with
  | nil => exact iff_of_true rfl ⟨[], rfl⟩
  | cons p rest ih =>
    cases p with
    | text t =>
      rw [firstOther?, ih]
      constructor
      · rintro ⟨ts, rfl⟩
        exact ⟨t :: ts, rfl⟩
      · rintro ⟨_ | ⟨t', ts⟩, h⟩
        · cases h
        · exact ⟨ts, (List.cons.inj h).2⟩
    | other kind =>
      refine iff_of_false nofun ?_
      rintro ⟨_ | ⟨t', ts⟩, h⟩
      · cases h
      · cases (List.cons.inj h).1

theorem content_text (ts : List Text) : (ts.map text).map content = ts := by
  rw [List.map_map]
  exact List.map_id ts

theorem join_eq_ok {parts : List Part} {t : Text} :
    join parts = .ok t ↔ ∃ ts : List Text, parts = ts.map text ∧ ts.flatten = t := by
  unfold join
  split
  · next h =>
    obtain ⟨ts, rfl⟩ := firstOther?_eq_none.mp h
    rw [content_text, Except.ok.injEq]
    constructor
    · exact fun h => ⟨ts, rfl, h⟩
    · rintro ⟨ts', h, rfl⟩
      rw [← content_text ts, h, content_text]
  · next h =>
    refine iff_of_false nofun ?_
    rintro ⟨ts, rfl, -⟩
    rw [firstOther?_eq_none.mpr ⟨ts, rfl⟩] at h
    cases h

theorem join_texts (ts : List Text) : join (ts.map text) = .ok ts.flatten := join_eq_ok.mpr ⟨ts, rfl, rfl⟩

theorem join_text (t : Text) : join [text t] = .ok t := by simpa using join_texts [t]

/-- Parts join exactly if those before and those after some place do. -/
theorem join_append_eq_ok {before after : List Part} {t : Text} :
    join (before ++ after) = .ok t ↔
      ∃ u v, join before = .ok u ∧ join after = .ok v ∧ u ++ v = t := by
  constructor
  · intro h
    obtain ⟨ts, hts, rfl⟩ := join_eq_ok.mp h
    obtain ⟨us, vs, rfl, rfl, rfl⟩ := List.map_eq_append_iff.mp hts.symm
    exact ⟨_, _, join_texts us, join_texts vs, List.flatten_append.symm⟩
  · rintro ⟨u, v, hu, hv, rfl⟩
    obtain ⟨us, rfl, rfl⟩ := join_eq_ok.mp hu
    obtain ⟨vs, rfl, rfl⟩ := join_eq_ok.mp hv
    rw [← List.map_append, join_texts, List.flatten_append]

theorem join_cons_eq_ok {u : Text} {rest : List Part} {t : Text} :
    join (.text u :: rest) = .ok t ↔ ∃ v, join rest = .ok v ∧ u ++ v = t := by
  rw [← List.singleton_append, join_append_eq_ok, join_text]
  simp

end Render.Part

/-! ## Texts between tokens -/

namespace Value

theorem number?_of_text? {v : Value} {t : Text} (h : v.text? = some t) : v.number? = none := by
  unfold text? at h
  unfold number?
  split at h <;> simp_all

theorem textAfter_of_text? {v : Value} {t : Text} (h : v.text? = some t) : v.textAfter = .ok t := by
  rw [textAfter, h]

theorem repeater?_of_text? {v : Value} {t : Text} (h : v.text? = some t) :
    v.repeater? = some fun k =>
      (checkLength .repeatedText t.length k).map fun () => str (copies t k) := by
  unfold repeater?
  split <;> simp_all

/-- A text is repeated as a text, and a whole number of times. -/
theorem times_eq_ok {v w : Value} {t : Text} (h : v.text? = some t) {n : Number}
    (hw : v.times n = .ok w) : ∃ k, n.whole? = some k ∧ w = .str (copies t k.toNat) := by
  simp only [times, number?_of_text? h, repeater?_of_text? h] at hw
  cases hn : n.whole? with
  | none =>
    rw [hn] at hw
    cases hw
  | some k =>
    simp only [hn, repetitions] at hw
    split at hw
    · cases hw
    · obtain ⟨_, _, rfl⟩ := map_eq_ok.mp hw
      exact ⟨k, rfl, rfl⟩

end Value

theorem forall_mem_copies {p : CodePoint → Prop} {t : Text} (ht : ∀ c ∈ t, p c) (n : Nat) :
    ∀ c ∈ copies t n, p c := by
  intro c hc
  unfold copies at hc
  split at hc
  · cases hc
  · obtain ⟨u, hu, hc⟩ := List.mem_flatten.mp hc
    exact ht c (List.eq_of_mem_replicate hu ▸ hc)

/-- The settings that are set between tokens. -/
def Setting.layout : List Setting := [indent, space, spaceBefore, objectNewline, arrayNewline]

namespace Generator

/-- The settings between tokens are texts of such characters. -/
def HasLayout (g : Generator) (p : CodePoint → Prop) : Prop :=
  ∀ s ∈ Setting.layout, ∃ t, (g.get s).text? = some t ∧ ∀ c ∈ t, p c

instance (g : Generator) (p : CodePoint → Prop) [DecidablePred p] : Decidable (g.HasLayout p) :=
  decidable_of_iff (∀ s ∈ Setting.layout, (g.get s).text?.any fun t => decide (∀ c ∈ t, p c)) <|
    forall₂_congr fun s _ => by simp [Option.any_eq_true]

theorem HasLayout.mono {g : Generator} {p q : CodePoint → Prop} (hsub : ∀ c, p c → q c)
    (h : g.HasLayout p) : g.HasLayout q := by
  intro s hs
  obtain ⟨t, ht, hp⟩ := h s hs
  exact ⟨t, ht, fun c hc => hsub c (hp c hc)⟩

/-- Such characters stand between tokens, apart from commas and colons. -/
structure Format.HasLayout (f : Format) (p : CodePoint → Prop) : Prop where
  indent : ∃ t, f.indent.text? = some t ∧ ∀ c ∈ t, p c
  colon : ∃ before after, f.colon = .ok (before ++ .ofChar ':' :: after) ∧ (∀ c ∈ before, p c) ∧
    ∀ c ∈ after, p c
  newline : ∀ shape : Render.Shape, ∃ t, shape.newline f = .ok t ∧ ∀ c ∈ t, p c

theorem format_colon {g : Generator} {before after : Text} (hbefore : g.spaceBefore.text? = some before)
    (hafter : g.space.text? = some after) :
    g.format.colon = .ok (before ++ .ofChar ':' :: after) := by
  simp [format, Generator.colon, Value.textBefore, Value.textAfter_of_text? hafter, hbefore, bind,
    Except.bind, pure, Except.pure]

theorem HasLayout.format {g : Generator} {p : CodePoint → Prop} (h : g.HasLayout p) :
    g.format.HasLayout p := by
  obtain ⟨indent, hindent⟩ := h .indent (by decide)
  obtain ⟨space, hspace, hspace'⟩ := h .space (by decide)
  obtain ⟨before, hbefore, hbefore'⟩ := h .spaceBefore (by decide)
  obtain ⟨object, hobject, hobject'⟩ := h .objectNewline (by decide)
  obtain ⟨array, harray, harray'⟩ := h .arrayNewline (by decide)
  refine ⟨⟨indent, hindent⟩, ⟨before, space, format_colon hbefore hspace, hbefore', hspace'⟩,
    fun shape => ?_⟩
  cases shape with
  | array => exact ⟨array, Value.textAfter_of_text? harray, harray'⟩
  | object => exact ⟨object, Value.textAfter_of_text? hobject, hobject'⟩

end Generator

namespace Render

variable {f : Generator.Format} {p : CodePoint → Prop} (hf : f.HasLayout p) {newline : Text}
  {depth : Number} {parts : List Part}

include hf

theorem margin_joins (h : margin f newline depth = .ok parts) :
    ∃ t, Part.join parts = .ok t ∧ ∀ c ∈ t, p c := by
  obtain ⟨indent, hindent, hp⟩ := hf.indent
  unfold margin at h
  split at h
  · obtain rfl := Except.ok.inj h
    exact ⟨[], rfl, List.forall_mem_nil _⟩
  · obtain ⟨w, hw, rfl⟩ := map_eq_ok.mp h
    obtain ⟨k, -, rfl⟩ := Value.times_eq_ok hindent hw
    exact ⟨_, Part.join_text _, forall_mem_copies hp _⟩

variable (hnewline : ∀ c ∈ newline, p c)

include hnewline

theorem gap_joins {first : Bool} (h : gap f newline depth first = .ok parts) :
    ∃ t, Part.join parts = .ok (if first then t else .ofChar ',' :: t) ∧ ∀ c ∈ t, p c := by
  obtain ⟨m, hm, rfl⟩ := map_eq_ok.mp h
  obtain ⟨t, ht, hp⟩ := margin_joins hf hm
  cases first with
  | true => exact ⟨t, ht, hp⟩
  | false =>
    exact ⟨newline ++ t, Part.join_cons_eq_ok.mpr ⟨t, ht, rfl⟩,
      List.forall_mem_append.mpr ⟨hnewline, hp⟩⟩

theorem ending_joins {shape : Shape} (h : ending f shape newline depth = .ok parts) :
    ∃ t, Part.join parts = .ok (t ++ [shape.closing]) ∧ ∀ c ∈ t, p c := by
  obtain ⟨m, hm, rfl⟩ := map_eq_ok.mp h
  obtain ⟨t, ht, hp⟩ := margin_joins hf hm
  have hclosing := Part.join_append_eq_ok.mpr ⟨t, _, ht, Part.join_text [shape.closing], rfl⟩
  refine ⟨newline ++ t, Part.join_cons_eq_ok.mpr ⟨_, hclosing, ?_⟩,
    List.forall_mem_append.mpr ⟨hnewline, hp⟩⟩
  rw [List.append_assoc]

end Render

end JsonWriter
