import JsonWriter.Proofs.Configuration.Refusal
import JsonWriter.Proofs.Configuration.Sound

/-!
# Generators at any depth

An object that writes itself is handed a generator at the depth where it stands, and that is never checked.
All else in such a generator is as checked changes leave it, and a checked change leaves the depth as it is
or makes it a valid one. Main statements: `closed_isSettledButDepth`, and `copy_of_check_depth`, a generator
with a depth that does not pass its check is not copied.
-/

namespace JsonWriter

namespace Generator

/-- With a valid depth in place of its own the generator is settled. -/
def IsSettledButDepth (g : Generator) : Prop := (g.put .depth (.int 0)).IsSettled

theorem isDepth_zero : (Value.int 0).IsDepth := ⟨0, rfl, Int.le_refl 0⟩

theorem isSettled_iff {g : Generator} : g.IsSettled ↔ g.IsSettledButDepth ∧ g.depth.IsDepth := by
  refine ⟨fun hg => ⟨put_depth_isSettled hg isDepth_zero, hg.depth_isDepth⟩, ?_⟩
  rintro ⟨hg, hd⟩
  exact put_depth_isSettled hg hd

/-! ## Changes -/

/-- What is asked for has the depth in it, or leaves whatever depth there is. -/
theorem apply_put_depth (g : Generator) (u : Update) (depth : Value) :
    (g.put .depth depth).apply u = (g.apply u).put .depth ((u.value? .depth).getD depth) := by
  refine eq_of_get (fun s => ?_) (by rw [unknown_put, unknown_apply, unknown_apply, unknown_put])
  by_cases hbuffer : s = .bufferLength
  · subst hbuffer
    exact (bufferLength_apply _ u).trans (bufferLength_apply g u).symm
  · rw [get_apply _ u hbuffer, get_put, get_put]
    split
    · next hs => rw [hs]
    · exact (get_apply g u hbuffer).symm

/-- With another depth a generator is configured in the same way, but for a depth that is not given. -/
theorem configure_put_depth {g g' : Generator} {options : Value} {ignored : List Value}
    (h : g.configure options = .ok (g', ignored)) (depth : Value) :
    (g'.depth = g.depth ∧
        (g.put .depth depth).configure options = .ok (g'.put .depth depth, ignored)) ∨
      (g.put .depth depth).configure options = .ok (g', ignored) := by
  unfold configure at h ⊢
  split at h
  · cases h
  · next es hes =>
    obtain ⟨u, hread, heq⟩ := map_eq_ok.mp h
    obtain ⟨rfl, rfl⟩ := Prod.mk.inj heq
    have hdepth : (g.apply u).depth = (u.value? .depth).getD g.depth := get_apply g u (t := .depth) (by decide)
    simp only [hread, Except.map, apply_put_depth]
    cases hgiven : u.value? .depth with
    | none =>
      rw [hgiven] at hdepth
      exact .inl ⟨hdepth, rfl⟩
    | some d =>
      rw [hgiven] at hdepth
      obtain rfl : (g.apply u).depth = d := hdepth
      exact .inr rfl

/-- A checked change leaves the depth as it is or makes it a valid one, and settles all else. -/
theorem configure_isSettledButDepth {g g' : Generator} {options : Value} {ignored : List Value}
    (hg : g.IsSettledButDepth) (h : g.configure options = .ok (g', ignored)) :
    g'.IsSettledButDepth ∧ (g'.depth = g.depth ∨ g'.depth.IsDepth) := by
  obtain ⟨hdepth, hother⟩ | hsame := configure_put_depth h (.int 0)
  · exact ⟨configure_isSettled hg hother, .inl hdepth⟩
  · have hsettled := configure_isSettled hg hsame
    exact ⟨(isSettled_iff.mp hsettled).1, .inr hsettled.depth_isDepth⟩

theorem putChecked_put_depth (g : Generator) {s : Setting} (hs : s ≠ .depth) (v depth : Value) :
    (g.put .depth depth).putChecked s v = (g.putChecked s v).put .depth depth := by
  unfold putChecked
  split
  · rfl
  · cases s <;> first | rfl | exact absurd rfl hs

theorem set_isSettledButDepth {g g' : Generator} {s : Setting} {v : Value} (hg : g.IsSettledButDepth)
    (h : g.set s v = .ok g') : g'.IsSettledButDepth ∧ (g'.depth = g.depth ∨ g'.depth.IsDepth) := by
  obtain ⟨w, hw, rfl⟩ := map_eq_ok.mp h
  by_cases hs : s = .depth
  · subst hs
    obtain rfl : w = v := Setting.check_eq_ok hw
    exact ⟨hg, .inr (Value.isDepth_of_check hw)⟩
  · have hset : (g.put .depth (.int 0)).set s v = .ok ((g.putChecked s w).put .depth (.int 0)) := by
      rw [set, hw, Except.map, putChecked_put_depth g hs]
    refine ⟨set_isSettled hg hset, .inl ?_⟩
    exact (get_putChecked g (by decide) w).trans (if_neg (Ne.symm hs))

/-- Whatever the library does to generators by name, by mapping or for an object that writes itself leaves
them settled but for their depths. These are of any kind that valid depths are of, and with each depth the
next one further in. -/
theorem closed_isSettledButDepth {placed : Value → Prop} (hdepth : ∀ d, d.IsDepth → placed d)
    (hsucc : ∀ d inner, placed d → d.succ = .ok inner → placed inner.value) :
    Closed (fun g => g.IsSettledButDepth ∧ placed g.depth) placed := by
  have hchanged {g g' : Generator} (hg : placed g.depth)
      (h : g'.IsSettledButDepth ∧ (g'.depth = g.depth ∨ g'.depth.IsDepth)) :
      g'.IsSettledButDepth ∧ placed g'.depth :=
    ⟨h.1, h.2.elim (fun heq => heq ▸ hg) (hdepth _)⟩
  have hunlimited {g : Generator} (hg : g.IsSettledButDepth) :
      (g.put .maxNesting (.int 0)).IsSettledButDepth :=
    put_isSettled (s := .maxNesting) hg (by decide) ⟨_, rfl⟩ rfl
  exact
    { initial := ⟨put_depth_isSettled initial_isSettled isDepth_zero, hdepth _ isDepth_zero⟩
      configure := fun hg h => hchanged hg.2 (configure_isSettledButDepth hg.1 h)
      set := fun hg h => hchanged hg.2 (set_isSettledButDepth hg.1 h)
      unlimited := fun hg => ⟨hunlimited hg.1, hg.2⟩
      place := fun hg hd => ⟨hg.1, hd⟩
      depth := fun hg => hg.2
      succ := fun hd h => hsucc _ _ hd h }

/-! ## Copies -/

/-- A generator is not copied if its depth does not pass the check. All other settings come before. -/
theorem copy_of_check_depth {g : Generator} (hg : g.IsSettledButDepth) {f : Fault}
    (h : Setting.depth.check g.depth = .error f) : g.copy = .error f := by
  have hentry (s : Setting) : (Value.str s.name).setting? = some s := Setting.ofName?_name s
  have hentries : (Value.dictionary g.entries).entries? =
      some ((Setting.all.dropLast).map (fun s => (.str s.name, g.get s)) ++
        (.str Setting.depth.name, g.depth) :: g.unknown) := rfl
  refine configure_eq_error_iff.mpr (.entry hentries ?_ ?_)
  · refine List.forall_mem_map.mpr fun s hs f' hf' => ?_
    have hother : s ≠ .depth := by
      rintro rfl
      exact absurd hs (by decide)
    obtain ⟨w, hw⟩ := hg.setting s
    rw [get_put, if_neg hother] at hw
    have hrefused := Setting.checkEntry_of_refused (hentry s) hf'
    unfold Setting.checkEntry at hrefused
    split at hrefused
    · cases hrefused
    · cases hw.symm.trans hrefused
  · refine Setting.refused_of_checkEntry (hentry .depth) ?_
    rw [Setting.checkEntry, if_neg (by simp), h]

end Generator

end JsonWriter
