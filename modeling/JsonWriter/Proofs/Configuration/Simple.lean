import JsonWriter.Proofs.Layout.Settled
import JsonWriter.Proofs.Session.Within
import JsonWriter.Proofs.Validity

/-!
# What checked changes put

A check returns nothing but texts, numbers and truth values. So what is true of these stays true of the
settings of a generator, whatever is done to it by name or by mapping. Main statement: `closed_of_simple`.
-/

namespace JsonWriter

/-- The value is a text, a number or a truth value. -/
def Value.IsSimple (v : Value) : Prop := v.text?.isSome ∨ v.number?.isSome

namespace Value

theorem isSimple_of_wholeNumber? {v : Value} (h : v.wholeNumber?.isSome) : v.IsSimple := by
  unfold wholeNumber? at h
  split at h
  · next hc => exact .inr (by rw [number?, hc, Option.isSome_some])
  · cases h

theorem isSimple_number (x : Number) : x.value.IsSimple := .inr (by cases x <;> rfl)

end Value

theorem Setting.isSimple_of_check {s : Setting} {v w : Value} (h : s.check v = .ok w) : w.IsSimple := by
  obtain rfl := check_eq_ok h
  cases s with
  | allowNan | asciiOnly => exact .inr rfl
  | maxNesting | depth =>
    refine Value.isSimple_of_wholeNumber? (v := v) ?_
    simp only [check] at h
    split at h
    · cases h
    · next hn => rw [hn, Option.isSome_some]
  | bufferLength =>
    refine Value.isSimple_of_wholeNumber? ?_
    simp only [check] at h
    split at h
    · next hn => exact hn
    · cases h
  | indent | space | spaceBefore | objectNewline | arrayNewline =>
    simp only [check] at h
    split at h
    · next ht => exact .inl ht
    · cases h

theorem Setting.isSimple_of_checkEntry {s : Setting} {v w : Value} (h : s.checkEntry v = .ok w) :
    w.IsSimple := by
  unfold checkEntry at h
  split at h
  · obtain rfl := Except.ok.inj h
    exact .inr rfl
  · exact isSimple_of_check h

theorem Update.isSimple_of_read {u u' : Update} {es : Entries}
    (hu : ∀ s v, u.value? s = some v → v.IsSimple) (h : u.read es = .ok u') :
    ∀ s v, u'.value? s = some v → v.IsSimple := by
  induction es generalizing u with
  | nil =>
    obtain rfl := Except.ok.inj h
    exact hu
  | cons e rest ih =>
    obtain ⟨key, v⟩ := e
    rw [read] at h
    split at h
    · next s hs =>
      split at h
      · cases h
      · next w hw =>
        refine ih (u := u.set s w) (fun t x hx => ?_) h
        simp only [set] at hx
        split at hx
        · obtain rfl := Option.some.inj hx
          exact Setting.isSimple_of_checkEntry hw
        · exact hu t x hx
    · split at h
      · cases h
      · exact ih (u := { u with unknown := u.unknown.insert key v }) hu h

namespace Generator

variable {P : Value → Prop} {g : Generator}

theorem all_put (hg : ∀ s, P (g.get s)) (s : Setting) {v : Value} (hv : P v) :
    ∀ t, P ((g.put s v).get t) := by
  intro t
  rw [get_put]
  split
  · exact hv
  · exact hg t

theorem all_putChecked (hg : ∀ s, P (g.get s)) (s : Setting) {v : Value} (hv : P v) :
    ∀ t, P ((g.putChecked s v).get t) := by
  rw [putChecked]
  split
  · exact hg
  · exact all_put hg s hv

theorem all_apply (hg : ∀ s, P (g.get s)) {u : Update} (hu : ∀ s v, u.value? s = some v → P v) :
    ∀ t, P ((g.apply u).get t) := by
  have hfold (ss : List Setting) {g : Generator} (hg : ∀ s, P (g.get s)) :
      ∀ t, P ((ss.foldl (fun g s => (u.value? s).elim g (g.putChecked s)) g).get t) := by
    induction ss generalizing g with
    | nil => exact hg
    | cons s rest ih =>
      rw [List.foldl_cons]
      cases hv : u.value? s with
      | none => exact ih hg
      | some v => exact ih (all_putChecked hg s (hu s v hv))
  have hall := hfold Setting.all hg
  rw [apply_eq]
  intro s
  have hs := hall s
  cases s <;> exact hs

/-- What is true of texts, numbers and truth values stays true of all settings, if it is of depths. -/
theorem closed_of_simple (hP : ∀ v : Value, v.IsSimple → P v) : Closed (fun g => ∀ s, P (g.get s)) P where
  initial s := hP _ (by cases s <;> first | exact .inl rfl | exact .inr rfl)
  configure {g g' options ignored} hg h := by
    unfold configure at h
    split at h
    · cases h
    · next es _ =>
      obtain ⟨u, hread, heq⟩ := map_eq_ok.mp h
      obtain ⟨rfl, -⟩ := Prod.mk.inj heq
      have hinitial : ∀ s v, Update.initial.value? s = some v → v.IsSimple := by
        intro s v hv
        simp only [Update.initial] at hv
        split at hv
        · obtain rfl := Option.some.inj hv
          exact .inr rfl
        · cases hv
      exact all_apply hg fun s v hv => hP v (Update.isSimple_of_read hinitial hread s v hv)
  set hg h := by
    obtain ⟨w, hw, rfl⟩ := map_eq_ok.mp h
    exact all_putChecked hg _ (hP w (Setting.isSimple_of_check hw))
  unlimited hg := all_put hg _ (hP _ (.inr rfl))
  place hg hd := all_put hg _ hd
  depth hg := hg .depth
  succ _ _ := hP _ (Value.isSimple_number _)

end Generator

end JsonWriter
