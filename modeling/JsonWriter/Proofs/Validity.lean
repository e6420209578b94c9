import JsonWriter.Generator.Configure

/-!
# Valid generators

The settings of a valid generator pass their own checks. Checked changes keep a generator valid, and a
valid one can be copied. Main statements: `configure_isValid` and `copy_of_isValid`, the copy renders
as the generator does.
-/

namespace JsonWriter

/-! ## Keys of no use -/

namespace Keyed

variable {α : Type} {p : Value → Prop}

theorem forall_mem_insert {key : Value} (hkey : p key) {a : α} {es : Keyed α}
    (hes : ∀ e ∈ es, p e.1) : ∀ e ∈ es.insert key a, p e.1 := by
  induction es with
  | nil => exact List.forall_mem_singleton.mpr hkey
  | cons e rest ih =>
    obtain ⟨hhead, htail⟩ := List.forall_mem_cons.mp hes
    rw [insert]
    split
    · exact List.forall_mem_cons.mpr ⟨hhead, htail⟩
    · exact List.forall_mem_cons.mpr ⟨hhead, ih htail⟩

theorem forall_mem_insertAll {es news : Keyed α} (hes : ∀ e ∈ es, p e.1)
    (hnews : ∀ e ∈ news, p e.1) : ∀ e ∈ es.insertAll news, p e.1 := by
  induction news generalizing es with
  | nil => exact hes
  | cons e rest ih =>
    obtain ⟨hhead, htail⟩ := List.forall_mem_cons.mp hnews
    exact ih (forall_mem_insert hhead hes) htail

end Keyed

/-- The key can be kept beside the settings. -/
def Value.IsUnknown (key : Value) : Prop := key.setting? = none ∧ key.unhashable? = none

/-- Each setting passes its own check, and the other keys name no setting. -/
structure Generator.IsValid (g : Generator) : Prop where
  setting : ∀ s : Setting, ∃ v, s.check (g.get s) = .ok v
  unknown : ∀ e ∈ g.unknown, e.1.IsUnknown

/-! ## Checks -/

namespace Setting

/-- What a check returns for a value that passes: a switch is a truth value. -/
def checked (s : Setting) (v : Value) : Value :=
  match s with
  | allowNan | asciiOnly => .bool v.isTrue
  | _ => v

theorem check_eq_ok {s : Setting} {v w : Value} (h : s.check v = .ok w) : w = s.checked v := by
  cases s with
  | allowNan | asciiOnly => exact (Except.ok.inj h).symm
  | maxNesting | depth =>
    simp only [check] at h
    split at h
    · cases h
    · split at h
      · cases h
      · exact (Except.ok.inj h).symm
  | bufferLength | indent | space | spaceBefore | objectNewline | arrayNewline =>
    simp only [check] at h
    split at h
    · exact (Except.ok.inj h).symm
    · cases h

/-- A checked value passes the check. -/
theorem check_of_check {s : Setting} {v w : Value} (h : s.check v = .ok w) :
    ∃ u, s.check w = .ok u := by
  rw [check_eq_ok h]
  cases s with
  | allowNan | asciiOnly => exact ⟨_, rfl⟩
  | _ => exact ⟨w, h⟩

theorem check_of_checkEntry {s : Setting} {v w : Value} (h : s.checkEntry v = .ok w) :
    ∃ u, s.check w = .ok u := by
  unfold checkEntry at h
  split at h
  · next hs =>
    obtain ⟨rfl, -⟩ := hs
    obtain rfl := Except.ok.inj h
    exact ⟨_, rfl⟩
  · exact check_of_check h

end Setting

namespace Update

/-- The values asked for pass their checks, and the other keys name no setting. -/
structure IsChecked (u : Update) : Prop where
  value : ∀ s v, u.value? s = some v → ∃ w, s.check v = .ok w
  unknown : ∀ e ∈ u.unknown, e.1.IsUnknown

theorem initial_isChecked : initial.IsChecked where
  value s v h := by
    simp only [initial] at h
    split at h
    · next hs =>
      obtain rfl := hs
      obtain rfl := Option.some.inj h
      exact ⟨_, rfl⟩
    · cases h
  unknown := List.forall_mem_nil _

theorem isChecked_of_read {u u' : Update} (hu : u.IsChecked) {es : Entries}
    (h : u.read es = .ok u') : u'.IsChecked := by
  induction es generalizing u with
  | nil =>
    obtain rfl := Except.ok.inj h
    exact hu
  | cons e rest ih =>
    obtain ⟨key, v⟩ := e
    rw [read] at h
    split at h
    · next s hs =>
      split at h
      · cases h
      · next w hw =>
        refine ih (u := u.set s w) ⟨fun t x hx => ?_, hu.unknown⟩ h
        simp only [set] at hx
        split at hx
        · next ht =>
          obtain rfl := ht
          obtain rfl := Option.some.inj hx
          exact Setting.check_of_checkEntry hw
        · exact hu.value t x hx
    · next hs =>
      split at h
      · cases h
      · next hhash =>
        have hunknown := Keyed.forall_mem_insert (p := Value.IsUnknown) (a := v) ⟨hs, hhash⟩ hu.unknown
        exact ih (u := { u with unknown := u.unknown.insert key v }) ⟨hu.value, hunknown⟩ h

end Update

namespace Generator

theorem get_putChecked (g : Generator) {s t : Setting} (ht : t ≠ .bufferLength) (v : Value) :
    (g.putChecked s v).get t = if t = s then v else g.get t := by
  rw [putChecked]
  split
  · next hs => rw [if_neg (hs.1 ▸ ht)]
  · rw [get_put]

/-- The settings asked for are put one after the other. -/
theorem apply_eq (g : Generator) (u : Update) : g.apply u =
    { Setting.all.foldl (fun g s => (u.value? s).elim g (g.putChecked s)) g with
      unknown := g.unknown.insertAll u.unknown } := by
  obtain ⟨o, ho, h⟩ : ∃ o : Generator → Setting → Generator,
      (∀ g s, o g s = (u.value? s).elim g (g.putChecked s)) ∧
        g.apply u = { Setting.all.foldl o g with unknown := g.unknown.insertAll u.unknown } :=
    ⟨_, fun g s => by cases u.value? s <;> rfl, rfl⟩
  obtain rfl : o = _ := funext fun g => funext (ho g)
  exact h

theorem isValid_initial : initial.IsValid where
  setting s := by cases s <;> exact ⟨_, rfl⟩
  unknown := List.forall_mem_nil _

section

variable {g : Generator} (hg : g.IsValid)

include hg

theorem put_isValid {s : Setting} {v : Value} (hv : ∃ w, s.check v = .ok w) :
    (g.put s v).IsValid where
  setting t := by
    rw [get_put]
    split
    · next ht => exact ht ▸ hv
    · exact hg.setting t
  unknown := by
    rw [unknown_put]
    exact hg.unknown

theorem putChecked_isValid {s : Setting} {v : Value} (hv : ∃ w, s.check v = .ok w) :
    (g.putChecked s v).IsValid := by
  rw [putChecked]
  split
  · exact hg
  · exact put_isValid hg hv

theorem apply_isValid {u : Update} (hu : u.IsChecked) : (g.apply u).IsValid := by
  have hfold (ss : List Setting) {g : Generator} (hg : g.IsValid) :
      (ss.foldl (fun g s => (u.value? s).elim g (g.putChecked s)) g).IsValid := by
    induction ss generalizing g with
    | nil => exact hg
    | cons s rest ih =>
      rw [List.foldl_cons]
      cases hv : u.value? s with
      | none => exact ih hg
      | some v => exact ih (putChecked_isValid hg (hu.value s v hv))
  obtain ⟨hsetting, hunknown⟩ := hfold Setting.all hg
  rw [apply_eq]
  exact ⟨fun s => by cases s <;> exact hsetting _, Keyed.forall_mem_insertAll hg.unknown hu.unknown⟩

/-- A configured generator is valid if it was valid before. -/
theorem configure_isValid {g' : Generator} {options : Value} {ignored : List Value}
    (h : g.configure options = .ok (g', ignored)) : g'.IsValid := by
  unfold configure at h
  split at h
  · cases h
  · next es hes =>
    cases hread : Update.initial.read es with
    | error e =>
      rw [hread] at h
      cases h
    | ok u =>
      rw [hread] at h
      obtain ⟨rfl, -⟩ := Prod.mk.inj (Except.ok.inj h)
      exact apply_isValid hg (Update.isChecked_of_read Update.initial_isChecked hread)

/-- A generator with one setting changed is valid if it was valid before. -/
theorem set_isValid {g' : Generator} {s : Setting} {v : Value} (h : g.set s v = .ok g') :
    g'.IsValid := by
  unfold set at h
  cases hcheck : s.check v with
  | error e =>
    rw [hcheck] at h
    cases h
  | ok w =>
    rw [hcheck] at h
    obtain rfl := Except.ok.inj h
    exact putChecked_isValid hg (Setting.check_of_check hcheck)

end

/-! ## Copies -/

theorem get_apply (g : Generator) (u : Update) {t : Setting} (ht : t ≠ .bufferLength) :
    (g.apply u).get t = (u.value? t).getD (g.get t) := by
  have hfold (ss : List Setting) (g : Generator) :
      (ss.foldl (fun g s => (u.value? s).elim g (g.putChecked s)) g).get t =
        if t ∈ ss then (u.value? t).getD (g.get t) else g.get t := by
    induction ss generalizing g with
    | nil => simp
    | cons s rest ih =>
      rw [List.foldl_cons, ih]
      by_cases hs : t = s
      · subst hs
        cases hv : u.value? t with
        | none => simp
        | some v => simp [get_putChecked g ht]
      · cases hv : u.value? s with
        | none => simp [hs]
        | some v => simp [get_putChecked g ht, hs]
  have hall := hfold Setting.all g
  rw [if_pos t.mem_all] at hall
  rw [← hall, apply_eq]
  cases t <;> rfl

end Generator

namespace Setting

/-- What becomes of a valid value in a copy: no limit is the limit zero. -/
def kept (s : Setting) (v : Value) : Value :=
  if s = maxNesting ∧ v.isTrue = false then .int 0 else s.checked v

theorem checkEntry_of_check {s : Setting} {v : Value} (h : ∃ w, s.check v = .ok w) :
    s.checkEntry v = .ok (s.kept v) := by
  obtain ⟨w, hw⟩ := h
  unfold checkEntry kept
  split
  · rfl
  · rw [hw, check_eq_ok hw]

end Setting

namespace Update

theorem read_settings {g : Generator} (hg : g.IsValid) (ss : List Setting) (rest : Entries)
    (u : Update) : u.read (ss.map (fun s => (.str s.name, g.get s)) ++ rest) =
      (ss.foldl (fun u s => u.set s (s.kept (g.get s))) u).read rest := by
  induction ss generalizing u with
  | nil => rfl
  | cons s ss ih =>
    have hname : (Value.str s.name).setting? = some s := Setting.ofName?_name s
    simp only [List.map_cons, List.cons_append, read, hname,
      Setting.checkEntry_of_check (hg.setting s)]
    exact ih _

theorem read_unknown {es : Entries} (h : ∀ e ∈ es, e.1.IsUnknown) (u : Update) :
    u.read es = .ok { u with unknown := u.unknown.insertAll es } := by
  induction es generalizing u with
  | nil => rfl
  | cons e rest ih =>
    obtain ⟨⟨hsetting, hhash⟩, htail⟩ := List.forall_mem_cons.mp h
    simp only [read, hsetting, hhash]
    exact ih htail _

end Update

namespace Generator

/-- A valid generator can be copied, with each setting as it is kept. -/
theorem copy_of_isValid {g : Generator} (hg : g.IsValid) : ∃ g' ignored,
    g.copy = .ok (g', ignored) ∧ g'.IsValid ∧
      ∀ t, t ≠ .bufferLength → g'.get t = t.kept (g.get t) := by
  obtain ⟨u, hread, hu⟩ : ∃ u, Update.initial.read g.entries = .ok u ∧
      ∀ t, u.value? t = some (t.kept (g.get t)) := by
    rw [entries, Update.read_settings hg, Update.read_unknown hg.unknown]
    exact ⟨_, rfl, fun t => by cases t <;> rfl⟩
  have hcopy : g.copy = .ok (initial.apply u, u.unknown.map (·.1)) := by
    rw [copy, configure, Value.entries?]
    simp [Value.content, Value.dictionary, hread, Except.map]
  refine ⟨_, _, hcopy, configure_isValid isValid_initial hcopy, fun t ht => ?_⟩
  rw [get_apply _ _ ht, hu, Option.getD_some]

/-- A limit kept in a copy limits nesting as before. -/
theorem checkNesting_kept {limit : Value} (h : ∃ w, Setting.maxNesting.check limit = .ok w)
    (depth : Value) :
    checkNesting (Setting.maxNesting.kept limit) depth = checkNesting limit depth := by
  rw [Setting.kept]
  split
  · next hlimit =>
    obtain ⟨w, hw⟩ := h
    have hzero : isUnlimited limit = true := by
      simp only [Setting.check, Value.wholeNumber?] at hw
      cases hc : limit.content with
      | int n =>
        have hn : n = 0 := by simpa [Value.isTrue, hc] using hlimit.2
        simp [isUnlimited, Value.number?, hc, hn, Number.isZero]
      | _ =>
        rw [hc] at hw
        cases hw
    simp only [checkNesting, hzero]
    rfl
  · rfl

/-- A copy at another depth sets out and limits as the generator does. -/
theorem format_of_kept {g g' : Generator}
    (h : ∀ t, t ≠ .bufferLength → g'.get t = t.kept (g.get t)) (depth : Value) :
    (g'.put .depth depth).format =
      { g.format with maxNesting := Setting.maxNesting.kept g.maxNesting } := by
  have hindent : g'.indent = g.indent := h .indent (by decide)
  have hspace : g'.space = g.space := h .space (by decide)
  have hbefore : g'.spaceBefore = g.spaceBefore := h .spaceBefore (by decide)
  have hobject : g'.objectNewline = g.objectNewline := h .objectNewline (by decide)
  have harray : g'.arrayNewline = g.arrayNewline := h .arrayNewline (by decide)
  have hnesting : g'.maxNesting = Setting.maxNesting.kept g.maxNesting := h .maxNesting (by decide)
  have hnan : g'.allowNan = .bool g.allowNan.isTrue := h .allowNan (by decide)
  have hascii : g'.asciiOnly = .bool g.asciiOnly.isTrue := h .asciiOnly (by decide)
  simp [format, put, colon, hindent, hspace, hbefore, hobject, harray, hnesting, hnan, hascii,
    Value.isTrue, Value.content]

end Generator

end JsonWriter
