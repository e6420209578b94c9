import JsonWriter.Proofs.Layout.Settled
import JsonWriter.Proofs.Validity

/-!
# What a mapping asks for

A mapping that is accepted asks, for each setting, for the last value that it gives it, as the setting
keeps it, and for its other keys as they stand. Main statements: `read_eq_ok`, and `configure_eq_ok` with
what becomes of a generator.
-/

namespace JsonWriter

/-- The entries of a mapping, and none for what is no mapping. -/
def Value.items (options : Value) : Entries := options.entries?.getD []

namespace Entries

/-- The values given to a setting, in order. -/
def given (s : Setting) (es : Entries) : List Value :=
  (es.filter fun e => e.1.setting? = some s).map (·.2)

/-- The entries whose keys name no setting, in order. -/
def unnamed (es : Entries) : Entries := es.filter fun e => e.1.setting? = none

@[simp] theorem given_nil (s : Setting) : given s [] = [] := rfl

@[simp] theorem given_append (s : Setting) (es fs : Entries) :
    given s (es ++ fs) = given s es ++ given s fs := by
  simp [given]

@[simp] theorem unnamed_append (es fs : Entries) : unnamed (es ++ fs) = unnamed es ++ unnamed fs := by
  simp [unnamed]

theorem given_cons_of_setting {e : Value × Value} {t : Setting} (h : e.1.setting? = some t)
    (s : Setting) (es : Entries) :
    given s (e :: es) = if s = t then e.2 :: given s es else given s es := by
  by_cases hs : s = t
  · simp [given, h, hs]
  · simp [given, h, hs, Ne.symm hs]

theorem given_cons_of_none {e : Value × Value} (h : e.1.setting? = none) (s : Setting)
    (es : Entries) : given s (e :: es) = given s es := by
  simp [given, h]

end Entries

namespace Keyed

variable {α : Type}

@[simp] theorem insertAll_nil (es : Keyed α) : es.insertAll [] = es := rfl

@[simp] theorem insertAll_cons (es : Keyed α) (e : Value × α) (news : Keyed α) :
    es.insertAll (e :: news) = (es.insert e.1 e.2).insertAll news := rfl

theorem insertAll_append (es news more : Keyed α) :
    es.insertAll (news ++ more) = (es.insertAll news).insertAll more := List.foldl_append

end Keyed

namespace Setting

theorem checkEntry_eq_ok {s : Setting} {v w : Value} (h : s.checkEntry v = .ok w) :
    w = s.kept v := by
  unfold checkEntry at h
  unfold kept
  split at h
  · next hs =>
    rw [if_pos hs]
    exact (Except.ok.inj h).symm
  · next hs =>
    rw [if_neg hs]
    exact check_eq_ok h

end Setting

namespace Update

/-- What is asked for after some entries: the last value that they give a setting, if they give any, and
their other keys put over those before. -/
theorem read_eq_ok {u u' : Update} {es : Entries} (h : u.read es = .ok u') :
    (∀ s, u'.value? s = ((es.given s).getLast?.map s.kept).or (u.value? s)) ∧
      u'.unknown = u.unknown.insertAll es.unnamed := by
  induction es generalizing u with
  | nil =>
    obtain rfl := Except.ok.inj h
    exact ⟨fun s => by simp, rfl⟩
  | cons e rest ih =>
    obtain ⟨key, v⟩ := e
    rw [read] at h
    split at h
    · next t ht =>
      split at h
      · cases h
      · next w hw =>
        obtain ⟨hvalue, hunknown⟩ := ih h
        refine ⟨fun s => ?_, by simpa [Entries.unnamed, ht, set] using hunknown⟩
        rw [hvalue, Entries.given_cons_of_setting ht, Setting.checkEntry_eq_ok hw]
        by_cases hs : s = t
        · subst hs
          cases hg : (Entries.given s rest).getLast? <;> simp [set, List.getLast?_cons, hg]
        · simp [set, hs]
    · next ht =>
      split at h
      · cases h
      · obtain ⟨hvalue, hunknown⟩ := ih h
        refine ⟨fun s => ?_, by simpa [Entries.unnamed, ht] using hunknown⟩
        rw [hvalue, Entries.given_cons_of_none ht]

end Update

namespace Generator

theorem unknown_apply (g : Generator) (u : Update) :
    (g.apply u).unknown = g.unknown.insertAll u.unknown := rfl

theorem bufferLength_putChecked (g : Generator) (s : Setting) (v : Value) :
    (g.putChecked s v).bufferLength =
      if s = .bufferLength ∧ v.int?.any (0 < ·) then v else g.bufferLength := by
  have hput : (g.put s v).bufferLength = if s = .bufferLength then v else g.bufferLength := by
    cases s <;> rfl
  have hpositive : v.int?.any (0 < ·) = !v.int?.all (· ≤ 0) := by
    cases v.int? with
    | none => rfl
    | some n => simp only [Option.any_some, Option.all_some, ← decide_not, Int.not_le]
  rw [putChecked, hpositive]
  cases v.int?.all (· ≤ 0) with
  | true => by_cases hs : s = .bufferLength <;> simp [hs, hput]
  | false => simp [hput]

/-- A buffer length is only taken if it is positive. -/
theorem bufferLength_apply (g : Generator) (u : Update) : (g.apply u).bufferLength =
    ((u.value? .bufferLength).filter fun v => v.int?.any (0 < ·)).getD g.bufferLength := by
  have hfold (ss : List Setting) (g : Generator) :
      (ss.foldl (fun g s => (u.value? s).elim g (g.putChecked s)) g).bufferLength =
        if .bufferLength ∈ ss then
          ((u.value? .bufferLength).filter fun v => v.int?.any (0 < ·)).getD g.bufferLength
        else g.bufferLength := by
    induction ss generalizing g with
    | nil => simp
    | cons s rest ih =>
      rw [List.foldl_cons, ih]
      by_cases hs : s = .bufferLength
      · subst hs
        cases u.value? .bufferLength with
        | none => simp
        | some v =>
          by_cases hv : v.int?.any (0 < ·) <;> simp [bufferLength_putChecked, Option.filter, hv]
      · cases u.value? s with
        | none => simp [Ne.symm hs]
        | some v => simp [bufferLength_putChecked, hs, Ne.symm hs]
  have hall := hfold Setting.all g
  rw [if_pos (Setting.mem_all .bufferLength)] at hall
  rw [apply_eq]
  exact hall

/-- What becomes of a generator that is configured: the values that the entries give last, and the
nesting limit as it is at first if they give none. -/
theorem configure_eq_ok {g g' : Generator} {options : Value} {ignored : List Value}
    (h : g.configure options = .ok (g', ignored)) : ∃ es, options.entries? = some es ∧
      g'.maxNesting =
        (((es.given .maxNesting).getLast?.map Setting.maxNesting.kept).getD (.int defaultNesting)) ∧
      (∀ s, s ≠ .maxNesting → s ≠ .bufferLength →
        g'.get s = ((es.given s).getLast?.map s.checked).getD (g.get s)) ∧
      g'.bufferLength =
        (((es.given .bufferLength).getLast?.filter fun v => v.int?.any (0 < ·)).getD g.bufferLength) ∧
      g'.unknown = g.unknown.insertAll (Keyed.insertAll [] es.unnamed) := by
  unfold configure at h
  split at h
  · cases h
  · next es hes =>
    obtain ⟨u, hread, heq⟩ := map_eq_ok.mp h
    obtain ⟨rfl, -⟩ := Prod.mk.inj heq
    obtain ⟨hvalue, hunknown⟩ := Update.read_eq_ok hread
    refine ⟨es, hes, ?_, fun s hnesting hbuffer => ?_, ?_, ?_⟩
    · have hget := get_apply g u (t := .maxNesting) (by decide)
      rw [hvalue] at hget
      refine hget.trans ?_
      cases (es.given .maxNesting).getLast? <;> rfl
    · rw [get_apply g u hbuffer, hvalue]
      have hkept : s.kept = s.checked := funext fun v => by simp [Setting.kept, hnesting]
      simp [Update.initial, hnesting, hkept]
    · rw [bufferLength_apply, hvalue]
      cases (es.given .bufferLength).getLast? <;> rfl
    · rw [unknown_apply, hunknown]
      rfl

end Generator

end JsonWriter
