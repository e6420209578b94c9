import JsonWriter.Proofs.Counting.Calls
import Mathlib.Algebra.BigOperators.Group.List.Basic
import Mathlib.Algebra.Group.Prod
import Mathlib.Algebra.Ring.Int.Defs
import Mathlib.Algebra.Ring.Nat

/-!
# Totals

As long as all sizes are whole numbers, the counters hold the number of calls under each name and the sum of
their sizes. Main statements: `total_countAll`, `total_after` and `Step.total_after`.
-/

namespace JsonWriter

/-- The number of calls in a row and the bytes. -/
def Tally.total (t : Tally) : Nat × Int := (t.calls, t.bytes.whole?.getD 0)

namespace Call

/-- One call and its size. -/
def total (c : Call) : Nat × Int := (1, c.size.int?.getD 0)

/-- The number of calls under a name and the sum of their sizes. -/
def totalOf (name : Text) (calls : List Call) : Nat × Int :=
  ((calls.filter fun c => c.name = name).map total).sum

theorem totalOf_append (name : Text) (calls more : List Call) :
    totalOf name (calls ++ more) = totalOf name calls + totalOf name more := by
  rw [totalOf, List.filter_append, List.map_append, List.sum_append]
  rfl

theorem totalOf_singleton (name : Text) (c : Call) :
    totalOf name [c] = if c.name = name then c.total else 0 := by
  unfold totalOf
  by_cases h : c.name = name <;> simp [h]

theorem find?_countIn (c : Call) (rows : List Tally) (name : Text) :
    (c.countIn rows).find? (fun t => t.name = name) =
      if c.name = name then some (((rows.find? fun t => t.name = name).getD (.start name)).count c)
      else rows.find? fun t => t.name = name := by
  rw [countIn_eq]
  split
  · next h =>
    have hnames : (fun t : Tally => decide (t.name = name)) ∘
        (fun t => if t.name = c.name then t.count c else t) = fun t => decide (t.name = name) := by
      funext t
      rw [Function.comp_apply, apply_ite Tally.name, Tally.name_count, ite_self]
    rw [List.find?_map, hnames]
    cases hfound : rows.find? fun t => t.name = name with
    | none =>
      rw [if_neg]
      · rfl
      · rintro rfl
        obtain ⟨t, ht, hname⟩ := List.mem_map.mp h
        exact List.find?_eq_none.mp hfound t ht (decide_eq_true hname)
    | some t =>
      have hname : t.name = name := by simpa using List.find?_some hfound
      rw [Option.map_some, Option.getD_some, hname]
      by_cases hc : c.name = name
      · rw [if_pos hc, if_pos hc.symm]
      · rw [if_neg hc, if_neg (Ne.symm hc)]
  · next h =>
    rw [List.find?_append]
    by_cases hc : c.name = name
    · have hnone : rows.find? (fun t => t.name = name) = none := by
        refine List.find?_eq_none.mpr fun t ht hname => h (List.mem_map.mpr ⟨t, ht, ?_⟩)
        exact (of_decide_eq_true hname).trans hc.symm
      rw [if_pos hc, hnone, hc]
      simp [Tally.start]
    · simp [hc, Tally.start]

end Call

/-- The calls since the last clear, if so many came before the events. -/
def Event.sinceClear : List Call → List Event → List Call
  | calls, [] => calls
  | calls, call c :: rest => sinceClear (calls ++ [c]) rest
  | _, clear :: rest => sinceClear [] rest

namespace Profile

/-- The number of calls that are counted under a name and their bytes. -/
def total (p : Profile) (name : Text) : Nat × Int := ((p.row? name).map Tally.total).getD 0

/-- The totals are whole numbers, in rows under different names. -/
structure IsExact (p : Profile) : Prop extends p.IsSound where
  whole : p.IsWhole

theorem isExact_empty : IsExact empty := ⟨isSound_empty, nofun⟩

variable {p : Profile} (hp : p.IsExact) {c : Call} (hc : c.IsWhole)

include hp

theorem IsExact.isWhole_row? {name : Text} {t : Tally} (ht : p.row? name = some t) : t.IsWhole := by
  obtain ⟨i, -, hit⟩ := List.mem_filterMap.mp (List.mem_of_find?_eq_some ht)
  exact hp.whole i t hit

include hc

theorem IsExact.count : (p.count c).IsExact := by
  obtain ⟨p', hrecord, hp'⟩ := record_of_isWhole hp.whole c.name hc.1 hc.2
  refine ⟨hp.toIsSound.count c, ?_⟩
  rw [Profile.count, hrecord]
  exact hp'

theorem IsExact.total_count (name : Text) :
    (p.count c).total name = p.total name + if c.name = name then c.total else 0 := by
  have hrow : (p.count c).row? name = if c.name = name then
      some (((p.row? name).getD (.start name)).count c) else p.row? name := by
    rw [row?, liveRows_count hp.toIsSound, Call.find?_countIn]
    rfl
  rw [total, hrow]
  split
  · obtain ⟨k, hk⟩ := Option.isSome_iff_exists.mp hc.1
    obtain ⟨l, hl⟩ := Option.isSome_iff_exists.mp hc.2
    have hcount {t : Tally} (ht : t.IsWhole) : (t.count c).total = t.total + c.total := by
      obtain ⟨m, hm⟩ := Option.isSome_iff_exists.mp ht.nanoseconds
      obtain ⟨n, hn⟩ := Option.isSome_iff_exists.mp ht.bytes
      rw [Tally.count, Tally.record_of_whole hm hn hk hl, Tally.total, Tally.total, Call.total, hn, hl]
      rfl
    rw [Option.map_some, Option.getD_some, total]
    cases hfound : p.row? name with
    | none => exact hcount ⟨rfl, rfl⟩
    | some t => exact hcount (hp.isWhole_row? hfound)
  · rw [add_zero, total]

end Profile

namespace Profile

theorem IsExact.countAll {p : Profile} (hp : p.IsExact) {calls : List Call} (h : ∀ c ∈ calls, c.IsWhole) :
    (p.countAll calls).IsExact := by
  induction calls generalizing p with
  | nil => exact hp
  | cons c rest ih =>
    obtain ⟨hc, hrest⟩ := List.forall_mem_cons.mp h
    exact ih (hp.count hc) hrest

/-- The totals are the sums over the calls. -/
theorem IsExact.total_countAll {p : Profile} (hp : p.IsExact) {calls : List Call}
    (h : ∀ c ∈ calls, c.IsWhole) (name : Text) :
    (p.countAll calls).total name = p.total name + Call.totalOf name calls := by
  induction calls generalizing p with
  | nil => exact (add_zero _).symm
  | cons c rest ih =>
    obtain ⟨hc, hrest⟩ := List.forall_mem_cons.mp h
    have hcons : p.countAll (c :: rest) = (p.count c).countAll rest := rfl
    have hsplit : Call.totalOf name (c :: rest) = Call.totalOf name [c] + Call.totalOf name rest :=
      Call.totalOf_append name [c] rest
    rw [hcons, ih (hp.count hc) hrest, hp.total_count hc, hsplit, Call.totalOf_singleton, add_assoc]

theorem total_empty (name : Text) : empty.total name = 0 := rfl

theorem IsExact.clear {p : Profile} (hp : p.IsExact) : p.clear.IsExact := ⟨⟨nofun, nofun⟩, hp.whole⟩

/-- The totals are the sums over the calls since the last clear. -/
theorem IsExact.total_after {p : Profile} (hp : p.IsExact) {events : List Event}
    (h : ∀ c, .call c ∈ events → c.IsWhole) {name : Text} {calls : List Call}
    (hcalls : p.total name = Call.totalOf name calls) :
    (p.after events).total name = Call.totalOf name (Event.sinceClear calls events) := by
  induction events generalizing p calls with
  | nil => exact hcalls
  | cons e rest ih =>
    have hrest : ∀ c, .call c ∈ rest → c.IsWhole := fun c hc => h c (List.mem_cons_of_mem _ hc)
    cases e with
    | call c =>
      have hc : c.IsWhole := h c List.mem_cons_self
      refine ih (hp.count hc) hrest ?_
      rw [hp.total_count hc, hcalls, Call.totalOf_append, Call.totalOf_singleton]
    | clear => exact ih hp.clear hrest rfl

end Profile

namespace Step

/-- What a step counts on its own. -/
def counted (st : Step) (s : Session) : Profile := (st.run (s.holding .empty [])).2.profile

/-- The calls under a name and their bytes since the counters were last cleared, where so many were counted
before the steps. -/
def totals (name : Text) : List Step → Session → Nat × Int → Nat × Int
  | [], _, before => before
  | st :: rest, s, before =>
    totals name rest (st.run s).2
      (if st.command.isClear then 0 else before + (st.counted s).total name)

/-- The counters stay exact, and hold what the steps since the last clear count, each on its own. -/
theorem total_after {steps : List Step} (h : ∀ st ∈ steps, st.command.CountsWhole) {s : Session}
    (hs : s.profiling = true) (hexact : s.profile.IsExact) :
    (after steps s).profile.IsExact ∧
      ∀ name, (after steps s).profile.total name = totals name steps s (s.profile.total name) := by
  induction steps generalizing s with
  | nil => exact ⟨hexact, fun _ => rfl⟩
  | cons st rest ih =>
    obtain ⟨hst, hrest⟩ := List.forall_mem_cons.mp h
    rw [after_cons]
    cases hclear : st.command.isClear with
    | true =>
      have hafter := ih (s := { s with profile := s.profile.clear }) hrest hs hexact.clear
      simp only [totals, hclear, snd_run_of_isClear hclear]
      exact hafter
    | false =>
      obtain ⟨t, calls, ht, hcalls, hrun⟩ := exists_calls hclear hs
      have hwhole := hcalls hst
      have hself : (st.run s).2 = _ := hrun s.profile s.kept
      have hcounted : st.counted s = Profile.empty.countAll calls := by
        rw [counted, hrun]
        rfl
      have hafter := ih (s := t.holding (s.profile.countAll calls) (st.command.kept s.profile s.kept)) hrest
        ht (hexact.countAll hwhole)
      rw [hself]
      refine ⟨hafter.1, fun name => ?_⟩
      have htotal : (s.profile.countAll calls).total name =
          s.profile.total name + (st.counted s).total name := by
        rw [hcounted, Profile.isExact_empty.total_countAll hwhole, Profile.total_empty, zero_add,
          hexact.total_countAll hwhole]
      rw [totals, hclear, hself, if_neg Bool.false_ne_true, ← htotal]
      exact hafter.2 name

end Step

end JsonWriter
