import JsonWriter.Session.Profile
import Mathlib.Data.List.Basic
import Mathlib.Data.List.Induction

/-!
# The rows of the counters

A call is counted in the row of its name, or in a new row at the end. A snapshot shares its rows with the
counters until these are cleared, and from then on its rows stay as they are. Main statements:
`liveRows_after` and `rows_after_clear`.
-/

namespace JsonWriter

/-- A call that is counted: its name, how long it took, and the size of what it worked on. -/
structure Call where
  name : Text
  duration : Value
  size : Value

/-! ## Rows -/

namespace Tally

@[simp] theorem name_record (t : Tally) (duration size : Value) :
    (t.record duration size).2.name = t.name := by
  simp only [record]
  split
  · rfl
  · split
    · rfl
    · rfl

/-- The row with one more call. -/
def count (t : Tally) (c : Call) : Tally := (t.record c.duration c.size).2

@[simp] theorem name_count (t : Tally) (c : Call) : (t.count c).name = t.name := t.name_record _ _

end Tally

/-- The rows with one more call, in the row of its name or in a new one at the end. -/
def Call.countIn (c : Call) (rows : List Tally) : List Tally :=
  if rows.any fun t => t.name = c.name then rows.map fun t => if t.name = c.name then t.count c else t
  else rows ++ [(Tally.start c.name).count c]

theorem Call.countIn_eq (c : Call) (rows : List Tally) :
    c.countIn rows = if c.name ∈ rows.map Tally.name then
        rows.map fun t => if t.name = c.name then t.count c else t
      else rows ++ [(Tally.start c.name).count c] := by
  have hany : (rows.any fun t => t.name = c.name) = true ↔ c.name ∈ rows.map Tally.name := by simp
  simp only [countIn, hany]

theorem Call.names_countIn (c : Call) (rows : List Tally) :
    (c.countIn rows).map Tally.name = if c.name ∈ rows.map Tally.name then rows.map Tally.name
      else rows.map Tally.name ++ [c.name] := by
  rw [countIn_eq]
  split
  · rw [List.map_map]
    refine List.map_congr_left fun t _ => ?_
    rw [Function.comp_apply, apply_ite Tally.name, Tally.name_count, ite_self]
  · rw [List.map_append, List.map_singleton, Tally.name_count]
    rfl

/-- The rows are in the order in which the calls first have their names. -/
theorem names_foldl_countIn (calls : List Call) :
    (calls.foldl (fun rows c => c.countIn rows) []).map Tally.name = (calls.map Call.name).eraseDups := by
  induction calls using List.reverseRecOn with
  | nil => rfl
  | append_singleton calls c ih =>
    rw [List.foldl_append, List.foldl_cons, List.foldl_nil, Call.names_countIn, ih, List.map_append,
      List.map_singleton, List.eraseDups_append, List.removeAll, List.filter_cons, List.filter_nil,
      List.elem_eq_mem]
    by_cases h : c.name ∈ calls.map Call.name
    · rw [if_pos (List.mem_eraseDups.mpr h), decide_eq_true h]
      exact (List.append_nil _).symm
    · rw [if_neg (List.mem_eraseDups.not.mpr h), decide_eq_false h]
      rfl

/-! ## Profiles -/

/-- What happens to the counters. -/
inductive Event
  | call (c : Call)
  | clear

/-- What an event makes of the rows in use. -/
def Event.onRows (rows : List Tally) : Event → List Tally
  | call c => c.countIn rows
  | clear => []

namespace Profile

/-- The rows that are in use. -/
def liveRows (p : Profile) : List Tally := p.rows p.live

/-- The counters after one more call. -/
def count (p : Profile) (c : Call) : Profile := (p.record c.name c.duration c.size).2

/-- The rows that are in use are there, each under a name of its own. -/
structure IsSound (p : Profile) : Prop where
  bounded : ∀ i ∈ p.live, i < p.tallies.size
  named : ∀ i ∈ p.live, ∀ j ∈ p.live, ∀ t u, p.tallies[i]? = some t → p.tallies[j]? = some u →
    t.name = u.name → i = j

theorem isSound_empty : IsSound empty := ⟨nofun, nofun⟩

/-- A call is counted in a row in use that has its name, or there is no such row, and in a new one. -/
inductive Counted (p : Profile) (c : Call) : Profile → Prop
  | old {i : Nat} {t : Tally} (hi : i ∈ p.live) (ht : p.tallies[i]? = some t) (hname : t.name = c.name) :
    Counted p c { p with tallies := p.tallies.setIfInBounds i (t.count c) }
  | new (hnone : ∀ i ∈ p.live, ∀ t, p.tallies[i]? = some t → t.name ≠ c.name) :
    Counted p c ⟨p.tallies.push ((Tally.start c.name).count c), p.live ++ [p.tallies.size]⟩

theorem counted_count (p : Profile) (c : Call) : p.Counted c (p.count c) := by
  unfold count record
  cases hnumber : p.number? c.name with
  | some i =>
    obtain ⟨hi, hname⟩ := And.intro (List.mem_of_find?_eq_some hnumber) (List.find?_some hnumber)
    obtain ⟨t, ht, hname⟩ := (Option.any_eq_true _ _).mp hname
    simp only [ht, Option.getD_some]
    exact .old hi ht (by simpa using hname)
  | none =>
    refine .new fun i hi t ht hname => ?_
    have hnone := List.find?_eq_none.mp hnumber i hi
    exact hnone ((Option.any_eq_true _ _).mpr ⟨t, ht, by simpa using hname⟩)

section

variable {p : Profile}

theorem getElem?_set {i : Nat} {t : Tally} (ht : p.tallies[i]? = some t) (u : Tally) (j : Nat) :
    (p.tallies.setIfInBounds i u)[j]? = if j = i then some u else p.tallies[j]? := by
  have hi : i < p.tallies.size := (Array.getElem?_eq_some_iff.mp ht).1
  rw [Array.getElem?_setIfInBounds, if_pos hi]
  by_cases h : i = j
  · rw [if_pos h, if_pos h.symm]
  · rw [if_neg h, if_neg fun h' => h h'.symm]

theorem getElem?_push (t : Tally) (j : Nat) :
    (p.tallies.push t)[j]? = if j = p.tallies.size then some t else p.tallies[j]? := Array.getElem?_push

/-- Counting leaves the name of every row. -/
theorem name_getElem?_count (c : Call) {j : Nat} (hj : j < p.tallies.size) :
    ((p.count c).tallies[j]?).map Tally.name = (p.tallies[j]?).map Tally.name := by
  have hcount := p.counted_count c
  generalize p.count c = q at hcount
  cases hcount with
  | @old i t hi ht hname =>
    rw [getElem?_set ht]
    split
    · next h => rw [h, ht, Option.map_some, Option.map_some, Tally.name_count]
    · rfl
  | new => rw [getElem?_push, if_neg (Nat.ne_of_lt hj)]

theorem size_count (p : Profile) (c : Call) : p.tallies.size ≤ (p.count c).tallies.size := by
  have hcount := p.counted_count c
  generalize p.count c = q at hcount
  cases hcount with
  | old => exact Nat.le_of_eq (Array.size_setIfInBounds ..).symm
  | new =>
    rw [Array.size_push]
    exact Nat.le_succ _

theorem IsSound.count (hp : p.IsSound) (c : Call) : (p.count c).IsSound := by
  have hname {j : Nat} (hj : j ∈ p.live) {u : Tally} (hu : (p.count c).tallies[j]? = some u) :
      ∃ t, p.tallies[j]? = some t ∧ t.name = u.name := by
    have h := name_getElem?_count c (hp.bounded j hj)
    rw [hu] at h
    exact Option.map_eq_some_iff.mp h.symm
  have hsize := p.size_count c
  have hcount := p.counted_count c
  generalize p.count c = q at hname hsize hcount
  cases hcount with
  | old =>
    refine ⟨fun j hj => Nat.lt_of_lt_of_le (hp.bounded j hj) hsize, fun j hj k hk u v hu hv huv => ?_⟩
    obtain ⟨t, ht, htu⟩ := hname hj hu
    obtain ⟨t', ht', htv⟩ := hname hk hv
    exact hp.named j hj k hk t t' ht ht' (htu.trans (huv.trans htv.symm))
  | new hnone =>
    have hlast {u : Tally} (hu : (p.tallies.push ((Tally.start c.name).count c))[p.tallies.size]? = some u) :
        u.name = c.name := by
      rw [getElem?_push, if_pos rfl] at hu
      rw [← Option.some.inj hu, Tally.name_count]
      rfl
    have hother {j : Nat} (hj : j ∈ p.live) {u : Tally}
        (hu : (p.tallies.push ((Tally.start c.name).count c))[j]? = some u) : u.name ≠ c.name := by
      obtain ⟨t, ht, htu⟩ := hname hj hu
      exact htu ▸ hnone j hj t ht
    refine ⟨fun j hj => ?_, fun j hj k hk u v hu hv huv => ?_⟩
    · rw [Array.size_push]
      obtain hj | hj := List.mem_append.mp hj
      · exact Nat.lt_succ_of_lt (hp.bounded j hj)
      · rw [List.mem_singleton.mp hj]
        exact Nat.lt_succ_self _
    · rw [List.mem_append, List.mem_singleton] at hj hk
      obtain hj | rfl := hj
      · obtain hk | rfl := hk
        · obtain ⟨t, ht, htu⟩ := hname hj hu
          obtain ⟨t', ht', htv⟩ := hname hk hv
          exact hp.named j hj k hk t t' ht ht' (htu.trans (huv.trans htv.symm))
        · exact absurd (huv.trans (hlast hv)) (hother hj hu)
      · obtain hk | rfl := hk
        · exact absurd (huv.symm.trans (hlast hu)) (hother hk hv)
        · rfl

/-- The rows in use are those before with the call counted in them. -/
theorem liveRows_count (hp : p.IsSound) (c : Call) : (p.count c).liveRows = c.countIn p.liveRows := by
  unfold liveRows rows
  have hcount := p.counted_count c
  generalize p.count c = q at hcount
  cases hcount with
  | @old i t hi ht hname =>
    have hmem : c.name ∈ (p.live.filterMap fun i => p.tallies[i]?).map Tally.name :=
      List.mem_map.mpr ⟨t, List.mem_filterMap.mpr ⟨i, hi, ht⟩, hname⟩
    rw [Call.countIn_eq, if_pos hmem, List.map_filterMap]
    refine List.filterMap_congr fun j hj => ?_
    rw [getElem?_set ht]
    split
    · next h => rw [h, ht, Option.map_some, if_pos hname]
    · next h =>
      cases hu : p.tallies[j]? with
      | none => rfl
      | some u =>
        have hother : u.name ≠ c.name := fun hname' =>
          h (hp.named j hj i hi u t hu ht (hname'.trans hname.symm))
        rw [Option.map_some, if_neg hother]
  | new hnone =>
    have hmem : c.name ∉ (p.live.filterMap fun i => p.tallies[i]?).map Tally.name := by
      intro h
      obtain ⟨t, ht, hname⟩ := List.mem_map.mp h
      obtain ⟨i, hi, ht⟩ := List.mem_filterMap.mp ht
      exact hnone i hi t ht hname
    rw [Call.countIn_eq, if_neg hmem, List.filterMap_append]
    refine congrArg₂ _ (List.filterMap_congr fun j hj => ?_) ?_
    · rw [getElem?_push, if_neg (Nat.ne_of_lt (hp.bounded j hj))]
    · simp only [List.filterMap_cons, getElem?_push, if_pos, List.filterMap_nil]

/-- The row in use under a name. -/
def row? (p : Profile) (name : Text) : Option Tally := p.liveRows.find? fun t => t.name = name

theorem IsSound.row?_eq_some (hp : p.IsSound) {t : Tally} (ht : t ∈ p.liveRows) :
    p.row? t.name = some t := by
  have hsome : (p.row? t.name).isSome := List.find?_isSome.mpr ⟨t, ht, decide_eq_true rfl⟩
  obtain ⟨u, hu⟩ := Option.isSome_iff_exists.mp hsome
  have hname : u.name = t.name := by simpa using List.find?_some hu
  obtain ⟨i, hi, hit⟩ := List.mem_filterMap.mp ht
  obtain ⟨j, hj, hju⟩ := List.mem_filterMap.mp (List.mem_of_find?_eq_some hu)
  obtain rfl := hp.named j hj i hi u t hju hit hname
  rw [hu, ← hju, hit]

end

/-! ## Events -/

/-- What an event makes of the counters. -/
def apply (p : Profile) : Event → Profile
  | .call c => p.count c
  | .clear => p.clear

/-- The counters after some events. -/
def after (p : Profile) (events : List Event) : Profile := events.foldl apply p

@[simp] theorem after_nil (p : Profile) : p.after [] = p := rfl

@[simp] theorem after_cons (p : Profile) (e : Event) (rest : List Event) :
    p.after (e :: rest) = (p.apply e).after rest := rfl

theorem after_append (p : Profile) (events later : List Event) :
    p.after (events ++ later) = (p.after events).after later := List.foldl_append

theorem IsSound.apply {p : Profile} (hp : p.IsSound) (e : Event) : (p.apply e).IsSound := by
  cases e with
  | call c => exact hp.count c
  | clear => exact ⟨nofun, nofun⟩

theorem IsSound.after {p : Profile} (hp : p.IsSound) (events : List Event) : (p.after events).IsSound := by
  induction events generalizing p with
  | nil => exact hp
  | cons e rest ih => exact ih (hp.apply e)

/-- The rows in use are what the events make of those before, whatever rows there are besides. -/
theorem liveRows_after {p : Profile} (hp : p.IsSound) (events : List Event) :
    (p.after events).liveRows = events.foldl Event.onRows p.liveRows := by
  induction events generalizing p with
  | nil => rfl
  | cons e rest ih =>
    have happly : (p.apply e).liveRows = Event.onRows p.liveRows e := by
      cases e with
      | call c => exact liveRows_count hp c
      | clear => rfl
    rw [after_cons, ih (hp.apply e), happly, List.foldl_cons]

/-- Once the counters are cleared they go on as if nothing had been counted. -/
theorem liveRows_after_clear {p : Profile} (hp : p.IsSound) (events later : List Event) :
    (p.after (events ++ .clear :: later)).liveRows = (empty.after later).liveRows := by
  rw [liveRows_after hp, liveRows_after isSound_empty, List.foldl_append, List.foldl_cons]
  rfl

/-- Without a clear the rows are in the order in which the calls first have their names. -/
theorem names_liveRows_after (calls : List Call) :
    ((empty.after (calls.map .call)).liveRows).map Tally.name = (calls.map Call.name).eraseDups := by
  rw [liveRows_after isSound_empty, List.foldl_map]
  exact names_foldl_countIn calls

/-! ## Snapshots -/

/-- The rows of the snapshot are there. -/
def Holds (p : Profile) (snap : Snapshot) : Prop := ∀ i ∈ snap, i < p.tallies.size

section

variable {p : Profile} {snap : Snapshot}

theorem size_apply (p : Profile) (e : Event) : p.tallies.size ≤ (p.apply e).tallies.size := by
  cases e with
  | call c => exact p.size_count c
  | clear => exact Nat.le_refl _

theorem Holds.apply (h : p.Holds snap) (e : Event) : (p.apply e).Holds snap :=
  fun i hi => Nat.lt_of_lt_of_le (h i hi) (p.size_apply e)

theorem Holds.after (h : p.Holds snap) (events : List Event) : (p.after events).Holds snap := by
  induction events generalizing p with
  | nil => exact h
  | cons e rest ih => exact ih (h.apply e)

/-- The rows of a snapshot keep their names. -/
theorem names_rows_after (h : p.Holds snap) (events : List Event) :
    ((p.after events).rows snap).map Tally.name = (p.rows snap).map Tally.name := by
  induction events generalizing p with
  | nil => rfl
  | cons e rest ih =>
    rw [after_cons, ih (h.apply e), rows, rows, List.map_filterMap, List.map_filterMap]
    refine List.filterMap_congr fun i hi => ?_
    cases e with
    | call c => exact name_getElem?_count c (h i hi)
    | clear => rfl

/-- Until the counters are cleared the rows in use stay in use. -/
theorem exists_live_after {events : List Event} (h : Event.clear ∉ events) :
    ∃ more, (p.after events).live = p.live ++ more := by
  induction events generalizing p with
  | nil => exact ⟨[], (List.append_nil _).symm⟩
  | cons e rest ih =>
    rw [List.mem_cons, not_or] at h
    obtain ⟨more, hmore⟩ := ih (p := p.apply e) h.2
    cases e with
    | clear => exact absurd rfl h.1
    | call c =>
      have hlive : ∃ new, (p.count c).live = p.live ++ new := by
        have hcount := p.counted_count c
        generalize p.count c = q at hcount
        cases hcount with
        | old => exact ⟨[], (List.append_nil _).symm⟩
        | new => exact ⟨[p.tallies.size], rfl⟩
      obtain ⟨new, hnew⟩ := hlive
      refine ⟨new ++ more, hmore.trans ?_⟩
      rw [apply, hnew, List.append_assoc]

/-- Until the counters are cleared each row of a snapshot is the row in use under its name. -/
theorem row?_after (hp : p.IsSound) {events : List Event} (h : Event.clear ∉ events) {t : Tally}
    (ht : t ∈ (p.after events).rows p.live) : (p.after events).row? t.name = some t := by
  obtain ⟨more, hmore⟩ := exists_live_after (p := p) h
  refine (hp.after events).row?_eq_some ?_
  rw [liveRows, hmore, rows, List.filterMap_append]
  exact List.mem_append_left _ ht

/-- Rows that are not in use are never written. -/
theorem rows_after_of_unused (h : p.Holds snap) (hunused : ∀ i ∈ snap, i ∉ p.live) (events : List Event) :
    (p.after events).rows snap = p.rows snap := by
  induction events generalizing p with
  | nil => rfl
  | cons e rest ih =>
    cases e with
    | clear => exact ih (p := p.clear) h nofun
    | call c =>
      have hcount := p.counted_count c
      have hholds : (p.count c).Holds snap := h.apply (.call c)
      rw [after_cons, Profile.apply]
      generalize p.count c = q at hcount hholds
      cases hcount with
      | @old i t hi ht hname =>
        rw [ih hholds hunused]
        refine List.filterMap_congr fun j hj => ?_
        rw [getElem?_set ht, if_neg]
        rintro rfl
        exact hunused j hj hi
      | new hnone =>
        have hne (j : Nat) (hj : j ∈ snap) : j ≠ p.tallies.size := Nat.ne_of_lt (h j hj)
        rw [ih hholds fun j hj => by simp [hunused j hj, hne j hj]]
        refine List.filterMap_congr fun j hj => ?_
        rw [getElem?_push, if_neg (hne j hj)]

/-- Once the counters are cleared the rows of a snapshot stay what they were just before. -/
theorem rows_after_clear (h : p.Holds snap) (events later : List Event) :
    (p.after (events ++ .clear :: later)).rows snap = (p.after events).rows snap := by
  rw [after_append, after_cons]
  exact rows_after_of_unused (p := (p.after events).clear) (h.after events) nofun later

end

end Profile

end JsonWriter
