import JsonWriter.Proofs.Counting.Calls

/-!
# Snapshots of the counters

A snapshot shows what the counters show until these are cleared, and from then on what they showed just
before. Main statement: `snapshot_rows`.
-/

namespace JsonWriter

open Profile (empty)

/-- What a snapshot shows after any calls and clears. It always has the rows that were in use when it was
taken. Until the counters are cleared each of them is the row in use under its name. From the first clear
on each stays the row that was in use under its name just before, and the counters go on as if nothing had
been counted, in the order in which the names come first. The steps of a script come to such calls and
clears, and the snapshot that is kept is the one that was taken last. -/
theorem snapshot_rows :
    (∀ events later : List Event,
      let p := empty.after events
      let q := p.after later
      (q.rows p.snapshot).map Tally.name = p.liveRows.map Tally.name ∧
      (Event.clear ∉ later → ∀ row ∈ q.rows p.snapshot, q.row? row.name = some row) ∧
      ∀ first rest, later = first ++ .clear :: rest → Event.clear ∉ first →
        (∀ row ∈ q.rows p.snapshot, (p.after first).row? row.name = some row) ∧
        q.liveRows = (empty.after rest).liveRows) ∧
    (∀ calls : List Call,
      (empty.after (calls.map .call)).liveRows.map Tally.name = (calls.map Call.name).eraseDups) ∧
    (∀ steps : List Step, ∃ runs, List.Forall₂ Step.Does steps runs ∧ ∀ n,
      (Step.after (steps.take n) (Session.initial true)).profile = empty.after (runs.take n).flatten) ∧
    ∀ (steps : List Step) (slot : Text) (later : List Step),
      (∀ st ∈ later, st.command ≠ .keepStatistics) →
      (Step.after (steps ++ ⟨slot, .keepStatistics⟩ :: later) (Session.initial true)).kept =
        (Step.after steps (Session.initial true)).profile.snapshot := by
  refine ⟨fun events later => ?_, Profile.names_liveRows_after, fun steps => Step.exists_runs steps rfl,
    fun steps slot later h => Step.kept_after steps slot h rfl⟩
  intro p q
  have hp : p.IsSound := Profile.isSound_empty.after events
  have hholds : p.Holds p.snapshot := hp.bounded
  refine ⟨Profile.names_rows_after hholds later, fun h row hrow => Profile.row?_after hp h hrow, ?_⟩
  intro first rest hlater hfirst
  have hq : q = p.after (first ++ .clear :: rest) := by rw [← hlater]
  refine ⟨fun row hrow => ?_, ?_⟩
  · rw [hq, Profile.rows_after_clear hholds] at hrow
    exact Profile.row?_after hp hfirst hrow
  · rw [hq]
    exact Profile.liveRows_after_clear hp first rest

/-- Counts a call under a name. -/
def countStep (name : String) : Step := ⟨text "s", .count (text name) none none⟩

/-- The snapshot has the two calls of `a` that were counted before the clear, and the counters then start
with `c`. -/
theorem snapshot_rows_clearedSample :
    let call (name : String) : Event := .call ⟨text name, .int 0, .int 1⟩
    let p := empty.after [call "a", call "b"]
    let q := p.after [call "a", .clear, call "c", call "a"]
    let steps := [countStep "a"] ++
      ⟨text "s", .keepStatistics⟩ :: [⟨text "s", .clearStatistics⟩, countStep "b"]
    (q.rows p.snapshot).map Tally.name = [text "a", text "b"] ∧
      (∀ row ∈ q.rows p.snapshot, (p.after [call "a"]).row? row.name = some row) ∧
      (p.after [call "a"]).row? (text "a") = some ⟨text "a", 2, .whole 0, .whole 2⟩ ∧
      q.liveRows = [⟨text "c", 1, .whole 0, .whole 1⟩, ⟨text "a", 1, .whole 0, .whole 1⟩] ∧
      (Step.after steps (Session.initial true)).kept = [0] := by
  intro call p q steps
  obtain ⟨hevents, -, -, hkept⟩ := snapshot_rows
  obtain ⟨hnames, -, hcleared⟩ := hevents [call "a", call "b"] [call "a", .clear, call "c", call "a"]
  obtain ⟨hfrozen, hlive⟩ := hcleared [call "a"] [call "c", call "a"] rfl (by simp [call])
  refine ⟨hnames.trans rfl, hfrozen, rfl, hlive.trans rfl, ?_⟩
  have hsteps := hkept [countStep "a"] (text "s") [⟨text "s", .clearStatistics⟩, countStep "b"]
    (by simp [countStep])
  exact hsteps.trans (by with_unfolding_all rfl)

end JsonWriter
