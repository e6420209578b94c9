import JsonWriter.Render.Machine

/-!
The writer as a plain recursion on the value. Main statement: `parts_eq_print`, the loop over open
containers comes to the same parts or fault and to the same session.
-/

namespace JsonWriter.Render

open Generator (Format)

mutual

/-- The parts of a value at a depth: a container is checked, opened, filled and closed. -/
def print (extend : Extender) (f : Format) (p : Visit) : Action (List Part) :=
  match _hv : container? p.value with
  | none => do return [.text (← leaf extend f p.value p.depth)]
  | some (shape, entries) =>
    match _he : enter f p.value shape entries p.depth p.room with
    | .error e => Action.fail e
    | .ok fr => do return opening fr :: (← printFrame extend f fr)
termination_by steps p.room p.value
decreasing_by
  rw [steps_of_enter _hv _he]
  omega

/-- The rest of an open container: its entries in order, each key before its value, and its end. -/
def printFrame (extend : Extender) (f : Format) (fr : Frame) : Action (List Part) :=
  match _hr : fr.rest with
  | [] => Action.ofExcept (closing f fr)
  | entry :: rest => do
    let before ← lead f fr entry.key?
    let parts ← print extend f (fr.visit entry)
    return before ++ parts ++ (← printFrame extend f (fr.advance rest))
termination_by fr.steps
decreasing_by
  all_goals simp only [Frame.steps, Frame.visit, Frame.advance, _hr, total_cons]; omega

end

section

variable {extend : Extender} {f : Format} {p : Visit} {shape : Shape} {entries : List Entry}
  {fr : Frame}

theorem print_refused {e : Fault} (hv : container? p.value = some (shape, entries))
    (he : enter f p.value shape entries p.depth p.room = .error e) :
    print extend f p = Action.fail e := by
  rw [print.eq_def]
  split
  · simp_all
  · split <;> simp_all

theorem print_entered (hv : container? p.value = some (shape, entries))
    (he : enter f p.value shape entries p.depth p.room = .ok fr) :
    print extend f p = do return opening fr :: (← printFrame extend f fr) := by
  rw [print.eq_def]
  split
  · simp_all
  · split <;> simp_all

theorem print_leaf (hv : container? p.value = none) :
    print extend f p = do return [.text (← leaf extend f p.value p.depth)] := by
  rw [print.eq_def]
  split <;> simp_all

theorem printFrame_closed (hr : fr.rest = []) :
    printFrame extend f fr = Action.ofExcept (closing f fr) := by
  rw [printFrame.eq_def]
  split <;> simp_all

theorem printFrame_entry {entry : Entry} {rest : List Entry} (hr : fr.rest = entry :: rest) :
    printFrame extend f fr = do
      let before ← lead f fr entry.key?
      let parts ← print extend f (fr.visit entry)
      return before ++ parts ++ (← printFrame extend f (fr.advance rest)) := by
  rw [printFrame.eq_def]
  split
  · simp_all
  · rename_i h
    obtain ⟨rfl, rfl⟩ : _ ∧ _ := by simpa using hr.symm.trans h
    rfl

end

/-! ## The loop computes it -/

mutual

theorem run_value (extend : Extender) (f : Format) (p : Visit) (frames : List Frame)
    (w : List Part) (s : Session) :
    run extend f (some p) frames w s =
      Action.resume (print extend f p s) fun parts s =>
        run extend f none frames (parts.reverse ++ w) s := by
  match hv : container? p.value with
  | none =>
    rw [run_leaf extend f _ _ _ hv, print_leaf hv, Action.bind_apply]
    obtain ⟨_ | t, s⟩ := leaf extend f p.value p.depth s <;> rfl
  | some (shape, entries) =>
    match he : enter f p.value shape entries p.depth p.room with
    | .error e =>
      rw [run_refused extend f _ _ _ hv he, print_refused hv he, Action.fail, Action.resume_error]
    | .ok fr =>
      rw [run_entered extend f _ _ _ hv he, print_entered hv he, run_frame, Action.bind_apply]
      obtain ⟨_ | t, s⟩ := printFrame extend f fr s
      · rfl
      · simp [Action.pure_apply]
termination_by steps p.room p.value
decreasing_by
  rw [steps_of_enter hv he]
  omega

theorem run_frame (extend : Extender) (f : Format) (fr : Frame) (frames : List Frame)
    (w : List Part) (s : Session) :
    run extend f none (fr :: frames) w s =
      Action.resume (printFrame extend f fr s) fun parts s =>
        run extend f none frames (parts.reverse ++ w) s := by
  match hr : fr.rest with
  | [] => rw [run_closed extend f _ _ _ hr, printFrame_closed hr, Action.ofExcept]
  | entry :: rest =>
    rw [run_entry extend f _ _ _ hr, printFrame_entry hr, Action.bind_apply]
    obtain ⟨_ | before, s⟩ := lead f fr entry.key? s
    · rfl
    · simp only [Action.resume_ok, Action.bind_apply]
      rw [run_value]
      obtain ⟨_ | parts, s⟩ := print extend f (fr.visit entry) s
      · rfl
      · simp only [Action.resume_ok]
        rw [run_frame]
        obtain ⟨_ | more, s⟩ := printFrame extend f (fr.advance rest) s
        · rfl
        · simp [Action.pure_apply]
termination_by fr.steps
decreasing_by
  all_goals simp only [Frame.steps, Frame.visit, Frame.advance, hr, total_cons]; omega

end

/-- The loop and the recursion agree on the outcome and on every effect. -/
theorem parts_eq_print (extend : Extender) (f : Format) (v depth : Value) :
    parts extend f v depth = print extend f ⟨v, depth, roomFor f depth⟩ := by
  funext s
  rw [parts, run_value]
  obtain ⟨_ | ps, s⟩ := print extend f ⟨v, depth, roomFor f depth⟩ s
  · rfl
  · simp [run_done]

end JsonWriter.Render
