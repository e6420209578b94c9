import JsonWriter.Proofs.Loop.Turns

/-!
# Where the loop is in a value

The open containers stand inside each other, each at a depth one further in, after a container is closed
as well as after one is opened. Main statement: `isPlaced_of_reaches`, the pending value is the entry of
the innermost open container that is next, and is visited at the depth that is further in by as many as
are open.
-/

namespace JsonWriter

open Generator (Format)

namespace Value

/-- The depth of what stands inside so many containers, for a value at a depth that is the number `d`. -/
def inside (depth : Value) (d : Int) : Nat → Value
  | 0 => depth
  | k + 1 => .int (d + (k + 1 : Nat))

theorem int?_inside {depth : Value} {d : Int} (h : depth.int? = some d) (k : Nat) :
    (depth.inside d k).int? = some (d + k) := by
  cases k with
  | zero => simpa [inside] using h
  | succ k => rfl

theorem wholeNumber?_inside {depth : Value} {d : Int} (h : depth.wholeNumber? = some d) (k : Nat) :
    (depth.inside d k).wholeNumber? = some (d + k) := by
  cases k with
  | zero => simpa [inside] using h
  | succ k => rfl

end Value

namespace Render.Loop

/-- The value inside the open containers, innermost first: each of them is an entry of the next one, after
what has been taken of that and before what is left of it. -/
inductive Stands (v : Value) : List Frame → Value → Prop
  | outermost : Stands v [] v
  | entry {u : Value} {fr : Frame} {frames : List Frame} {taken : List Entry} {e : Entry}
    (hu : Stands v frames u) (h : container? u = some (fr.shape, taken ++ e :: fr.rest)) :
    Stands v (fr :: frames) e.value

/-- The containers are open inside each other, the outermost one is that of a value at depth `d`. -/
def Stacked (v : Value) (d : Int) : List Frame → Prop
  | [] => True
  | fr :: frames =>
    fr.depth = .whole (d + (frames.length + 1 : Nat)) ∧
      (∃ u taken, Stands v frames u ∧ container? u = some (fr.shape, taken ++ fr.rest)) ∧
      Stacked v d frames

/-- The pending value stands in the value inside the open containers. -/
structure IsPlaced (v depth : Value) (d : Int) (c : Loop) : Prop where
  pending : ∀ p ∈ c.pending, p.depth = depth.inside d c.frames.length ∧ Stands v c.frames p.value
  frames : Stacked v d c.frames

section

variable {extend : Extender} {f : Format} {v depth : Value} {d : Int}

theorem IsPlaced.int?_depth (hd : depth.int? = some d) {c : Loop} (h : c.IsPlaced v depth d) {p : Visit}
    (hp : p ∈ c.pending) : p.depth.int? = some (d + c.frames.length) := by
  rw [(h.pending p hp).1]
  exact Value.int?_inside hd _

theorem isPlaced_start (v depth : Value) (d : Int) (s : Session) : (start v depth s).IsPlaced v depth d where
  pending p hp := by
    obtain rfl := Option.some.inj hp
    exact ⟨rfl, .outermost⟩
  frames := trivial

/-- A turn keeps the containers stacked and the pending value in its place. -/
theorem IsPlaced.turn (hd : depth.int? = some d) {c c' : Loop} (h : c.IsPlaced v depth d)
    (hturn : c.turn extend f = .inl c') : c'.IsPlaced v depth d := by
  cases turned_of_turn hturn with
  | @entered p shape entries fr frames w s hv he =>
    obtain ⟨hdepth, hstands⟩ := h.pending p rfl
    obtain ⟨hsucc, rfl, -, rfl⟩ := Visit.enter_eq_ok he
    rw [hdepth, Value.succ_of_int? (Value.int?_inside hd _), Except.ok.injEq] at hsucc
    refine ⟨nofun, ?_, ⟨p.value, [], hstands, hv⟩, h.frames⟩
    rw [← hsucc, Int.natCast_succ, ← Int.add_assoc]
  | leaf hv ht => exact ⟨nofun, h.frames⟩
  | closed hr hc => exact ⟨nofun, h.frames.2.2⟩
  | @advanced fr entry rest frames w parts s s' hr hl =>
    obtain ⟨hdepth, ⟨u, taken, hstands, hu⟩, hframes⟩ := h.frames
    rw [hr] at hu
    refine ⟨fun p hp => ?_, hdepth, ⟨u, taken ++ [entry], hstands, ?_⟩, hframes⟩
    · obtain rfl := Option.some.inj hp
      have hentry : Stands v (fr.advance rest :: frames) entry.value := .entry hstands hu
      refine ⟨?_, hentry⟩
      simp only [Frame.visit, hdepth, Number.value]
      rfl
    · rw [hu, List.append_assoc]
      rfl

/-- Wherever the turns have led, the pending value stands inside the open containers, and is visited at
the depth that is further in by as many as these. -/
theorem isPlaced_of_reaches (hd : depth.int? = some d) {s : Session} {c : Loop}
    (h : (start v depth s).Reaches extend f c) : c.IsPlaced v depth d :=
  h.keeps (fun _ _ hc hturn => hc.turn hd hturn) (isPlaced_start v depth d s)

end

end Render.Loop

end JsonWriter
