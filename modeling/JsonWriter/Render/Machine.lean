import JsonWriter.Render.Part
import JsonWriter.Render.Token

/-!
The writer: a loop over a stack of open containers, so that no depth of nesting exhausts anything
but memory. Objects that write themselves are left to the caller.
-/

namespace JsonWriter.Render

open Generator (Format)

/-- What an object that writes itself, at that depth, comes to. -/
abbrev Extender := Extension Value → Value → Action Text

/-- The two kinds of container. -/
inductive Shape
  | array
  | object
deriving DecidableEq

namespace Shape

def opening : Shape → CodePoint
  | array => .ofChar '['
  | object => .ofChar '\x7b'

def closing : Shape → CodePoint
  | array => .ofChar ']'
  | object => .ofChar '\x7d'

def newline (f : Format) : Shape → Except Fault Text
  | array => f.arrayNewline
  | object => f.objectNewline

end Shape

/-- A value in a container, under a key if that is an object. -/
structure Entry where
  key? : Option Value
  value : Value

/-- An open container: the text that starts its lines, the depth its entries are at, how many more
containers that hold themselves may open in it, the entries still to come, and whether none has been
written. -/
structure Frame where
  shape : Shape
  newline : Text
  depth : Number
  room : Nat
  rest : List Entry
  first : Bool

/-- A container one level deep, none for a scalar. -/
def container? (v : Value) : Option (Shape × List Entry) :=
  match v.node with
  | .array items => some (.array, items.map fun v => ⟨none, v⟩)
  | .object entries => some (.object, entries.map fun e => ⟨some e.1, e.2⟩)
  | _ => none

/-- The value is a container that holds itself. -/
def isCyclic (v : Value) : Bool :=
  match v.content with
  | .selfList _ | .selfDictionary _ => true
  | _ => false

/-- The text of a value that is no container. -/
def leaf (extend : Extender) (f : Format) (v : Value) (depth : Value) : Action Text :=
  match v.node with
  | .null => return text "null"
  | .bool b => return text (if b then "true" else "false")
  | .str t => quoted f.asciiOnly t (shownText v t)
  | .int n => number n
  | .float x => float f x
  | .extension e => extend e depth
  | _ => do
    let t ← Action.shown v
    quoted f.asciiOnly t (shownText v t)

/-- The room that is left inside a value: one that holds itself takes some. -/
def roomWithin (v : Value) (room : Nat) : Except Fault Nat :=
  if isCyclic v then
    match room with
    | 0 => .error .endless
    | room + 1 => .ok room
  else .ok room

/-- Opens a container at a depth, unless that is too deep or a setting does not allow it. -/
def enter (f : Format) (v : Value) (shape : Shape) (entries : List Entry) (depth : Value)
    (room : Nat) : Except Fault Frame := do
  Generator.checkNesting f.maxNesting depth
  let newline ← shape.newline f
  let depth ← depth.succ
  let room ← roomWithin v room
  return ⟨shape, newline, depth, room, entries, true⟩

/-- The indentation at a depth, if the container takes new lines. -/
def margin (f : Format) (newline : Text) (depth : Number) : Except Fault (List Part) :=
  if newline.isEmpty then .ok [] else (f.indent.times depth).map fun v => [.ofValue v]

def opening (fr : Frame) : Part := .text (fr.shape.opening :: fr.newline)

/-- What comes before an entry. -/
def separator (f : Format) (fr : Frame) : Except Fault (List Part) :=
  (margin f fr.newline fr.depth).map fun margin =>
    if fr.first then margin else .text (.ofChar ',' :: fr.newline) :: margin

/-- A key and what comes between it and its value. -/
def member (f : Format) (key : Value) : Action (List Part) := do
  let label ← label f key
  let colon ← Action.ofExcept f.colon
  return [.text label, .text colon]

/-- What comes before the value of an entry. -/
def lead (f : Format) (fr : Frame) (key? : Option Value) : Action (List Part) := do
  let before ← Action.ofExcept (separator f fr)
  match key? with
  | none => return before
  | some key => return before ++ (← member f key)

def closing (f : Format) (fr : Frame) : Except Fault (List Part) :=
  (margin f fr.newline fr.depth.pred).map fun margin =>
    .text fr.newline :: margin ++ [.text [fr.shape.closing]]

/-- The frame after its next entry. -/
def Frame.advance (fr : Frame) (rest : List Entry) : Frame := { fr with rest, first := false }

/-- More than the containers that can open in each other under a limit, if there is one. -/
def roomFor (f : Format) (depth : Value) : Nat :=
  match f.maxNesting.number?.bind (·.floor?), depth.number?.bind (·.floor?) with
  | some limit, some depth => (2 * (limit - depth + 1)).toNat + 1
  | _, _ => 1

/-! ## The number of steps

One to visit a value, one to take an entry, one to close a container. -/

/-- The sum of a measure over a list. -/
def total {α : Type} (measure : α → Nat) : List α → Nat
  | [] => 0
  | a :: rest => measure a + total measure rest

@[simp] theorem total_nil {α : Type} (measure : α → Nat) : total measure [] = 0 := rfl

@[simp] theorem total_cons {α : Type} (measure : α → Nat) (a : α) (rest : List α) :
    total measure (a :: rest) = measure a + total measure rest := rfl

theorem total_map {α β : Type} (measure : β → Nat) (g : α → β) (as : List α) :
    total measure (as.map g) = total (fun a => measure (g a)) as := by
  induction as with
  | nil => rfl
  | cons a as ih => simp [ih]

mutual

/-- The steps for a value, given those for the values in it that hold themselves. -/
def sizeWith (cyclic : Value → Nat) : Value → Nat
  | .sequence _ items => 2 + sizeItems cyclic items
  | .mapping _ entries => 2 + sizeEntries cyclic entries
  | .binary _ data => 7 + 2 * data.length
  | .selfList items => cyclic (.selfList items)
  | .selfDictionary entries => cyclic (.selfDictionary entries)
  | .derived base => sizeWith cyclic base
  | .own _ v => sizeWith cyclic v
  | _ => 1
termination_by structural v => v

def sizeItems (cyclic : Value → Nat) : List Value → Nat
  | [] => 0
  | v :: rest => 1 + sizeWith cyclic v + sizeItems cyclic rest
termination_by structural vs => vs

def sizeEntries (cyclic : Value → Nat) : List (Value × Value) → Nat
  | [] => 0
  | (_, v) :: rest => 1 + sizeWith cyclic v + sizeEntries cyclic rest
termination_by structural es => es

end

/-- The steps for a value with so much room. -/
def steps : Nat → Value → Nat
  | 0 => sizeWith fun _ => 1
  | room + 1 => sizeWith fun v =>
    match container? v with
    | some (_, entries) => 2 + total (fun e => 1 + steps room e.value) entries
    | none => 1

def Frame.steps (fr : Frame) : Nat := 1 + total (fun e => 1 + Render.steps fr.room e.value) fr.rest

theorem sizeItems_eq (cyclic : Value → Nat) (vs : List Value) :
    sizeItems cyclic vs = total (fun v => 1 + sizeWith cyclic v) vs := by
  induction vs with
  | nil => rfl
  | cons v vs ih => simp [sizeItems, ih]

theorem sizeEntries_eq (cyclic : Value → Nat) (es : List (Value × Value)) :
    sizeEntries cyclic es = total (fun e => 1 + sizeWith cyclic e.2) es := by
  induction es with
  | nil => rfl
  | cons e es ih => simp [sizeEntries, ih]

theorem sizeItems_bytes (cyclic : Value → Nat) (data : List UInt8) :
    sizeItems cyclic (data.map fun b => .int b.toNat) = 2 * data.length := by
  induction data with
  | nil => rfl
  | cons b data ih => simp only [List.map_cons, sizeItems, sizeWith, ih, List.length_cons]; omega

/-- A container that does not hold itself takes the steps of its entries. -/
theorem sizeWith_of_container (cyclic : Value → Nat) :
    (v : Value) → {shape : Shape} → {entries : List Entry} →
    container? v = some (shape, entries) → isCyclic v = false →
    sizeWith cyclic v = 2 + total (fun e => 1 + sizeWith cyclic e.value) entries
  | .derived base, _, _, h, hc => sizeWith_of_container cyclic base h hc
  | .own _ v, _, _, h, hc => sizeWith_of_container cyclic v h hc
  | .sequence _ items, _, _, h, _ => by
    simp only [container?, Value.node, Option.some.injEq, Prod.mk.injEq] at h
    obtain ⟨_, rfl⟩ := h
    simp [sizeWith, sizeItems_eq, total_map]
  | .mapping _ entries, _, _, h, _ => by
    simp only [container?, Value.node, Option.some.injEq, Prod.mk.injEq] at h
    obtain ⟨_, rfl⟩ := h
    simp [sizeWith, sizeEntries_eq, total_map]
  | .binary kind data, _, _, h, _ => by
    simp only [container?, Value.node, Option.some.injEq, Prod.mk.injEq] at h
    obtain ⟨_, rfl⟩ := h
    simp [sizeWith, Value.rawEntries, Value.list, sizeItems_bytes]
    omega
  | .selfList _, _, _, _, hc => by simp [isCyclic, Value.content] at hc
  | .selfDictionary _, _, _, _, hc => by simp [isCyclic, Value.content] at hc
  | .null, _, _, h, _ => by simp [container?, Value.node] at h
  | .bool _, _, _, h, _ => by simp [container?, Value.node] at h
  | .int _, _, _, h, _ => by simp [container?, Value.node] at h
  | .float _, _, _, h, _ => by simp [container?, Value.node] at h
  | .str _, _, _, h, _ => by simp [container?, Value.node] at h
  | .setting _, _, _, h, _ => by simp [container?, Value.node] at h
  | .memory _, _, _, h, _ => by simp [container?, Value.node] at h
  | .outer _, _, _, h, _ => by simp [container?, Value.node] at h
  | .object _, _, _, h, _ => by simp [container?, Value.node] at h
  | .type _, _, _, h, _ => by simp [container?, Value.node] at h
  | .extension _, _, _, h, _ => by simp [container?, Value.node] at h
  | .generator _, _, _, h, _ => by simp [container?, Value.node] at h
  | .described _, _, _, h, _ => by simp [container?, Value.node] at h

/-- A value that holds itself takes the steps of its plain content. -/
theorem sizeWith_of_cyclic (cyclic : Value → Nat) : (v : Value) → isCyclic v = true →
    ∃ w, sizeWith cyclic v = cyclic w ∧ container? w = container? v
  | .derived base, h => sizeWith_of_cyclic cyclic base h
  | .own _ v, h => sizeWith_of_cyclic cyclic v h
  | .selfList items, _ => ⟨.selfList items, rfl, rfl⟩
  | .selfDictionary entries, _ => ⟨.selfDictionary entries, rfl, rfl⟩
  | .sequence _ _, h | .mapping _ _, h | .binary _ _, h | .null, h | .bool _, h | .int _, h
  | .float _, h | .str _, h | .setting _, h | .memory _, h | .outer _, h | .object _, h
  | .type _, h | .extension _, h | .generator _, h | .described _, h => by
    simp [isCyclic, Value.content] at h

/-- What a frame holds when it has opened. -/
theorem enter_eq_ok {f : Format} {v : Value} {shape : Shape} {entries : List Entry} {depth : Value}
    {room : Nat} {fr : Frame} (h : enter f v shape entries depth room = .ok fr) :
    roomWithin v room = .ok fr.room ∧ fr.rest = entries := by
  simp only [enter, bind, Except.bind, pure, Except.pure] at h
  split at h
  · simp at h
  · split at h
    · simp at h
    · split at h
      · simp at h
      · split at h
        · simp at h
        · next hr =>
          simp only [Except.ok.injEq] at h
          subst h
          exact ⟨hr, rfl⟩

/-- Entering a container takes one of its steps. -/
theorem steps_of_enter {f : Format} {v : Value} {shape : Shape} {entries : List Entry}
    {depth : Value} {room : Nat} {fr : Frame} (hv : container? v = some (shape, entries))
    (he : enter f v shape entries depth room = .ok fr) : steps room v = 1 + fr.steps := by
  obtain ⟨hr, hrest⟩ := enter_eq_ok he
  simp only [roomWithin] at hr
  split at hr
  · next hc =>
    cases room with
    | zero => simp at hr
    | succ room =>
      simp only [Except.ok.injEq] at hr
      obtain ⟨w, hw, hcw⟩ := sizeWith_of_cyclic _ v hc
      rw [steps, hw, hcw, hv]
      simp only [Frame.steps, hrest, hr]
      omega
  · next hc =>
    simp only [Except.ok.injEq] at hr
    have h (cyclic : Value → Nat) := sizeWith_of_container cyclic v hv (by simpa using hc)
    have : steps room v = 2 + total (fun e => 1 + steps room e.value) entries := by
      cases room <;> exact h _
    rw [this]
    simp only [Frame.steps, hrest, hr]
    omega

/-! ## The loop -/

/-- A value still to be visited, at its depth and with the room that it has. -/
structure Visit where
  value : Value
  depth : Value
  room : Nat

/-- The steps for a value still to be visited, if there is one. -/
def pendingSteps : Option Visit → Nat
  | none => 0
  | some p => steps p.room p.value

/-- The next value of a frame. -/
def Frame.visit (fr : Frame) (e : Entry) : Visit := ⟨e.value, fr.depth.value, fr.room⟩

/-- Visits the pending value, else takes the next entry of the innermost container or closes it,
until all are closed. What is written is kept last part first. -/
def run (extend : Extender) (f : Format) (pending : Option Visit) (frames : List Frame)
    (written : List Part) (s : Session) : Except Fault (List Part) × Session :=
  match pending with
  | some p =>
    match _hv : container? p.value with
    | some (shape, entries) =>
      match _he : enter f p.value shape entries p.depth p.room with
      | .error e => (.error e, s)
      | .ok fr => run extend f none (fr :: frames) (opening fr :: written) s
    | none =>
      match leaf extend f p.value p.depth s with
      | (.error e, s) => (.error e, s)
      | (.ok t, s) => run extend f none frames (.text t :: written) s
  | none =>
    match frames with
    | [] => (.ok written.reverse, s)
    | fr :: frames =>
      match _hr : fr.rest with
      | [] =>
        match closing f fr with
        | .error e => (.error e, s)
        | .ok parts => run extend f none frames (parts.reverse ++ written) s
      | entry :: rest =>
        match lead f fr entry.key? s with
        | (.error e, s) => (.error e, s)
        | (.ok parts, s) =>
          run extend f (some (fr.visit entry)) (fr.advance rest :: frames) (parts.reverse ++ written) s
termination_by
  (pendingSteps pending + total Frame.steps frames, if pending.isSome then 1 else 0)
decreasing_by
  · left
    simp only [pendingSteps, steps_of_enter _hv _he, total_cons]
    omega
  · simp only [pendingSteps, Option.isSome_some, Option.isSome_none, if_true]
    rcases Nat.eq_zero_or_pos (steps p.room p.value) with h0 | h0
    · rw [h0, Nat.zero_add]; right; simp
    · left; omega
  · left
    simp only [pendingSteps, total_cons, Frame.steps]
    omega
  · left
    simp only [pendingSteps, Frame.visit, Frame.advance, total_cons, Frame.steps, _hr]
    omega

/-! ## One turn of the loop -/

section

variable (extend : Extender) (f : Format) {p : Visit} {shape : Shape} {entries : List Entry}
  {fr : Frame} (frames : List Frame) (written : List Part) (s : Session)

theorem run_refused {e : Fault} (hv : container? p.value = some (shape, entries))
    (he : enter f p.value shape entries p.depth p.room = .error e) :
    run extend f (some p) frames written s = (.error e, s) := by
  rw [run.eq_def]
  simp only
  split
  · split <;> simp_all
  · simp_all

theorem run_entered (hv : container? p.value = some (shape, entries))
    (he : enter f p.value shape entries p.depth p.room = .ok fr) :
    run extend f (some p) frames written s =
      run extend f none (fr :: frames) (opening fr :: written) s := by
  rw [run.eq_def]
  simp only
  split
  · split <;> simp_all
  · simp_all

theorem run_leaf (hv : container? p.value = none) :
    run extend f (some p) frames written s =
      Action.resume (leaf extend f p.value p.depth s) fun t s =>
        run extend f none frames (.text t :: written) s := by
  rw [run.eq_def]
  simp only
  split
  · simp_all
  · split <;> rename_i h <;> simp only [h, Action.resume_ok, Action.resume_error]

theorem run_done : run extend f none [] written s = (.ok written.reverse, s) := by
  rw [run.eq_def]

theorem run_closed (hr : fr.rest = []) :
    run extend f none (fr :: frames) written s =
      Action.resume (closing f fr, s) fun parts s =>
        run extend f none frames (parts.reverse ++ written) s := by
  rw [run.eq_def]
  simp only
  split
  · split <;> rename_i h <;> simp only [h, Action.resume_ok, Action.resume_error]
  · simp_all

theorem run_entry {entry : Entry} {rest : List Entry} (hr : fr.rest = entry :: rest) :
    run extend f none (fr :: frames) written s =
      Action.resume (lead f fr entry.key? s) fun parts s =>
        run extend f (some (fr.visit entry)) (fr.advance rest :: frames) (parts.reverse ++ written)
          s := by
  rw [run.eq_def]
  simp only
  split
  · simp_all
  · rename_i h
    obtain ⟨rfl, rfl⟩ : _ ∧ _ := by simpa using hr.symm.trans h
    split <;> rename_i h <;> simp only [h, Action.resume_ok, Action.resume_error]

end

/-- The parts of a value at a depth. -/
def parts (extend : Extender) (f : Format) (v : Value) (depth : Value) : Action (List Part) :=
  run extend f (some ⟨v, depth, roomFor f depth⟩) [] []

end JsonWriter.Render
