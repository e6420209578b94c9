import JsonWriter.Proofs.Layout.Settled
import Mathlib.Logic.Relation

/-!
# The loop turn by turn

In each turn the writer visits the pending value, takes the next entry of the innermost container or
closes it, until no container is open. Here nothing counts the containers that hold themselves, so the
turns need not end. Main statement: `comes_parts`, as long as the room is enough for these containers,
the turns end, and with what the writer comes to.
-/

namespace JsonWriter

open Generator (Format)

namespace Render

/-- The loop before a turn: the value to be visited, if there is one, the open containers, innermost
first, what is written so far, last part first, and the session. -/
structure Loop where
  pending : Option Visit
  frames : List Frame
  written : List Part
  session : Session

/-- What a loop comes to in the end. -/
abbrev Loop.Outcome := Except Fault (List Part) × Session

/-- Opens the container that a visited value is. Its room stays as it is. -/
def Visit.enter (f : Format) (p : Visit) (shape : Shape) (entries : List Entry) :
    Except Fault Frame := do
  Generator.checkNesting f.maxNesting p.depth
  let newline ← shape.newline f
  let depth ← p.depth.succ
  return ⟨shape, newline, depth, p.room, entries, true⟩

theorem Visit.enter_eq_ok {f : Format} {p : Visit} {shape : Shape} {entries : List Entry} {fr : Frame}
    (h : p.enter f shape entries = .ok fr) :
    p.depth.succ = .ok fr.depth ∧ fr.shape = shape ∧ fr.room = p.room ∧ fr.rest = entries := by
  simp only [enter, bind_eq_ok, pure, Except.pure, Except.ok.injEq] at h
  obtain ⟨_, -, newline, -, inner, hinner, rfl⟩ := h
  exact ⟨hinner, rfl, rfl, rfl⟩

namespace Loop

/-- The loop before its first turn. -/
def start (v depth : Value) (s : Session) : Loop := ⟨some ⟨v, depth, 0⟩, [], [], s⟩

/-- One turn: the loop before the next one, or the outcome. -/
def turn (extend : Extender) (f : Format) (c : Loop) : Loop ⊕ Outcome :=
  match c.pending, c.frames with
  | some p, frames =>
    match container? p.value with
    | some (shape, entries) =>
      match p.enter f shape entries with
      | .error e => .inr (.error e, c.session)
      | .ok fr => .inl ⟨none, fr :: frames, opening fr :: c.written, c.session⟩
    | none =>
      match leaf extend f p.value p.depth c.session with
      | (.error e, s) => .inr (.error e, s)
      | (.ok t, s) => .inl ⟨none, frames, .text t :: c.written, s⟩
  | none, [] => .inr (.ok c.written.reverse, c.session)
  | none, fr :: frames =>
    match fr.rest with
    | [] =>
      match closing f fr with
      | .error e => .inr (.error e, c.session)
      | .ok parts => .inl ⟨none, frames, parts.reverse ++ c.written, c.session⟩
    | entry :: rest =>
      match lead f fr entry.key? c.session with
      | (.error e, s) => .inr (.error e, s)
      | (.ok parts, s) =>
        .inl ⟨some (fr.visit entry), fr.advance rest :: frames, parts.reverse ++ c.written, s⟩

/-- The second loop is the first one some turns later. -/
abbrev Reaches (extend : Extender) (f : Format) : Loop → Loop → Prop :=
  Relation.ReflTransGen fun c c' => c.turn extend f = .inl c'

/-- After some turns the loop ends with the outcome. -/
inductive Comes (extend : Extender) (f : Format) : Loop → Outcome → Prop
  | last {c : Loop} {r : Outcome} (h : c.turn extend f = .inr r) : Comes extend f c r
  | next {c c' : Loop} {r : Outcome} (h : c.turn extend f = .inl c') (hrest : Comes extend f c' r) :
    Comes extend f c r

/-- What a turn does that is not the last one. -/
inductive Turned (extend : Extender) (f : Format) : Loop → Loop → Prop
  | entered {p : Visit} {shape : Shape} {entries : List Entry} {fr : Frame} {frames : List Frame}
    {w : List Part} {s : Session} (hv : container? p.value = some (shape, entries))
    (he : p.enter f shape entries = .ok fr) :
    Turned extend f ⟨some p, frames, w, s⟩ ⟨none, fr :: frames, opening fr :: w, s⟩
  | leaf {p : Visit} {frames : List Frame} {w : List Part} {s s' : Session} {t : Text}
    (hv : container? p.value = none) (ht : leaf extend f p.value p.depth s = (.ok t, s')) :
    Turned extend f ⟨some p, frames, w, s⟩ ⟨none, frames, .text t :: w, s'⟩
  | closed {fr : Frame} {frames : List Frame} {w parts : List Part} {s : Session} (hr : fr.rest = [])
    (hc : closing f fr = .ok parts) :
    Turned extend f ⟨none, fr :: frames, w, s⟩ ⟨none, frames, parts.reverse ++ w, s⟩
  | advanced {fr : Frame} {entry : Entry} {rest : List Entry} {frames : List Frame}
    {w parts : List Part} {s s' : Session} (hr : fr.rest = entry :: rest)
    (hl : lead f fr entry.key? s = (.ok parts, s')) :
    Turned extend f ⟨none, fr :: frames, w, s⟩
      ⟨some (fr.visit entry), fr.advance rest :: frames, parts.reverse ++ w, s'⟩

section

variable {extend : Extender} {f : Format}

theorem turned_of_turn {c c' : Loop} (h : c.turn extend f = .inl c') : Turned extend f c c' := by
  obtain ⟨_ | p, frames, w, s⟩ := c
  · cases frames with
    | nil => cases h
    | cons fr frames =>
      cases hr : fr.rest with
      | nil =>
        simp only [turn, hr] at h
        split at h
        · cases h
        · next hc =>
          obtain rfl := Sum.inl.inj h
          exact .closed hr hc
      | cons entry rest =>
        simp only [turn, hr] at h
        split at h
        · cases h
        · next hl =>
          obtain rfl := Sum.inl.inj h
          exact .advanced hr hl
  · simp only [turn] at h
    split at h
    · next hv =>
      split at h
      · cases h
      · next he =>
        obtain rfl := Sum.inl.inj h
        exact .entered hv he
    · next hv =>
      split at h
      · cases h
      · next ht =>
        obtain rfl := Sum.inl.inj h
        exact .leaf hv ht

/-- What every turn keeps is kept on the way. -/
theorem Reaches.keeps {P : Loop → Prop} (hturn : ∀ c c', P c → c.turn extend f = .inl c' → P c')
    {c c' : Loop} (h : c.Reaches extend f c') (hc : P c) : P c' := by
  induction h with
  | refl => exact hc
  | tail _ hlast ih => exact hturn _ _ ih hlast

/-- Where every turn leads to another one of the kind the loop does not end. -/
theorem not_comes {P : Loop → Prop} (hturn : ∀ c, P c → ∃ c', c.turn extend f = .inl c' ∧ P c')
    {c : Loop} (hc : P c) (r : Outcome) : ¬ c.Comes extend f r := by
  intro h
  induction h with
  | last h =>
    obtain ⟨c', hc', -⟩ := hturn _ hc
    cases h.symm.trans hc'
  | next h _ ih =>
    obtain ⟨c', hc', hP⟩ := hturn _ hc
    exact ih (Sum.inl.inj (h.symm.trans hc') ▸ hP)

/-- The loop ends with the outcome of the last turn. -/
theorem comes_iff {c : Loop} {r : Outcome} :
    c.Comes extend f r ↔ ∃ c', c.Reaches extend f c' ∧ c'.turn extend f = .inr r := by
  constructor
  · intro h
    induction h with
    | last h => exact ⟨_, .refl, h⟩
    | next h _ ih =>
      obtain ⟨c', hc', hlast⟩ := ih
      exact ⟨c', .head h hc', hlast⟩
  · rintro ⟨c', hc', hlast⟩
    induction hc' using Relation.ReflTransGen.head_induction_on with
    | refl => exact .last hlast
    | head h _ ih => exact .next h ih

/-- The turns leave no choice. -/
theorem Comes.unique {c : Loop} {r r' : Outcome} (h : c.Comes extend f r) (h' : c.Comes extend f r') :
    r = r' := by
  induction h with
  | last h =>
    cases h' with
    | last hlast => exact Sum.inr.inj (h.symm.trans hlast)
    | next hnext _ => cases h.symm.trans hnext
  | next h _ ih =>
    cases h' with
    | last hlast => cases h.symm.trans hlast
    | next hnext hrest => exact ih (Sum.inl.inj (h.symm.trans hnext) ▸ hrest)

theorem comes_of_turn {c c' : Loop} (h : c.turn extend f = .inl c') (r : Outcome) :
    c.Comes extend f r ↔ c'.Comes extend f r := by
  constructor
  · intro hc
    cases hc with
    | last hlast => cases h.symm.trans hlast
    | next hnext hrest => exact Sum.inl.inj (h.symm.trans hnext) ▸ hrest
  · exact .next h

end

end Loop

/-! ## Room for containers that hold themselves -/

def Visit.bare (p : Visit) : Visit := { p with room := 0 }

@[simp] theorem Visit.value_bare (p : Visit) : p.bare.value = p.value := rfl

@[simp] theorem Visit.depth_bare (p : Visit) : p.bare.depth = p.depth := rfl

@[simp] theorem Visit.room_bare (p : Visit) : p.bare.room = 0 := rfl

def Frame.bare (fr : Frame) : Frame := { fr with room := 0 }

@[simp] theorem Frame.rest_bare (fr : Frame) : fr.bare.rest = fr.rest := rfl

@[simp] theorem opening_bare (fr : Frame) : opening fr.bare = opening fr := rfl

@[simp] theorem closing_bare (f : Format) (fr : Frame) : closing f fr.bare = closing f fr := rfl

@[simp] theorem visit_bare (fr : Frame) (e : Entry) : fr.bare.visit e = (fr.visit e).bare := rfl

@[simp] theorem advance_bare (fr : Frame) (rest : List Entry) :
    fr.bare.advance rest = (fr.advance rest).bare := rfl

@[simp] theorem lead_bare (f : Format) (fr : Frame) : lead f fr.bare = lead f fr := rfl

/-- Where visits are of the kind, a container that can be opened has room for what is in it, and the
visits to that are of the kind. -/
def HasRoom (f : Format) (kind : Visit → Prop) : Prop :=
  ∀ p, kind p → ∀ shape entries fr, container? p.value = some (shape, entries) →
    p.bare.enter f shape entries = .ok fr →
    ∃ room, roomWithin p.value p.room = .ok room ∧
      ∀ e ∈ entries, kind ⟨e.value, fr.depth.value, room⟩

/-- The writer opens a container as a turn does, and counts the room. -/
theorem enter_eq_bare (f : Format) (p : Visit) (shape : Shape) (entries : List Entry) :
    enter f p.value shape entries p.depth p.room = (do
      let fr ← p.bare.enter f shape entries
      let room ← roomWithin p.value p.room
      return { fr with room }) := by
  simp only [enter, Visit.enter, Visit.bare]
  cases Generator.checkNesting f.maxNesting p.depth with
  | error e => rfl
  | ok _ =>
    cases shape.newline f with
    | error e => rfl
    | ok newline =>
      cases p.depth.succ with
      | error e => rfl
      | ok depth => rfl

section

variable (extend : Extender) (f : Format)

/-- The turns end with what the writer comes to, unless this finds too little room. -/
theorem comes_or_endless_run (pending : Option Visit) (frames : List Frame) (w : List Part) (s : Session) :
    (run extend f pending frames w s).1 = .error .endless ∨
      Loop.Comes extend f ⟨pending.map Visit.bare, frames.map Frame.bare, w, s⟩
        (run extend f pending frames w s) := by
  fun_induction run extend f pending frames w s with
  | case1 frames w s p shape entries hv e he =>
    rw [enter_eq_bare] at he
    cases hbare : p.bare.enter f shape entries with
    | error e' =>
      rw [hbare] at he
      obtain rfl : e' = e := Except.error.inj he
      exact .inr (.last (by simp [Loop.turn, hv, hbare]))
    | ok fr =>
      -- The container can be opened, so what is missing is room.
      rw [hbare] at he
      unfold roomWithin at he
      split at he
      · split at he
        · obtain rfl : Fault.endless = e := Except.error.inj he
          exact .inl rfl
        · cases he
      · cases he
  | case2 frames w s p shape entries hv fr he ih =>
    have hbare : p.bare.enter f shape entries = .ok fr.bare := by
      rw [enter_eq_bare] at he
      obtain ⟨fr', hfr', hroom⟩ := bind_eq_ok.mp he
      obtain ⟨room, -, heq⟩ := bind_eq_ok.mp hroom
      obtain rfl : _ = fr := Except.ok.inj heq
      obtain ⟨-, -, hzero, -⟩ := Visit.enter_eq_ok hfr'
      rw [hfr', Frame.bare, ← Visit.room_bare p, ← hzero]
    exact ih.imp_right (.next (by simp [Loop.turn, hv, hbare]))
  | case3 frames w s p hv e s' ht => exact .inr (.last (by simp [Loop.turn, hv, ht]))
  | case4 frames w s p hv t s' ht ih => exact ih.imp_right (.next (by simp [Loop.turn, hv, ht]))
  | case5 w s => exact .inr (.last rfl)
  | case6 w s fr frames hr e hc => exact .inr (.last (by simp [Loop.turn, hr, hc]))
  | case7 w s fr frames hr parts hc ih => exact ih.imp_right (.next (by simp [Loop.turn, hr, hc]))
  | case8 w s fr frames entry rest hr e s' hl => exact .inr (.last (by simp [Loop.turn, hr, hl]))
  | case9 w s fr frames entry rest hr parts s' hl ih =>
    exact ih.imp_right (.next (by simp [Loop.turn, hr, hl]))

theorem comes_or_endless (v depth : Value) (s : Session) :
    (parts extend f v depth s).1 = .error .endless ∨
      (Loop.start v depth s).Comes extend f (parts extend f v depth s) :=
  comes_or_endless_run extend f (some ⟨v, depth, roomFor f depth⟩) [] [] s

end

section

variable {extend : Extender} {f : Format} {kind : Visit → Prop} (hroom : HasRoom f kind)

include hroom

/-- With enough room the writer opens a container exactly if a turn does. -/
theorem enter_of_hasRoom {p : Visit} (hp : kind p) {shape : Shape} {entries : List Entry}
    (hv : container? p.value = some (shape, entries)) :
    p.bare.enter f shape entries =
        (enter f p.value shape entries p.depth p.room).map Frame.bare ∧
      ∀ fr, enter f p.value shape entries p.depth p.room = .ok fr →
        ∀ e ∈ fr.rest, kind (fr.visit e) := by
  rw [enter_eq_bare]
  cases he : p.bare.enter f shape entries with
  | error e => exact ⟨rfl, nofun⟩
  | ok fr =>
    obtain ⟨room, hr, hkind⟩ := hroom p hp shape entries fr hv he
    obtain ⟨-, -, hzero, rfl⟩ := Visit.enter_eq_ok he
    simp only [hr, bind, Except.bind, pure, Except.pure, Except.map]
    refine ⟨?_, fun fr' hfr' => ?_⟩
    · rw [Visit.room_bare] at hzero
      rw [Frame.bare, ← hzero]
    · obtain rfl := Except.ok.inj hfr'
      exact hkind

/-- With enough room the turns end with what the writer comes to. -/
theorem comes_run (pending : Option Visit) (frames : List Frame) (w : List Part) (s : Session)
    (hpending : ∀ p ∈ pending, kind p)
    (hframes : ∀ fr ∈ frames, ∀ e ∈ fr.rest, kind (fr.visit e)) :
    Loop.Comes extend f ⟨pending.map Visit.bare, frames.map Frame.bare, w, s⟩
      (run extend f pending frames w s) := by
  -- The cases are the turns of `run`, and each is the turn of the loop without rooms.
  fun_induction run extend f pending frames w s with
  | case1 frames w s p shape entries hv e he =>
    have hbare := (enter_of_hasRoom hroom (hpending p rfl) hv).1
    rw [he] at hbare
    exact .last (by simp [Loop.turn, hv, hbare, Except.map])
  | case2 frames w s p shape entries hv fr he ih =>
    obtain ⟨hbare, hentries⟩ := enter_of_hasRoom hroom (hpending p rfl) hv
    rw [he] at hbare
    refine .next (by simp [Loop.turn, hv, hbare, Except.map]) (ih nofun ?_)
    exact List.forall_mem_cons.mpr ⟨hentries fr he, hframes⟩
  | case3 frames w s p hv e s' ht => exact .last (by simp [Loop.turn, hv, ht])
  | case4 frames w s p hv t s' ht ih =>
    exact .next (by simp [Loop.turn, hv, ht]) (ih nofun hframes)
  | case5 w s => exact .last rfl
  | case6 w s fr frames hr e hc => exact .last (by simp [Loop.turn, hr, hc])
  | case7 w s fr frames hr parts hc ih =>
    refine .next (by simp [Loop.turn, hr, hc]) (ih nofun ?_)
    exact (List.forall_mem_cons.mp hframes).2
  | case8 w s fr frames entry rest hr e s' hl => exact .last (by simp [Loop.turn, hr, hl])
  | case9 w s fr frames entry rest hr parts s' hl ih =>
    obtain ⟨hfr, hframes⟩ := List.forall_mem_cons.mp hframes
    obtain ⟨hentry, hrest⟩ := List.forall_mem_cons.mp (hr ▸ hfr)
    refine .next (by simp [Loop.turn, hr, hl]) (ih (by simpa using hentry) ?_)
    exact List.forall_mem_cons.mpr ⟨hrest, hframes⟩

variable (extend) in
/-- With enough room for a value the turns end, and with what the writer comes to. -/
theorem comes_parts {v depth : Value} (h : kind ⟨v, depth, roomFor f depth⟩) (s : Session) :
    (Loop.start v depth s).Comes extend f (parts extend f v depth s) :=
  comes_run hroom (some ⟨v, depth, roomFor f depth⟩) [] [] s (by simpa using h) (List.forall_mem_nil _)

end

/-! ## Finite values -/

theorem container?_of_isTree {allowed : Extension Value → Prop} {v : Value} (h : v.IsTree allowed)
    {shape : Shape} {entries : List Entry} (hv : container? v = some (shape, entries)) :
    isCyclic v = false ∧ ∀ e ∈ entries, e.value.IsTree allowed := by
  induction v, h using Value.tree_induction with
  | scalar v h hscalar =>
    rw [hscalar] at hv
    cases hv
  | sequence v h kind items hc ih =>
    rw [Value.container?_of_content (v := .sequence kind items) hc] at hv
    obtain ⟨-, rfl⟩ := Prod.mk.inj (Option.some.inj hv)
    refine ⟨by rw [isCyclic, hc], List.forall_mem_map.mpr fun w hw => ?_⟩
    exact (ih w hw).1
  | mapping v h kind es hc ih =>
    rw [Value.container?_of_content (v := .mapping kind es) hc] at hv
    obtain ⟨-, rfl⟩ := Prod.mk.inj (Option.some.inj hv)
    refine ⟨by rw [isCyclic, hc], List.forall_mem_map.mpr fun e he => ?_⟩
    exact (ih e he).1
  | binary v h kind data hc ih =>
    rw [Value.container?_of_content (v := .binary kind data) hc] at hv
    exact ⟨by rw [isCyclic, hc], (ih.2 hv).2⟩

/-- A finite value takes no room. -/
theorem hasRoom_isFinite (f : Format) : HasRoom f fun p => p.value.IsFinite := by
  intro p hp shape entries fr hv _
  obtain ⟨hcyclic, hentries⟩ := container?_of_isTree hp hv
  exact ⟨p.room, by simp [roomWithin, hcyclic], hentries⟩

end Render

/-- Rendering comes to the text of what the writer comes to. -/
theorem render_eq_parts {s : Session} {id : Nat} {g : Generator} (hg : s.generator? id = some g)
    (v : Value) (depth : Option Value) :
    (render v id depth s).1 = (Render.parts (Extension.writeAt g v.rank) g.format v
      (depth.getD g.depth) s).1 >>= Render.Part.join := by
  rw [render, renderAt_eq, Action.bind_apply, Action.generator, hg, Action.resume_ok, Action.bind_apply,
    Action.counted, Option.getD_some]
  generalize Render.parts _ _ _ _ s = run
  obtain ⟨_ | parts, s'⟩ := run
  · rfl
  · rfl

end JsonWriter
