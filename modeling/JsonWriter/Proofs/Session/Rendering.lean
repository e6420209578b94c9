import JsonWriter.Proofs.Session.Within

/-!
# What rendering does to the generators of a session

An object that writes itself is given a new generator, set to the depth of the object, and only that one
is written to. Containers go down from a depth that is given or the generator's own. Main statements:
`ensures_render` and `ensures_generate`.
-/

namespace JsonWriter

open JsonWriter.Action (Ensures ensures_pure ensures_fail ensures_ofExcept)
open Generator (Format)

/-- A depth that is given, if there is one, is read as one of the kind. -/
def Value.IsPlaced (placed : Value → Prop) (depth : Option Value) : Prop :=
  ∀ s d, (Action.readOptional depth s).1 = .ok d → ∀ d' ∈ Value.given? d, placed d'

/-- An object that renders at a depth of its own does so at one of the kind. -/
def Extension.IsPlaced (placed : Value → Prop) : Extension Value → Prop
  | .delegate _ depth => Value.IsPlaced placed depth
  | _ => True

/-- The objects in the value that write themselves render at depths of the kind. -/
abbrev Value.ArePlaced (placed : Value → Prop) (v : Value) : Prop :=
  v.Hosts (Extension.IsPlaced placed)

theorem Value.arePlaced_all (v : Value) : v.ArePlaced fun _ => True :=
  hosts_of_forall (fun e => by cases e <;> simp [Extension.IsPlaced, Value.IsPlaced]) v

section

variable {base : Session} {target : Option Nat} {made : Generator → Prop} {placed : Value → Prop}

theorem Value.IsPlaced.ensures (hc : Generator.Closed made placed) {depth : Option Value}
    (h : Value.IsPlaced placed depth) :
    Ensures (base.Within target made) (fun d => ∀ d' ∈ Value.given? d, placed d')
      (Action.readOptional depth) :=
  fun s hs => ⟨(Action.ensures_readOptional hc depth s hs).1, h s⟩

/-- Rendering a value writes to no generator that it finds. -/
def Renderer.IsSafe (base : Session) (target : Option Nat) (made : Generator → Prop)
    (placed : Value → Prop) (render : Renderer) : Prop :=
  ∀ v id depth, v.ArePlaced placed → (∀ d ∈ depth, placed d) →
    Ensures (base.Within target made) (fun _ => True) (render v id depth)

/-- What an object comes to at a depth, without writing to a generator that is found. -/
def Render.Extender.IsSafe (base : Session) (target : Option Nat) (made : Generator → Prop)
    (placed : Value → Prop) (extend : Render.Extender) : Prop :=
  ∀ e depth, (Value.extension e).ArePlaced placed → placed depth →
    Ensures (base.Within target made) (fun _ => True) (extend e depth)

variable (hc : Generator.Closed made placed)

/-! ## Objects that write themselves -/

section

variable {render : Renderer} (hrender : render.IsSafe base target made placed)

include hc hrender

theorem ensures_generateWith {v : Value} (hv : v.ArePlaced placed) (id : Nat) :
    Ensures (base.Within target made) (fun _ => True) (generateWith render v id) := by
  refine Ensures.logged (Ensures.counted ?_ _ _)
  refine (hrender v id none hv (by simp)).bind fun _ _ => ?_
  exact (Action.ensures_generator hc id).bind fun _ _ =>
    (Action.ensures_any _).bind fun _ _ => ensures_pure trivial

theorem ensures_call {e : Extension Value} (he : (Value.extension e).ArePlaced placed) {id : Nat}
    (hid : base.Writable target id) :
    Ensures (base.Within target made) (fun _ => True) (e.call render id) := by
  have hread (v : Value) : Ensures (base.Within target made)
      (fun w => v.ArePlaced placed → w.ArePlaced placed) v.read := ensures_read hc v
  cases e with
  | literal v => exact (hread v).mono fun _ _ => trivial
  | point x y =>
    refine (hread x).bind fun x' hx => (hread y).bind fun y' hy => ?_
    have hpoint : (Value.dictionary [(.str (text "x"), x'), (.str (text "y"), y')]).ArePlaced
        placed := ⟨⟨trivial, hx he.2.1⟩, ⟨trivial, hy he.2.2⟩, trivial⟩
    exact .map (ensures_generateWith hc hrender hpoint id)
  | depthText =>
    refine (Action.ensures_generator hc id).bind fun g _ => ?_
    exact .map (Action.isCalm_shown g.depth).ensures
  | stateText => exact .map (Action.ensures_literal _)
  | delegate v depth =>
    refine (hread v).bind fun w hw => (Value.IsPlaced.ensures hc he.1).bind fun d hd => ?_
    exact .map (hrender w id (Value.given? d) (hw he.2) hd)
  | reconfigured v config =>
    refine (hread v).bind fun w hw => (Action.ensures_readOptional hc config).bind fun c _ => ?_
    refine (Action.ensures_resolve hc _).bind fun id' _ => ?_
    exact .map (ensures_generateWith hc hrender (hw he.2) id')
  | mutator settings v =>
    have hset (e : Value × Value) : Ensures (base.Within target made) (fun _ => True) (do
        let name ← e.1.read
        Action.set id name (← e.2.read)) :=
      (hread e.1).bind fun name _ => (hread e.2).bind fun w _ => Action.ensures_set hc hid name w
    refine (Ensures.forM fun e _ => hset e).bind fun _ _ => (hread v).bind fun w hw => ?_
    exact .map (ensures_generateWith hc hrender (hw he.2) id)
  | capture slot v =>
    exact (Action.ensures_setSlot slot id).bind fun _ _ => (hread v).mono fun _ _ => trivial
  | raiser error message => exact ensures_fail _

theorem ensures_write (g : Generator) :
    Render.Extender.IsSafe base target made placed (Extension.write render g) := by
  intro e depth he hd
  refine (Action.ensures_copy hc g).bind fun id hid => ?_
  refine (Action.ensures_generator hc id).bind fun g' hg' => ?_
  refine (Action.ensures_replace hid (hc.place hg' hd)).bind fun _ _ => ?_
  refine (ensures_call hc hrender he hid).bind fun result _ => ?_
  split
  · exact ensures_pure trivial
  · exact ensures_fail _

end

/-! ## Containers -/

namespace Render

/-- The entries of the container are at a depth of the kind, and so is what is in them. -/
structure Frame.IsPlaced (placed : Value → Prop) (fr : Frame) : Prop where
  depth : placed fr.depth.value
  entries : ∀ e ∈ fr.rest, e.value.ArePlaced placed

theorem succ_of_enter {f : Format} {v : Value} {shape : Shape} {entries : List Entry} {depth : Value}
    {room : Nat} {fr : Frame} (h : enter f v shape entries depth room = .ok fr) :
    depth.succ = .ok fr.depth := by
  simp only [enter, bind_eq_ok, pure, Except.pure, Except.ok.injEq] at h
  obtain ⟨_, -, newline, -, inner, hinner, room', -, rfl⟩ := h
  exact hinner

theorem ensures_leaf {extend : Extender} (hextend : extend.IsSafe base target made placed)
    (f : Format) {v depth : Value} (hv : v.ArePlaced placed) (hd : placed depth) :
    Ensures (base.Within target made) (fun _ => True) (leaf extend f v depth) := by
  cases hnode : v.node with
  | extension e =>
    have he := Value.deep_hosts.node v hv
    rw [hnode] at he
    have hleaf : leaf extend f v depth = extend e depth := by
      rw [leaf, hnode]
    rw [hleaf]
    exact hextend e depth he hd
  | _ => exact (leaf_isCalm extend f v depth (by simp [hnode])).ensures

theorem ensures_lead (f : Format) (fr : Frame) (key? : Option Value) :
    Ensures (base.Within target made) (fun _ => True) (lead f fr key?) := by
  refine (Action.isCalm_ofExcept (separator f fr)).ensures.bind fun before _ => ?_
  cases key? with
  | none => exact ensures_pure trivial
  | some key =>
    have hmember : Ensures (base.Within target made) (fun _ => True) (member f key) :=
      (label_isCalm f key).ensures.bind fun _ _ =>
        (Action.isCalm_ofExcept f.colon).ensures.bind fun _ _ => ensures_pure trivial
    exact hmember.bind fun _ _ => ensures_pure trivial

mutual

theorem ensures_print (hc : Generator.Closed made placed) {extend : Extender}
    (hextend : extend.IsSafe base target made placed) (f : Format) (p : Visit)
    (hp : p.value.ArePlaced placed) (hd : placed p.depth) :
    Ensures (base.Within target made) (fun _ => True) (print extend f p) := by
  match hv : container? p.value with
  | none =>
    rw [print_leaf hv]
    exact (ensures_leaf hextend f hp hd).bind fun _ _ => ensures_pure trivial
  | some (shape, entries) =>
    match he : enter f p.value shape entries p.depth p.room with
    | .error e =>
      rw [print_refused hv he]
      exact ensures_fail e
    | .ok fr =>
      rw [print_entered hv he]
      have hframe : fr.IsPlaced placed :=
        ⟨hc.succ hd (succ_of_enter he), (enter_eq_ok he).2 ▸ Value.deep_hosts.container? hp hv⟩
      exact (ensures_printFrame hc hextend f fr hframe).bind fun _ _ => ensures_pure trivial
termination_by steps p.room p.value
decreasing_by
  rw [steps_of_enter hv he]
  omega

theorem ensures_printFrame (hc : Generator.Closed made placed) {extend : Extender}
    (hextend : extend.IsSafe base target made placed) (f : Format) (fr : Frame)
    (hfr : fr.IsPlaced placed) :
    Ensures (base.Within target made) (fun _ => True) (printFrame extend f fr) := by
  match hr : fr.rest with
  | [] =>
    rw [printFrame_closed hr]
    exact ensures_ofExcept fun _ _ => trivial
  | entry :: rest =>
    obtain ⟨hentry, hrest⟩ := List.forall_mem_cons.mp (hr ▸ hfr.entries)
    rw [printFrame_entry hr]
    refine (ensures_lead f fr entry.key?).bind fun _ _ => ?_
    refine (ensures_print hc hextend f (fr.visit entry) hentry hfr.depth).bind fun _ _ => ?_
    exact (ensures_printFrame hc hextend f (fr.advance rest) ⟨hfr.depth, hrest⟩).bind fun _ _ =>
      ensures_pure trivial
termination_by fr.steps
decreasing_by
  all_goals simp only [Frame.steps, Frame.visit, Frame.advance, hr, total_cons]; omega

end

end Render

/-! ## Rendering and generating -/

include hc

theorem ensures_renderAt (level : Nat) : (renderAt level).IsSafe base target made placed := by
  have hstep {level : Nat} (h : ∀ g, Render.Extender.IsSafe base target made placed
      (Extension.writeAt g level)) : (renderAt level).IsSafe base target made placed := by
    intro v id depth hv hd
    rw [renderAt_eq]
    refine (Action.ensures_generator hc id).bind fun g hg => ?_
    have hdepth : placed (depth.getD g.depth) := by
      cases depth with
      | none => exact hc.depth hg
      | some d => exact hd d rfl
    have hparts : Ensures (base.Within target made) (fun _ => True)
        (Render.parts (Extension.writeAt g level) g.format v (depth.getD g.depth)) := by
      rw [Render.parts_eq_print]
      exact Render.ensures_print hc (h g) g.format _ hv hdepth
    exact (hparts.counted _ _).bind fun _ _ => Action.ensures_any _
  -- An object takes one level, and renders with the levels below it.
  induction level with
  | zero => exact hstep fun _ _ _ _ _ => ensures_fail _
  | succ level ih => exact hstep fun g => ensures_write hc ih g

theorem ensures_render : render.IsSafe base target made placed :=
  fun v id depth hv hd => ensures_renderAt hc v.rank v id depth hv hd

theorem ensures_generate {v : Value} (hv : v.ArePlaced placed) (id : Nat) :
    Ensures (base.Within target made) (fun _ => True) (generate v id) :=
  ensures_generateWith hc (ensures_render hc) hv id

theorem ensures_generateConfigured {v : Value} (hv : v.ArePlaced placed) (config : Value) :
    Ensures (base.Within target made) (fun _ => True) (generateConfigured v config) :=
  (Action.ensures_resolve hc config).bind fun id _ => ensures_generate hc hv id

theorem ensures_merged (entries : Entries) (config : Value) :
    Ensures (base.Within target made) (base.Writable target) (merged entries config) := by
  refine (Action.ensures_build hc _).bind fun id hid => ?_
  split
  · exact ensures_pure hid
  · refine (Action.ensures_generator hc _).bind fun g _ => ?_
    exact (Action.ensures_configure hc hid _).bind fun _ _ => ensures_pure hid
  · exact (Action.ensures_configure hc hid _).bind fun _ _ => ensures_pure hid

theorem ensures_prettyGenerate {v : Value} (hv : v.ArePlaced placed) (config : Value) :
    Ensures (base.Within target made) (fun _ => True) (prettyGenerate v config) :=
  (ensures_merged hc _ config).bind fun id _ => ensures_generate hc hv id

theorem ensures_fastGenerate {v : Value} (hv : v.ArePlaced placed) (config : Value) :
    Ensures (base.Within target made) (fun _ => True) (fastGenerate v config) := by
  refine (ensures_merged hc [] config).bind fun id hid => ?_
  refine (Action.ensures_generator hc id).bind fun g hg => ?_
  exact (Action.ensures_replace hid (hc.unlimited hg)).bind fun _ _ => ensures_generate hc hv id

end

end JsonWriter
