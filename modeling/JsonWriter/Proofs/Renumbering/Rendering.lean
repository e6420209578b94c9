import JsonWriter.Proofs.Renumbering.Sessions

/-!
# Rendering with one generator more

The writer, and the objects that write themselves, come to the same text or fault in a session with one
generator more. Main statement: `generate_push`, a generator that nothing knows of makes no difference.
-/

namespace JsonWriter

open JsonWriter.Action (Follows follows_pure follows_fail follows_ofExcept follows_same)
open Generator (Format closed_isBounded)

variable {n m : Nat}

/-! ## Tokens and keys -/

namespace Render

theorem follows_quoted (asciiOnly : Bool) (t shown : Text) :
    Follows n m id (quoted asciiOnly t shown) (quoted asciiOnly t shown) := by
  unfold quoted
  cases Utf8.encode? t with
  | none => exact follows_fail _
  | some raw => exact ((follows_same _).counted _ _).bind fun body => follows_pure (α := Text) _

theorem shownText_raise (v : Value) (t : Text) : shownText (v.raise n) t = shownText v t := by
  cases v with
  | object shown => cases shown <;> rfl
  | own i v =>
    cases v with
    | object shown => cases shown <;> rfl
    | _ => rfl
  | _ => rfl

theorem follows_keyText (key : Value) : Follows n m id (keyText key) (keyText (key.raise n)) := by
  have hshown := Action.follows_shown (n := n) (m := m) key
  unfold keyText
  rw [Value.text?_raise]
  cases key.text? with
  | some t => exact follows_pure t
  | none =>
    cases key with
    | null => exact follows_pure _
    | bool b => exact follows_pure _
    | _ => exact hshown

theorem follows_label (f : Format) (key : Value) :
    Follows n m id (label f key) (label (f.raise n) (key.raise n)) := by
  refine (follows_keyText key).bind fun t => ?_
  rw [shownText_raise]
  exact follows_quoted _ _ _

theorem follows_number (k : Int) : Follows n m id (number k) (number k) := by
  unfold number
  generalize Decimal.ofInt? k = digits
  cases digits with
  | none => exact follows_fail _
  | some t => exact follows_pure t

theorem follows_float (f : Format) (x : Binary64) : Follows n m id (float f x) (float (f.raise n) x) := by
  have hallow : (f.raise n).allowNan = f.allowNan := rfl
  unfold float
  rw [hallow]
  split
  · exact follows_pure _
  · dsimp only
    split
    · exact follows_pure _
    · exact follows_fail _

/-- What objects that write themselves come to with one generator more, if the identities in them were
given. -/
def Extender.Follows (n : Nat) (extend extend' : Extender) : Prop :=
  ∀ m e depth, Value.ExtensionIsIssued m e → depth.IsBounded m →
    Action.Follows n m id (extend e depth) (extend' (Value.raiseExtension n e) (depth.raise n))

theorem follows_leaf {extend extend' : Extender} (hextend : extend.Follows n extend') (f : Format)
    {v depth : Value} (hv : v.IsIssued m) (hd : depth.IsBounded m) :
    Follows n m id (leaf extend f v depth) (leaf extend' (f.raise n) (v.raise n) (depth.raise n)) := by
  have hshown : Follows n m id
      (do
        let t ← Action.shown v
        quoted f.asciiOnly t (shownText v t))
      (do
        let t ← Action.shown (v.raise n)
        quoted f.asciiOnly t (shownText (v.raise n) t)) := by
    refine (Action.follows_shown v).bind fun t => ?_
    rw [shownText_raise]
    exact follows_quoted _ _ _
  have hissued := Value.deep_isIssued.node v hv
  unfold leaf
  rw [Value.node_raise]
  cases hnode : v.node with
  | null => exact follows_pure _
  | bool b => exact follows_pure _
  | str t =>
    simp only [Value.Node.raise, shownText_raise]
    exact follows_quoted _ _ _
  | int k => exact follows_number k
  | float x => exact follows_float f x
  | extension e =>
    rw [hnode] at hissued
    exact hextend m e depth hissued hd
  | array _ | object _ | other => exact hshown

/-! ## Containers -/

def Entry.raise (n : Nat) (e : Entry) : Entry := ⟨e.key?.map (Value.raise n), e.value.raise n⟩

def Frame.raise (n : Nat) (fr : Frame) : Frame := { fr with rest := fr.rest.map (Entry.raise n) }

def Visit.raise (n : Nat) (p : Visit) : Visit := ⟨p.value.raise n, p.depth.raise n, p.room⟩

theorem container?_raise (v : Value) : container? (v.raise n) =
    (container? v).map fun c => (c.1, c.2.map (Entry.raise n)) := by
  unfold container?
  rw [Value.node_raise]
  cases v.node with
  | array items =>
    simp only [Value.Node.raise, Value.raiseItems_eq_map, Option.map, List.map_map]
    rfl
  | object entries =>
    simp only [Value.Node.raise, Value.raiseEntries_eq_map, Option.map, List.map_map]
    rfl
  | _ => rfl

theorem roomWithin_raise (v : Value) (room : Nat) : roomWithin (v.raise n) room = roomWithin v room := by
  have hcyclic : isCyclic (v.raise n) = isCyclic v := by
    unfold isCyclic
    rw [Value.content_raise]
    cases v.content <;> rfl
  simp only [roomWithin, hcyclic]

theorem roomFor_raise (f : Format) (depth : Value) :
    roomFor (f.raise n) (depth.raise n) = roomFor f depth := by
  simp only [roomFor, Format.raise, Value.number?_raise]

theorem enter_raise (f : Format) (v : Value) (shape : Shape) (entries : List Entry) (depth : Value)
    (room : Nat) :
    enter (f.raise n) (v.raise n) shape (entries.map (Entry.raise n)) (depth.raise n) room =
      (enter f v shape entries depth room).map (Frame.raise n) := by
  have hnewline : shape.newline (f.raise n) = shape.newline f := by cases shape <;> rfl
  have hnesting : Generator.checkNesting (f.raise n).maxNesting (depth.raise n) =
      Generator.checkNesting f.maxNesting depth := Generator.checkNesting_raise _ _
  rw [enter, enter, hnewline, hnesting, Value.succ_raise, roomWithin_raise]
  cases Generator.checkNesting f.maxNesting depth with
  | error e => rfl
  | ok _ =>
    cases shape.newline f with
    | error e => rfl
    | ok newline =>
      cases depth.succ with
      | error e => rfl
      | ok inner =>
        cases roomWithin v room with
        | error e => rfl
        | ok room => rfl

theorem margin_raise (f : Format) (newline : Text) (depth : Number) :
    margin (f.raise n) newline depth = margin f newline depth := by
  have hvalue (v : Value) : Part.ofValue (v.raise n) = Part.ofValue v := by
    rw [Part.ofValue, Part.ofValue, Value.text?_raise, Value.kind_raise]
  have hindent : (f.raise n).indent = f.indent.raise n := rfl
  rw [margin, margin, hindent, Value.times_raise]
  cases f.indent.times depth with
  | error e => rfl
  | ok v => simp only [Except.map, hvalue]

theorem closing_raise (f : Format) (fr : Frame) : closing (f.raise n) (fr.raise n) = closing f fr := by
  simp only [closing, Frame.raise, margin_raise]

theorem follows_lead (f : Format) (fr : Frame) (key? : Option Value) :
    Follows n m id (lead f fr key?) (lead (f.raise n) (fr.raise n) (key?.map (Value.raise n))) := by
  have hseparator : separator (f.raise n) (fr.raise n) = separator f fr := by
    simp only [separator, Frame.raise, margin_raise]
    rfl
  unfold lead
  rw [hseparator]
  refine (follows_same _).bind fun before => ?_
  cases key? with
  | none => exact follows_pure _
  | some key =>
    have hmember : Follows n m id (member f key) (member (f.raise n) (key.raise n)) :=
      (follows_label f key).bind fun label => (follows_same f.colon).bind fun colon =>
        follows_pure [Part.text label, Part.text colon]
    exact hmember.bind fun parts => follows_pure (before ++ parts)

theorem visit_raise (fr : Frame) (e : Entry) : (fr.raise n).visit (e.raise n) = (fr.visit e).raise n := by
  have hdepth : fr.depth.value.raise n = fr.depth.value := by cases fr.depth <;> rfl
  simp only [Frame.visit, Visit.raise, hdepth]
  rfl

section

variable {extend extend' : Extender}

mutual

theorem follows_print (hextend : extend.Follows n extend') (f : Format) (p : Visit)
    (hp : p.value.IsIssued m) (hd : p.depth.IsBounded m) :
    Follows n m id (print extend f p) (print extend' (f.raise n) (p.raise n)) := by
  have hcontainer := container?_raise (n := n) p.value
  match hv : container? p.value with
  | none =>
    rw [hv] at hcontainer
    rw [print_leaf hv, print_leaf hcontainer]
    exact (follows_leaf hextend f hp hd).bind fun t => follows_pure [Part.text t]
  | some (shape, entries) =>
    rw [hv] at hcontainer
    have henter := enter_raise (n := n) f p.value shape entries p.depth p.room
    match he : enter f p.value shape entries p.depth p.room with
    | .error e =>
      rw [he] at henter
      rw [print_refused hv he, print_refused hcontainer henter]
      exact follows_fail e
    | .ok fr =>
      rw [he] at henter
      rw [print_entered hv he, print_entered hcontainer henter]
      have hrest : ∀ e ∈ fr.rest, e.value.IsIssued m :=
        (enter_eq_ok he).2 ▸ Value.deep_isIssued.container? hp hv
      exact (follows_printFrame hextend f fr hrest).bind fun parts => follows_pure (opening fr :: parts)
termination_by steps p.room p.value
decreasing_by
  rw [steps_of_enter hv he]
  omega

theorem follows_printFrame (hextend : extend.Follows n extend') (f : Format) (fr : Frame)
    (hfr : ∀ e ∈ fr.rest, e.value.IsIssued m) :
    Follows n m id (printFrame extend f fr) (printFrame extend' (f.raise n) (fr.raise n)) := by
  match hr : fr.rest with
  | [] =>
    have hr' : (fr.raise n).rest = [] := by rw [Frame.raise, hr, List.map_nil]
    rw [printFrame_closed hr, printFrame_closed hr', closing_raise]
    exact follows_same _
  | entry :: rest =>
    obtain ⟨hentry, hrest⟩ := List.forall_mem_cons.mp (hr ▸ hfr)
    have hr' : (fr.raise n).rest = entry.raise n :: rest.map (Entry.raise n) := by
      rw [Frame.raise, hr, List.map_cons]
    rw [printFrame_entry hr, printFrame_entry hr', visit_raise]
    refine (follows_lead f fr entry.key?).bind fun before => ?_
    have hdepth : (fr.visit entry).depth.IsBounded m :=
      .inl (Value.showsNoGenerator_of_isSimple (Value.isSimple_number _))
    refine (follows_print hextend f (fr.visit entry) hentry hdepth).bind fun parts => ?_
    exact (follows_printFrame hextend f (fr.advance rest) hrest).bind fun more =>
      follows_pure (before ++ parts ++ more)
termination_by fr.steps
decreasing_by
  all_goals simp only [Frame.steps, Frame.visit, Frame.advance, hr, total_cons]; omega

end

theorem follows_parts (hextend : extend.Follows n extend') (f : Format) {v depth : Value}
    (hv : v.IsIssued m) (hd : depth.IsBounded m) :
    Follows n m id (parts extend f v depth) (parts extend' (f.raise n) (v.raise n) (depth.raise n)) := by
  rw [parts_eq_print, parts_eq_print, roomFor_raise]
  exact follows_print hextend f ⟨v, depth, roomFor f depth⟩ hv hd

end

end Render

/-! ## Objects that write themselves -/

/-- Rendering comes to the same with one generator more, if the identities in the value were given. -/
def Renderer.Follows (n : Nat) (render : Renderer) : Prop :=
  ∀ m v id depth, v.IsIssued m → (∀ d ∈ depth, d.IsBounded m) →
    Action.Follows n m (fun t => t) (render v id depth)
      (render (v.raise n) (raised n id) (depth.map (Value.raise n)))

theorem follows_settings (i : Nat) (settings : List (Value × Value)) :
    Follows n m id
      (settings.forM fun (name, value) => do
        let name ← name.read
        Action.set i name (← value.read))
      ((Value.raiseEntries n settings).forM fun (name, value) => do
        let name ← name.read
        Action.set (raised n i) name (← value.read)) := by
  induction settings with
  | nil => exact follows_pure _
  | cons e rest ih =>
    have hset : Follows n m id
        (do
          let name ← e.1.read
          Action.set i name (← e.2.read))
        (do
          let name ← (e.1.raise n).read
          Action.set (raised n i) name (← (e.2.raise n).read)) :=
      (follows_read e.1).bind fun name => (follows_read e.2).bind fun w => Action.follows_set i name w
    exact hset.bind fun _ => ih

section

variable {render : Renderer} (hrender : render.Follows n)

include hrender

theorem follows_generateWith {v : Value} (hv : v.IsIssued m) (id : Nat) :
    Follows n m (fun t => t) (generateWith render v id) (generateWith render (v.raise n) (raised n id)) := by
  refine ((Follows.bind (hrender m v id none hv (by simp)) fun t => ?_).counted _ _).logged
  refine (Action.follows_generator id).bind fun g => ?_
  have hascii : (g.raise n).asciiOnly.isTrue = g.asciiOnly.isTrue := Value.isTrue_raise _
  rw [hascii]
  exact (follows_same _).bind fun _ => follows_pure t

theorem follows_call {e : Extension Value} (he : Value.ExtensionIsIssued m e) (id : Nat) :
    Follows n m (Value.raise n) (e.call render id)
      (Extension.call render (raised n id) (Value.raiseExtension n e)) := by
  have hstr (t : Text) : Value.str t = (Value.str t).raise n := rfl
  have hoptional (m : Nat) (v : Option Value) : Follows n m (Option.map (Value.raise n))
      (Action.readOptional v) (Action.readOptional (Value.raiseOptional n v)) := by
    rw [Value.raiseOptional_eq_map]
    exact follows_readOptional v
  -- Reading gives identities, so after it more of them were given.
  cases e with
  | literal v => exact follows_read v
  | point x y =>
    refine (follows_read x).bind_of (issues_read x he.1) fun m₁ x' hm₁ hx => ?_
    have hy := Value.IsIssued.mono hm₁ y he.2
    refine (follows_read y).bind_of (issues_read y hy) fun m₂ y' hm₂ hy => ?_
    have hpoint : (Value.dictionary [(.str (text "x"), x'), (.str (text "y"), y')]).IsIssued m₂ :=
      ⟨⟨trivial, Value.IsIssued.mono hm₂ x' hx⟩, ⟨trivial, hy⟩, trivial⟩
    exact (follows_generateWith hrender hpoint id).map hstr
  | depthText =>
    refine (Action.follows_generator id).bind fun g => ?_
    exact (Action.follows_shown g.depth).map hstr
  | stateText => exact (Action.follows_literal (.generator id)).map hstr
  | delegate v depth =>
    refine (follows_read v).bind_of (issues_read v he.1) fun m₁ w hm₁ hw => ?_
    have hdepth := Value.OptionIsIssued.mono hm₁ depth he.2
    refine (hoptional m₁ depth).bind_of (issues_readOptional depth hdepth) fun m₂ d hm₂ hd => ?_
    have hgiven : ∀ d' ∈ Value.given? d, d'.IsBounded m₂ :=
      fun d' hd' => .inr (Value.isIssued_given? hd d' hd')
    rw [Value.given?_raise]
    exact (hrender m₂ w id (Value.given? d) (Value.IsIssued.mono hm₂ w hw) hgiven).map hstr
  | reconfigured v config =>
    refine (follows_read v).bind_of (issues_read v he.1) fun m' w _ hw => ?_
    refine (hoptional m' config).bind fun c => ?_
    have hgetD : (c.map (Value.raise n)).getD .null = (c.getD .null).raise n := by cases c <;> rfl
    rw [hgetD]
    refine (Action.follows_resolve _).bind fun id' => ?_
    exact (follows_generateWith hrender hw id').map hstr
  | mutator settings v =>
    refine (follows_settings id settings).bind fun _ => ?_
    refine (follows_read v).bind_of (issues_read v he.2) fun m' w _ hw => ?_
    exact (follows_generateWith hrender hw id).map hstr
  | capture slot v => exact (Action.follows_setSlot slot id).bind fun _ => follows_read v
  | raiser error message => exact follows_fail _

theorem follows_write (g : Generator) :
    Render.Extender.Follows n (Extension.write render g) (Extension.write render (g.raise n)) := by
  intro m e depth he hd
  have hkind : (Value.raiseExtension n e).kind = e.kind := Value.kind_raise (.extension e)
  refine (Action.follows_copy g).bind fun id => Follows.bind_generator id fun m' g' hm hg' => ?_
  rw [Generator.put_raise]
  have hplaced : (g'.put .depth depth).IsBounded m' := (closed_isBounded m').place hg' (hd.mono hm)
  refine (Action.follows_replace id hplaced).bind fun _ => ?_
  refine (follows_call hrender (Value.ExtensionIsIssued.mono hm e he) id).bind fun result => ?_
  rw [Value.text?_raise, Value.kind_raise, hkind]
  cases result.text? with
  | some t => exact follows_pure t
  | none => exact follows_fail _

end

/-! ## Rendering and generating -/

theorem follows_renderAt (level : Nat) : (renderAt level).Follows n := by
  have hstep {level : Nat} (h : ∀ g : Generator, Render.Extender.Follows n
      (Extension.writeAt g level) (Extension.writeAt (g.raise n) level)) :
      (renderAt level).Follows n := by
    intro m v id depth hv hd
    rw [renderAt_eq, renderAt_eq]
    refine Follows.bind_generator id fun m' g hm hg => ?_
    have hdepth : (depth.getD g.depth).IsBounded m' := by
      cases depth with
      | none => exact hg .depth
      | some d => exact (hd d rfl).mono hm
    have hgetD : (depth.map (Value.raise n)).getD (g.raise n).depth = (depth.getD g.depth).raise n := by
      cases depth <;> rfl
    rw [hgetD, Generator.format_raise]
    have hparts := Render.follows_parts (h g) g.format (Value.IsIssued.mono hm v hv) hdepth
    exact (hparts.counted _ _).bind fun parts => follows_same (Render.Part.join parts)
  -- An object takes one level, and renders with the levels below it.
  induction level with
  | zero => exact hstep fun _ _ _ _ _ _ => follows_fail _
  | succ level ih => exact hstep fun g => follows_write ih g

theorem follows_generate {v : Value} (hv : v.IsIssued m) (id : Nat) :
    Follows n m (fun t => t) (generate v id) (generate (v.raise n) (raised n id)) := by
  refine follows_generateWith (fun m w id depth hw hd => ?_) hv id
  rw [render, render, Value.rank_raise]
  exact follows_renderAt w.rank m w id depth hw hd

/-! ## A generator that nothing knows of -/

/-- The value holds no generator with a number from `n` on. -/
def Value.IsBelow (n : Nat) (v : Value) : Prop := v.raise n = v

/-- The generators and slots of the session know no generators but its own, and the containers in
settings have identities that were given. -/
structure Session.IsClosed (s : Session) : Prop where
  generator : ∀ id g, s.generator? id = some g → g.raise s.generators.size = g
  identity : ∀ id g, s.generator? id = some g → g.IsBounded s.identities
  slot : ∀ name id, s.slot? name = some id → id < s.generators.size

section

variable {s : Session} (hs : s.IsClosed) (g : Generator) (log : Array Record)

include hs

theorem Session.IsClosed.raised : s.Raised s.generators.size
    { s with generators := s.generators.push g, log := log } where
  identities := rfl
  le := Nat.le_refl _
  size := Array.size_push g
  generator? id := by
    simp only [Session.generator?, Array.getElem?_push]
    obtain hid | hid := Nat.lt_or_ge id s.generators.size
    · obtain ⟨g', hg'⟩ : ∃ g', s.generators[id]? = some g' := ⟨_, Array.getElem?_eq_getElem hid⟩
      rw [raised_of_lt hid, if_neg hid.ne, hg', Option.map_some, hs.generator id g' hg']
    · have hnone : s.generators[id]? = none := Array.getElem?_eq_none hid
      have hnone' : s.generators[id + 1]? = none := Array.getElem?_eq_none (Nat.le_succ_of_le hid)
      rw [raised_of_le hid, if_neg (by omega), hnone, hnone']
      rfl
  slot? name := by
    have hname := hs.slot name
    simp only [Session.slot?] at hname ⊢
    cases hslot : (s.slots.find? fun e => e.1 == name).map (·.2) with
    | none => rfl
    | some id => rw [Option.map_some, raised_of_lt (hname id hslot)]
  bounded := hs.identity

/-- Another generator in the session does not change what a value comes to that does not hold it. -/
theorem generate_push {v : Value} (hv : v.IsBelow s.generators.size)
    (hissued : v.IsIssued s.identities) {id : Nat} (hid : id < s.generators.size) :
    (generate v id { s with generators := s.generators.push g, log := log }).1 = (generate v id s).1 := by
  have hfollows := (follows_generate hissued id s _ (hs.raised g log) (Nat.le_refl _)).1
  have hmap (r : Except Fault Text) : r.map (fun t => t) = r := by cases r <;> rfl
  rwa [hv, raised_of_lt hid, hmap] at hfollows

end

end JsonWriter
