import JsonWriter.Script
import JsonWriter.Proofs.Session.Rendering

/-!
# What steps do to the generators of a session

A step writes to the generator in its own slot if it configures it or sets something in it, and to no
other generator that it finds, however it ends. Main statement: `script_keeps`, over a whole script.
-/

namespace JsonWriter

open JsonWriter.Action (Ensures ensures_pure ensures_fail ensures_ofExcept)

section

variable {base : Session} {target : Option Nat} {made : Generator → Prop} {placed : Value → Prop}

/-! ## Operations without generators -/

theorem Report.ensures_make (name : Text) (args : List Value) :
    Ensures (base.Within target made) (fun _ => True) (Report.make name args) := by
  have hshown (v : Value) : Ensures (base.Within target made) (fun _ => True) (Action.shown v) :=
    (Action.isCalm_shown v).ensures
  have hmessage : Ensures (base.Within target made) (fun _ => True) (Report.messageOf args) := by
    unfold Report.messageOf
    split
    · exact ensures_pure trivial
    · exact hshown _
    · exact Action.ensures_literal _
  unfold Report.make
  split
  · refine (Action.ensures_any _).bind fun _ _ => ?_
    have hrest : Ensures (base.Within target made) (fun _ => True) (do
        Action.ofExcept (Report.checkByte (args.getD 2 .null))
        return Report.encoding (← Action.shown (args.getD 0 .null)) (args.getD 1 (.str []))
          (args.getD 2 .null)) :=
      (Action.ensures_any _).bind fun _ _ => (hshown _).bind fun _ _ => ensures_pure trivial
    simp only
    split
    · exact Action.ensures_fail_bind _ _
    · exact hrest
  · split
    · refine (Action.ensures_any _).bind fun _ _ => ?_
      exact (hshown _).bind fun _ _ => ensures_pure trivial
    · split
      · exact (Action.ensures_any _).bind fun _ _ => ensures_pure trivial
      · exact hmessage.bind fun _ _ => ensures_pure trivial

namespace RawObject

theorem ensures_bytes (index : Nat) (vs : List Value) :
    Ensures (base.Within target made) (fun _ => True) (bytes index vs) := by
  induction vs generalizing index with
  | nil => exact ensures_pure trivial
  | cons v rest ih =>
    rw [bytes]
    split
    · exact (Action.ensures_literal v).bind fun _ _ => ensures_fail _
    · split
      · exact (ih (index + 1)).bind fun _ _ => ensures_pure trivial
      · exact (Action.isCalm_shown v).ensures.bind fun _ _ => ensures_fail _

theorem ensures_unwrap (v : Value) (expected : Option Value) :
    Ensures (base.Within target made) (fun _ => True) (unwrap v expected) := by
  have hbytes (kind : BinaryKind) (items : List Value) : Ensures (base.Within target made)
      (fun _ => True) (do return Value.binary kind (← bytes 0 items)) :=
    (ensures_bytes 0 items).bind fun _ _ => ensures_pure trivial
  unfold unwrap
  split
  · simp only
    split
    · split
      · split
        · exact (Action.ensures_literal _).bind fun _ _ => (Action.ensures_literal _).bind fun _ _ =>
            Action.ensures_fail_bind _ _
        · split
          · exact hbytes _ _
          · exact ensures_fail _
      · split
        · exact hbytes _ _
        · exact ensures_fail _
    · exact (Action.ensures_literal _).bind fun _ _ => ensures_fail _
  · exact ensures_fail _

end RawObject

variable (hc : Generator.Closed made placed)

include hc

/-! ## Operations -/

/-- The objects that the operation renders do so at depths of the kind, and so does the operation. -/
def Operation.IsPlaced (placed : Value → Prop) : Operation → Prop
  | generate v _ | prettyGenerate v _ | fastGenerate v _ => v.ArePlaced placed
  | render v _ depth => v.ArePlaced placed ∧ Value.IsPlaced placed depth
  | _ => True

theorem Operation.ensures_arguments (v : Value) (config : Option Value) :
    Ensures (base.Within target made) (fun a => v.ArePlaced placed → a.1.ArePlaced placed)
      (arguments v config) :=
  (ensures_read hc v).bind fun _ hw => (Action.ensures_readOptional hc config).bind fun _ _ =>
    ensures_pure hw

/-- No operation writes to a generator that it finds. -/
theorem Operation.ensures_run {op : Operation} (h : op.IsPlaced placed) :
    Ensures (base.Within target made) (fun _ => True) op.run := by
  have hread (v : Value) : Ensures (base.Within target made) (fun _ => True) v.read :=
    Action.ensures_reading hc v
  have hitems (vs : List Value) : Ensures (base.Within target made) (fun _ => True)
      (Value.readItems vs) := by
    have hhosts : Ensures (base.Within target made)
        (fun ws => Value.AllHost (fun _ => True) vs → Value.AllHost (fun _ => True) ws)
        (Value.readItems vs) := ensures_readItems hc vs
    exact hhosts.mono fun _ _ => trivial
  cases op with
  | generate v config =>
    refine (ensures_arguments hc v config).bind fun a ha => ?_
    exact (ensures_generateConfigured hc (ha h) a.2).bind fun _ _ => ensures_pure trivial
  | prettyGenerate v config =>
    refine (ensures_arguments hc v config).bind fun a ha => ?_
    exact (ensures_prettyGenerate hc (ha h) a.2).bind fun _ _ => ensures_pure trivial
  | fastGenerate v config =>
    refine (ensures_arguments hc v config).bind fun a ha => ?_
    exact (ensures_fastGenerate hc (ha h) a.2).bind fun _ _ => ensures_pure trivial
  | toJsonRaw data config =>
    refine (ensures_arguments hc data config).bind fun a _ => ?_
    have hwrap : ∀ v, RawObject.wrap a.1 = .ok v → v.ArePlaced placed := by
      intro v hv
      unfold RawObject.wrap at hv
      split at hv
      · obtain rfl := Except.ok.inj hv
        exact Value.deep_hosts.mapping.mpr (Value.deep_hosts.rawEntries _ _)
      · cases hv
    refine (ensures_ofExcept hwrap).bind fun v hv => ?_
    exact (ensures_generateConfigured hc hv a.2).bind fun _ _ => ensures_pure trivial
  | render v config depth =>
    refine (ensures_arguments hc v config).bind fun a ha => ?_
    refine (h.2.ensures hc).bind fun d hd => (Action.ensures_resolve hc a.2).bind fun id _ => ?_
    exact (ensures_render hc a.1 id _ (ha h.1) hd).bind fun _ _ => ensures_pure trivial
  | escape asciiOnly data =>
    refine (hread data).bind fun v _ => (Action.ensures_any _).bind fun raw _ => ?_
    exact ((Action.ensures_any _).counted _ _).bind fun _ _ => ensures_pure trivial
  | rawObject data =>
    exact (hread data).bind fun _ _ => (Action.ensures_any _).bind fun _ _ => ensures_pure trivial
  | fromRawObject v expected =>
    refine (hread v).bind fun w _ => (Action.ensures_readOptional hc expected).bind fun _ _ => ?_
    split
    · exact (RawObject.ensures_unwrap _ _).bind fun _ _ => ensures_pure trivial
    · exact (RawObject.ensures_unwrap _ _).bind fun _ _ => ensures_pure trivial
    · exact (RawObject.ensures_unwrap _ _).bind fun _ _ => ensures_pure trivial
  | escapeTable byte =>
    cases byte with
    | none => exact ensures_pure trivial
    | some byte =>
      exact (hread byte).bind fun _ _ => (Action.ensures_any _).bind fun _ _ => ensures_pure trivial
  | settings => exact ensures_pure trivial
  | newReport name args =>
    exact (hitems args).bind fun _ _ => (Report.ensures_make name _).bind fun _ _ =>
      ensures_pure trivial
  | tally name calls =>
    exact (Ensures.mapM hitems).bind fun _ _ => (Action.ensures_any _).bind fun _ _ =>
      ensures_pure trivial

/-! ## Commands -/

/-- What the command renders, it renders at depths of the kind. -/
def Command.IsPlaced (placed : Value → Prop) : Command → Prop
  | generate value => value.ArePlaced placed
  | call operation => operation.IsPlaced placed
  | count _ _ value => ∀ v ∈ value, v.ArePlaced placed
  | _ => True

/-- A value that the command assigns directly makes generators of the kind of those of the kind. -/
def Command.AssignsWithin (made : Generator → Prop) : Command → Prop
  | assign name value => ∀ s v, (value.read s).1 = .ok v → ∀ g g', made g →
    assignTo g name v = .ok g' → made g'
  | _ => True

omit hc in
theorem Command.isPlaced_all (c : Command) : c.IsPlaced fun _ => True := by
  cases c with
  | generate value => exact value.arePlaced_all
  | call operation =>
    cases operation with
    | generate v | prettyGenerate v | fastGenerate v => exact v.arePlaced_all
    | render v _ depth => exact ⟨v.arePlaced_all, fun _ _ _ _ _ => trivial⟩
    | _ => trivial
  | count name size value => exact fun v _ => v.arePlaced_all
  | _ => trivial

/-- The command is about changing the generator in its slot. -/
def Command.isChange : Command → Bool
  | configure _ | set _ _ | assign _ _ => true
  | _ => false

theorem Command.ensures_run {c : Command} (h : c.IsPlaced placed) (hchange : c.isChange = false)
    (slot : Text) : Ensures (base.Within target made) (fun _ => True) (c.run slot) := by
  have hread (v : Value) : Ensures (base.Within target made) (fun _ => True) v.read :=
    Action.ensures_reading hc v
  have hslot : Ensures (base.Within target made) (fun _ => True) (Action.slot slot) :=
    Action.ensures_slot slot
  have hdone (name : Text) (id : Nat) : Ensures (base.Within target made) (fun _ => True)
      (do Action.setSlot name id; return done) :=
    (Action.ensures_setSlot name id).bind fun _ _ => ensures_pure trivial
  cases c with
  | new options =>
    exact (Action.ensures_readOptional hc options).bind fun _ _ =>
      (Action.ensures_buildOptional hc _).bind fun id _ => hdone slot id
  | default => exact (Action.ensures_build hc _).bind fun id _ => hdone slot id
  | pretty => exact (Action.ensures_build hc _).bind fun id _ => hdone slot id
  | fromConfiguration source =>
    exact (Action.ensures_readOptional hc source).bind fun _ _ =>
      (Action.ensures_resolve hc _).bind fun id _ => hdone slot id
  | configure options => cases hchange
  | get name =>
    exact hslot.bind fun id _ => (hread name).bind fun name _ =>
      (Action.ensures_get hc id name).bind fun _ _ => ensures_pure trivial
  | set name value => cases hchange
  | inspect name =>
    exact hslot.bind fun id _ => (Action.ensures_generator hc id).bind fun _ _ =>
      (Action.ensures_any _).bind fun _ _ => ensures_pure trivial
  | assign name value => cases hchange
  | checkNesting depth =>
    exact hslot.bind fun id _ => (Action.ensures_readOptional hc depth).bind fun _ _ =>
      (Action.ensures_generator hc id).bind fun _ _ =>
        (Action.ensures_any _).bind fun _ _ => ensures_pure trivial
  | copy other =>
    exact hslot.bind fun id _ => (Action.ensures_generator hc id).bind fun g _ =>
      (Action.ensures_copy hc g).bind fun id _ => hdone other id
  | equal other =>
    refine hslot.bind fun id _ => (hread other).bind fun _ _ => ?_
    split
    · exact (Action.ensures_equal id _).bind fun _ _ => ensures_pure trivial
    · exact ensures_pure trivial
  | same other =>
    refine hslot.bind fun id _ => (hread other).bind fun _ _ => ?_
    split
    · exact ensures_pure trivial
    · exact ensures_pure trivial
  | literal =>
    exact hslot.bind fun id _ => (Action.ensures_literal _).bind fun _ _ => ensures_pure trivial
  | hash => exact hslot.bind fun id _ => ensures_fail _
  | generate value =>
    exact hslot.bind fun id _ => (ensures_read hc value).bind fun _ hw =>
      (ensures_generate hc (hw h) id).bind fun _ _ => ensures_pure trivial
  | call operation => exact Operation.ensures_run hc h
  | statistics | keepStatistics | keptStatistics | clearStatistics =>
    exact Action.ensures_same fun _ => rfl
  | count name size value =>
    refine (Action.ensures_readOptional hc size).bind fun _ _ => ?_
    have hvalue : Ensures (base.Within target made) (fun w => ∀ v ∈ w, v.ArePlaced placed)
        (Action.readOptional value) := by
      cases value with
      | none => exact ensures_pure (by simp)
      | some v =>
        exact (ensures_read hc v).bind fun w hw => ensures_pure (by simpa using hw (h v rfl))
    refine hvalue.bind fun w hw => ?_
    have hcounted {body : Action Unit}
        (hbody : Ensures (base.Within target made) (fun _ => True) body) (size : Value) :
        Ensures (base.Within target made) (fun _ => True)
          (do Action.countedAs name size body; return truth true) :=
      (hbody.countedAs name size).bind fun _ _ => ensures_pure trivial
    refine hcounted ?_ _
    split
    · exact (ensures_generateConfigured hc (hw _ rfl) _).bind fun _ _ => ensures_pure trivial
    · exact ensures_pure trivial

/-- A command that is about changing the generator in its slot writes to no other one. -/
theorem Command.ensures_change {c : Command} (h : c.AssignsWithin made) (hchange : c.isChange = true)
    {slot : Text} {s : Session} (hs : ∀ id g, s.generator? id = some g → made g) :
    s.Within (s.slot? slot) made (c.run slot s).2 := by
  have hread (v : Value) : Ensures (s.Within (s.slot? slot) made) (fun _ => True) v.read :=
    Action.ensures_reading hc v
  -- The slot is looked up before anything else, so what it holds is what it held before the step.
  have hslot {k : Nat → Action Result}
      (hk : ∀ id, s.slot? slot = some id →
        Ensures (s.Within (s.slot? slot) made) (fun _ => True) (k id)) :
      s.Within (s.slot? slot) made ((Action.slot slot >>= k) s).2 := by
    rw [Action.bind_apply, Action.slot]
    cases hid : s.slot? slot with
    | none => exact .refl hs
    | some id =>
      have hrun := (hk id hid s (.refl hs)).1
      rwa [hid] at hrun
  cases c with
  | configure options =>
    exact hslot fun id hid => (hread options).bind fun v _ =>
      (Action.ensures_configure hc (.inr hid) v).bind fun _ _ => ensures_pure trivial
  | set name value =>
    exact hslot fun id hid => (hread name).bind fun n _ => (hread value).bind fun v _ =>
      (Action.ensures_set hc (.inr hid) n v).bind fun _ _ => ensures_pure trivial
  | assign name value =>
    have hvalue : Ensures (s.Within (s.slot? slot) made)
        (fun v => ∀ g g', made g → assignTo g name v = .ok g' → made g') value.read :=
      fun t ht => ⟨(hread value t ht).1, h t⟩
    exact hslot fun id hid => hvalue.bind fun v hv => (Action.ensures_generator hc id).bind fun g hg =>
      (ensures_ofExcept fun g' hg' => hv g g' hg hg').bind fun g' hg' =>
        (Action.ensures_replace (.inr hid) hg').bind fun _ _ => ensures_pure trivial
  | _ => cases hchange

end

/-! ## Steps and scripts -/

namespace Step

/-- The generator that a step may write to. -/
def target? (st : Step) (s : Session) : Option Nat :=
  if st.command.isChange then s.slot? st.slot else none

/-- The session after some steps. -/
def after (steps : List Step) (s : Session) : Session :=
  ((steps.mapM Step.run : StateM Session (List Row)) s).2

/-- The generators that some steps may write to, each when its turn comes. -/
def targets : List Step → Session → List Nat
  | [], _ => []
  | st :: rest, s => (st.target? s).toList ++ targets rest (st.run s).2

theorem after_cons (st : Step) (rest : List Step) (s : Session) :
    after (st :: rest) s = after rest (st.run s).2 := by
  rw [after, List.mapM_cons]
  rfl

theorem after_append (steps rest : List Step) (s : Session) :
    after (steps ++ rest) s = after rest (after steps s) := by
  induction steps generalizing s with
  | nil => rfl
  | cons st steps ih => rw [List.cons_append, after_cons, after_cons, ih]

section

variable {made : Generator → Prop} {placed : Value → Prop} (hc : Generator.Closed made placed)

include hc

theorem run_within {st : Step} (hplaced : st.command.IsPlaced placed)
    (hassigns : st.command.AssignsWithin made) {s : Session}
    (hs : ∀ id g, s.generator? id = some g → made g) :
    s.Within (st.target? s) made (st.run s).2 := by
  rw [target?]
  cases hchange : st.command.isChange with
  | true => exact Command.ensures_change hc hassigns hchange hs
  | false => exact (Command.ensures_run hc hplaced hchange st.slot s (.refl hs)).1

/-- Scripts make generators of the kind. -/
theorem made_of_after {steps : List Step} (hplaced : ∀ st ∈ steps, st.command.IsPlaced placed)
    (hassigns : ∀ st ∈ steps, st.command.AssignsWithin made) {s : Session}
    (hs : ∀ id g, s.generator? id = some g → made g) :
    ∀ id g, (after steps s).generator? id = some g → made g := by
  induction steps generalizing s with
  | nil => exact hs
  | cons st rest ih =>
    obtain ⟨hplaced, hplaceds⟩ := List.forall_mem_cons.mp hplaced
    obtain ⟨hassign, hassigns⟩ := List.forall_mem_cons.mp hassigns
    rw [after_cons]
    exact ih hplaceds hassigns (run_within hc hplaced hassign hs).made

end

/-- A step leaves every generator that it finds as it is, apart from the one in its own slot if the
step configures it or sets something in it. -/
theorem run_keeps (st : Step) {s : Session} {id : Nat} {g : Generator}
    (hg : s.generator? id = some g) (hid : st.target? s ≠ some id) :
    (st.run s).2.generator? id = some g := by
  have hassigns : st.command.AssignsWithin fun _ => True := by
    cases st.command with
    | assign name value => exact fun _ _ _ _ _ _ _ => trivial
    | _ => trivial
  exact (run_within Generator.closed_all st.command.isPlaced_all hassigns fun _ _ _ => trivial).kept
    id g hg hid

theorem after_keeps {steps : List Step} {s : Session} {id : Nat} {g : Generator}
    (hg : s.generator? id = some g) (hid : id ∉ targets steps s) :
    (after steps s).generator? id = some g := by
  induction steps generalizing s with
  | nil => exact hg
  | cons st rest ih =>
    obtain ⟨hhead, hrest⟩ := not_or.mp fun h => hid (List.mem_append.mpr h)
    rw [after_cons]
    exact ih (run_keeps st hg fun h => hhead (h ▸ List.mem_singleton_self id)) hrest

end Step

/-- Whatever a script holds, each of its steps leaves every generator that it finds as it is, with all
settings and unknown keys, however the step ends and by whatever slots the generator is known, apart
from the one in the step's own slot if the step configures it or sets something in it. So the whole
script leaves those as they are that no such step is about. -/
theorem script_keeps (steps : List Step) (s : Session) :
    (∀ before st rest id g, steps = before ++ st :: rest →
      (Step.after before s).generator? id = some g → st.target? (Step.after before s) ≠ some id →
        (Step.after (before ++ [st]) s).generator? id = some g) ∧
    ∀ id g, s.generator? id = some g → id ∉ Step.targets steps s →
      (Step.after steps s).generator? id = some g := by
  refine ⟨fun before st rest id g _ hg hid => ?_, fun id g hg hid => Step.after_keeps hg hid⟩
  rw [Step.after_append]
  exact Step.run_keeps st hg hid

/-- A generator in two slots, and another one. -/
def sharedSetup : List Step :=
  [⟨text "a", .new (some (.dictionary [(.str (text "space"), .str (text " ")),
      (.str (text "origin"), .int 1)]))⟩,
    ⟨text "b", .fromConfiguration (some (.described (.slot (text "a"))))⟩, ⟨text "c", .default⟩]

/-- The generator in two slots. -/
def sharedGenerator : Generator :=
  { Generator.initial with
    space := .str (text " "), unknown := [(.str (text "origin"), .int 1)] }

/-- Changes the other generator. -/
def otherChange : Step := ⟨text "c", .set (.str (text "space")) (.str (text "\t"))⟩

/-- Generates with the shared generator what changes and keeps the generator that it is given, and then
goes wrong. -/
def sharedUse : Step :=
  ⟨text "b", .generate (.list
    [.extension (.mutator [(.str (text "depth"), .int 7)] (.extension (.capture (text "d") .null))),
      .extension (.raiser .runtime [])])⟩

theorem script_keeps_sharedGenerator :
    let s := Step.after sharedSetup (Session.initial true)
    let t := Step.after [otherChange] s
    s.generator? 0 = some sharedGenerator ∧ t.slot? (text "b") = some 0 ∧
      Step.targets [otherChange, sharedUse] s = [1] ∧
      (Step.after ([otherChange] ++ [sharedUse]) s).generator? 0 = some sharedGenerator ∧
      (Step.after [otherChange, sharedUse] s).generator? 0 = some sharedGenerator := by
  intro s t
  have hs : s.generator? 0 = some sharedGenerator := rfl
  have ht : t.generator? 0 = some sharedGenerator := rfl
  have htargets : Step.targets [otherChange, sharedUse] s = [1] := rfl
  have hkeeps := script_keeps [otherChange, sharedUse] s
  exact ⟨hs, rfl, htargets, hkeeps.1 [otherChange] sharedUse [] 0 _ rfl ht nofun,
    hkeeps.2 0 _ hs (by rw [htargets]; decide)⟩

end JsonWriter
