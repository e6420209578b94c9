import JsonWriter.Proofs.Configuration.Depths
import JsonWriter.Proofs.Session.Following

/-!
# Scripts without direct assignment

Without direct assignment every generator that a script makes is of the right types and can be made
again from its entries, but for the depth of what is made for an object that writes itself. Main
statement: `script_sound`.
-/

namespace JsonWriter

namespace Generator

/-- Every setting but the depth is of its type and in its range, and no unknown key names a setting. -/
structure IsSoundButDepth (g : Generator) : Prop where
  text : ∀ s ∈ Setting.layout, ∃ t, (g.get s).text? = some t
  maxNesting : ∃ n, g.maxNesting.wholeNumber? = some n ∧ 0 ≤ n
  allowNan : ∃ b, g.allowNan = .bool b
  asciiOnly : ∃ b, g.asciiOnly = .bool b
  bufferLength : ∃ n, g.bufferLength.wholeNumber? = some n ∧ 0 < n
  unknown : ∀ e ∈ g.unknown, e.1.setting? = none

/-- Every setting is of its type and in its range, and no unknown key names a setting. -/
structure IsSound (g : Generator) : Prop extends g.IsSoundButDepth where
  depth : ∃ n, g.depth.wholeNumber? = some n ∧ 0 ≤ n

/-- In every session the generator is copied, and the copy has the same entries in the same order. Only a
zero of a derived type gives way to a plain one. -/
def IsCopied (g : Generator) : Prop :=
  ∃ g' : Generator,
    (∀ s, ∃ log, Action.copy g s = (.ok s.generators.size,
      { s with generators := s.generators.push g', log := log })) ∧
    List.Forall₂ (fun e e' =>
      e'.1 = e.1 ∧ (e'.2 = e.2 ∨ e.2.wholeNumber? = some 0 ∧ e'.2 = .int 0)) g.entries g'.entries

theorem IsSettled.isSoundButDepth {g : Generator} (hg : g.IsSettled) : g.IsSoundButDepth where
  text _ hs := hg.text hs
  maxNesting := hg.maxNesting_isDepth
  allowNan := ⟨_, (hg.checked .allowNan).symm⟩
  asciiOnly := ⟨_, (hg.checked .asciiOnly).symm⟩
  bufferLength := by
    obtain ⟨w, hw⟩ := hg.setting .bufferLength
    obtain ⟨n, hn, hpos⟩ := hg.positive
    cases hwhole : g.bufferLength.wholeNumber? with
    | none => simp [Setting.check, Generator.get, hwhole] at hw
    | some m =>
      obtain rfl := Option.some.inj (hn.symm.trans (Value.int?_of_wholeNumber? hwhole))
      exact ⟨n, rfl, hpos⟩
  unknown e he := (hg.unknown e he).1

theorem IsSettled.isSound {g : Generator} (hg : g.IsSettled) : g.IsSound :=
  { hg.isSoundButDepth with depth := hg.depth_isDepth }

theorem IsSettled.isCopied {g : Generator} (hg : g.IsSettled) : g.IsCopied := by
  obtain ⟨ignored, hcopy⟩ := copy_of_isSettled hg
  exact ⟨g.copied, fun s => ⟨_, Action.build_apply s hcopy⟩, entries_copied hg⟩

theorem IsSettledButDepth.isSoundButDepth {g : Generator} (hg : g.IsSettledButDepth) :
    g.IsSoundButDepth :=
  have hsound := IsSettled.isSoundButDepth hg
  { hsound with
    text := fun s hs => by
      have hdepth : s ≠ .depth := by
        rintro rfl
        exact absurd hs (by decide)
      have htext := hsound.text s hs
      rwa [get_put, if_neg hdepth] at htext }

theorem IsSettledButDepth.dictionary? {g : Generator} (hg : g.IsSettledButDepth) :
    Keyed.dictionary? [] g.entries = .ok g.entries := by
  have hdistinct : Keyed.IsDistinct ([] ++ g.entries) := entries_isDistinct hg.unknown hg.differ
  exact Keyed.dictionary?_of_isDistinct hdistinct

theorem IsSettledButDepth.isSettled {g : Generator} (hg : g.IsSettledButDepth) (hsound : g.IsSound) :
    g.IsSettled := isSettled_iff.mpr ⟨hg, hsound.depth⟩

/-- Only a depth that fails its check keeps such a generator from being copied. -/
theorem IsSettledButDepth.copied_or_refused {g : Generator} (hg : g.IsSettledButDepth) :
    (g.depth.IsDepth → g.IsSound ∧ g.IsCopied) ∧
    (¬ g.depth.IsDepth → ∃ f, Setting.depth.check g.depth = .error f ∧
      ∀ s, Action.copy g s = (.error f, s)) := by
  refine ⟨fun hdepth => ?_, fun hdepth => ?_⟩
  · have hsettled := isSettled_iff.mpr ⟨hg, hdepth⟩
    exact ⟨hsettled.isSound, hsettled.isCopied⟩
  · cases hcheck : Setting.depth.check g.depth with
    | ok w => exact absurd (Value.isDepth_of_check hcheck) hdepth
    | error f => exact ⟨f, rfl, fun s => Action.build_refused s (copy_of_check_depth hg hcheck)⟩

end Generator

/-- A command that assigns nothing directly makes nothing by that. -/
theorem Command.assignsWithin_of_isChecked {c : Command} (hc : c.isChecked = true)
    (made : Generator → Prop) : c.AssignsWithin made := by
  cases c with
  | assign name value => cases hc
  | _ => trivial

/-- What the command assigns directly are whole numbers or truth values. -/
def Command.AssignsNumbers : Command → Prop
  | assign _ value => ∀ s v, (value.read s).1 = .ok v → ∃ n, v.int? = some n
  | _ => True

theorem Value.isPositive_of_int? {v : Value} {n : Int} (h : v.int? = some n) :
    v.isPositive = .ok (decide (0 < n)) := by
  obtain ⟨x, hx, hn⟩ := number?_of_int? h
  have hexceeds : x.exceeds (.whole 0) = decide (0 < n) := by
    cases x <;> simp_all [Number.whole?, Number.exceeds, Number.dyadic?]
  rw [isPositive, hx, ← hexceeds]

theorem Generator.assign_bufferLength (g : Generator) {v : Value} {n : Int} (h : v.int? = some n) :
    g.assign .bufferLength v = .ok (if 0 < n then g.put .bufferLength v else g) := by
  simp [assign, Value.isPositive_of_int? h, Except.map]

theorem Command.assignsWithin_positive {c : Command} (h : c.AssignsNumbers) :
    c.AssignsWithin fun g => ∃ n, g.bufferLength.int? = some n ∧ 0 < n := by
  cases c with
  | assign name value =>
    intro s v hv g g' hg hassign
    obtain ⟨n, hn⟩ := h s v hv
    unfold assignTo at hassign
    split at hassign
    · next t _ =>
      by_cases ht : t = .bufferLength
      · rw [ht, Generator.assign_bufferLength g hn, Except.ok.injEq] at hassign
        subst hassign
        split
        · next hpos => exact ⟨n, hn, hpos⟩
        · exact hg
      · rw [Generator.assign, if_neg ht, Except.ok.injEq] at hassign
        subst hassign
        have hbuffer : (g.put t v).bufferLength = g.bufferLength :=
          (Generator.get_put g t .bufferLength v).trans (if_neg (Ne.symm ht))
        rw [hbuffer]
        exact hg
    · cases hassign
  | _ => trivial

/-! ## All that a script makes -/

namespace Session

variable {profiling : Bool}

theorem generator?_initial (id : Nat) : (initial profiling).generator? id = none := by
  simp [initial, generator?]

end Session

section

variable {profiling : Bool} {steps : List Step} (hsteps : ∀ st ∈ steps, st.command.isChecked = true)

include hsteps

/-- All generators are settled but for the depth, which is of any kind that valid depths and the depths
of renderings are of, and with each depth the next one further in. -/
theorem after_isSettledButDepth {placed : Value → Prop} (hdepth : ∀ d, d.IsDepth → placed d)
    (hsucc : ∀ d inner, placed d → d.succ = .ok inner → placed inner.value)
    (hplaced : ∀ st ∈ steps, st.command.IsPlaced placed) {id : Nat} {g : Generator}
    (hg : (Step.after steps (Session.initial profiling)).generator? id = some g) :
    g.IsSettledButDepth ∧ placed g.depth := by
  refine Step.made_of_after (Generator.closed_isSettledButDepth hdepth hsucc) hplaced
    (fun st hst => Command.assignsWithin_of_isChecked (hsteps st hst) _) (fun id g h => ?_) id g hg
  cases (Session.generator?_initial id).symm.trans h

theorem after_isSettledButDepth_all {id : Nat} {g : Generator}
    (hg : (Step.after steps (Session.initial profiling)).generator? id = some g) :
    g.IsSettledButDepth :=
  (after_isSettledButDepth hsteps (fun _ _ => trivial)
    (fun _ _ _ _ => trivial) (fun st _ => st.command.isPlaced_all) hg).1

/-- A sound generator stays sound, whatever is done next. -/
theorem isSound_after {more : List Step} (hmore : ∀ st ∈ more, st.command.isChecked = true) {id : Nat}
    {g : Generator} (hg : (Step.after steps (Session.initial profiling)).generator? id = some g)
    (hsound : g.IsSound) :
    ∃ h, (Step.after (steps ++ more) (Session.initial profiling)).generator? id = some h ∧ h.IsSound := by
  have hsettled := (after_isSettledButDepth_all hsteps hg).isSettled hsound
  obtain ⟨h, hh, hkept⟩ := Step.after_settled hmore hg hsettled
  exact ⟨h, by rw [Step.after_append, hh], hkept.isSound⟩

end

/-- Whatever a script does without direct assignment, with success or without, every generator that
there is holds settings of the right types but for its depth, and its entries are those of a dictionary
with the ten settings before the unknown keys. If the depth is a whole number that is not negative, the
generator can be copied and made again from its entries in any session, with the same entries in the same
order; with any other depth both fail as the depth does by itself.

The depth is such a number in every generator that is made by what renders nothing, and it stays one. In
all generators it is of any kind that has in it such numbers, the depths that renderings are given, and
with each depth the next one: what objects that write themselves are handed takes its depth without a
check. With direct assignment of numbers as well, and at whatever depths, buffer lengths are still
positive. -/
theorem script_sound (profiling : Bool) :
    (∀ steps : List Step, (∀ st ∈ steps, st.command.isChecked = true) →
      (∀ id g, (Step.after steps (Session.initial profiling)).generator? id = some g →
        g.IsSoundButDepth ∧
        g.entries = Setting.all.map (fun s => (.str s.name, g.get s)) ++ g.unknown ∧
        Keyed.dictionary? [] g.entries = .ok g.entries ∧
        Action.resolve (.dictionary g.entries) = Action.copy g ∧
        (g.depth.IsDepth → g.IsSound ∧ g.IsCopied) ∧
        (¬ g.depth.IsDepth → ∃ f, Setting.depth.check g.depth = .error f ∧
          ∀ s, Action.copy g s = (.error f, s))) ∧
      (∀ st : Step, st.command.isChecked = true → st.command.isRendering = false → ∀ id g,
        (Step.after steps (Session.initial profiling)).generator? id = none →
        (Step.after (steps ++ [st]) (Session.initial profiling)).generator? id = some g →
        g.IsSound) ∧
      (∀ more : List Step, (∀ st ∈ more, st.command.isChecked = true) → ∀ id g,
        (Step.after steps (Session.initial profiling)).generator? id = some g → g.IsSound →
        ∃ h, (Step.after (steps ++ more) (Session.initial profiling)).generator? id = some h ∧
          h.IsSound) ∧
      ∀ placed : Value → Prop, (∀ d, d.IsDepth → placed d) →
        (∀ d inner, placed d → d.succ = .ok inner → placed inner.value) →
        (∀ st ∈ steps, st.command.IsPlaced placed) → ∀ id g,
        (Step.after steps (Session.initial profiling)).generator? id = some g → placed g.depth) ∧
    ∀ steps : List Step, (∀ st ∈ steps, st.command.AssignsNumbers) →
      ∀ id g, (Step.after steps (Session.initial profiling)).generator? id = some g →
        ∃ n, g.bufferLength.int? = some n ∧ 0 < n := by
  constructor
  · intro steps hsteps
    refine ⟨fun id g hg => ?_, fun st hst hrendering id g hnone hg => ?_,
      fun more hmore id g => isSound_after hsteps hmore,
      fun placed hdepth hsucc hplaced id g hg =>
        (after_isSettledButDepth hsteps hdepth hsucc hplaced hg).2⟩
    · have hsettled := after_isSettledButDepth_all hsteps hg
      obtain ⟨hcopied, hrefused⟩ := hsettled.copied_or_refused
      exact ⟨hsettled.isSoundButDepth, rfl, hsettled.dictionary?, rfl, hcopied, hrefused⟩
    · rw [Step.after_append] at hg
      exact (Step.made_settled hst hrendering hnone hg).isSound
  · intro steps hsteps id g hg
    refine Step.made_of_after Generator.closed_positive (fun st _ => st.command.isPlaced_all)
      (fun st hst => Command.assignsWithin_positive (hsteps st hst)) (fun id g h => ?_) id g hg
    cases (Session.generator?_initial id).symm.trans h

/-! ## A negative depth -/

/-- An object that keeps the generator that it is handed. -/
def keeper : Value := .extension (.capture (text "b") (.str (text "x")))

/-- Renders the keeper at a negative depth. -/
def negativeUse : Extension Value := .delegate keeper (some (.int (-3)))

def negativeSteps : List Step :=
  [⟨text "a", .default⟩, ⟨text "a", .generate (.extension negativeUse)⟩]

/-- What the keeper is handed. -/
def negativeGenerator : Generator := { Generator.initial with depth := .int (-3) }

/-- The session after the steps: the outer object is handed a generator too. -/
def keptSession : Session :=
  { Session.initial false with
    generators := #[.initial, .initial, negativeGenerator], identities := 2
    slots := [(text "b", 2), (text "a", 0)] }

theorem after_negativeSteps : Step.after negativeSteps (Session.initial false) = keptSession := by
  -- The session when the value is read, and when the outer object is about to render.
  let read : Session := { Session.initial false with
    generators := #[.initial], identities := 1, slots := [(text "a", 0)] }
  let called : Session := { read with generators := #[.initial, .initial], identities := 2 }
  have hcopy : Generator.initial.copy = .ok (.initial, []) := rfl
  have hinner : renderAt 1 (.own 1 keeper) 1 (some (.int (-3))) called = (.ok (text "x"), keptSession) := by
    have hprepare : Extension.prepare .initial (.capture (text "b") (.str (text "x"))) (.int (-3)) called =
        (.ok (.answer (.str (text "x"))), keptSession) := by
      rw [Extension.prepare, Action.bind_apply, Extension.hand_apply hcopy]
      rfl
    rw [renderAt_of_prepare rfl rfl (some (.int (-3))) hprepare]
    rfl
  have houter : renderAt 2 (.own 0 (.extension negativeUse)) 0 none read =
      (.ok (text "x"), keptSession) := by
    have hprepare : negativeUse.prepare .initial (.int 0) read =
        (.ok (.render (.own 1 keeper) 1 (some (.int (-3)))), called) := by
      rw [Extension.prepare, Action.bind_apply, Extension.hand_apply hcopy]
      rfl
    rw [renderAt_of_prepare rfl rfl none hprepare, Action.counted, Action.bind_apply, Extension.Plan.perform,
      ← bind_pure_comp, Action.bind_apply, hinner]
    rfl
  have hgenerate : generate (.own 0 (.extension negativeUse)) 0 read = (.ok (text "x"), keptSession) := by
    have hrank : (Value.own 0 (.extension negativeUse)).rank = 2 := rfl
    rw [generate, generateWith, Action.logged, Action.counted, Action.bind_apply, render, hrank, houter]
    rfl
  change ((generate (.own 0 (.extension negativeUse)) 0 >>= fun t => pure (Result.value (.str t)) :
    Action Result) read).2 = _
  rw [Action.bind_apply, hgenerate]
  rfl

theorem negativeGenerator_not_isDepth : ¬ negativeGenerator.depth.IsDepth := by
  rintro ⟨n, hn, hle⟩
  obtain rfl := Option.some.inj hn
  exact absurd hle (by decide)

/-- What the keeper is handed is not sound, and is neither copied nor made again from its entries. -/
theorem keeper_unsound :
    (∀ st ∈ negativeSteps, st.command.isChecked = true) ∧
      (Step.after negativeSteps (Session.initial false)).slot? (text "b") = some 2 ∧
      (Step.after negativeSteps (Session.initial false)).generator? 2 = some negativeGenerator ∧
      ¬ negativeGenerator.IsSound ∧
      ∀ s, Action.copy negativeGenerator s = (.error (.value (.negativeSetting .depth)), s) ∧
        Action.resolve (.dictionary negativeGenerator.entries) s =
          (.error (.value (.negativeSetting .depth)), s) := by
  have hrefused : negativeGenerator.copy = .error (.value (.negativeSetting .depth)) := rfl
  rw [after_negativeSteps]
  exact ⟨by decide, rfl, rfl, fun hsound => negativeGenerator_not_isDepth hsound.depth, fun s =>
    ⟨Action.build_refused s hrefused, Action.build_refused s hrefused⟩⟩

/-! ## Without a limit -/

def limitlessStart : Step :=
  ⟨text "a", .new (some (.dictionary [(.str (text "max_nesting"), .null),
    (.str (text "buffer_initial_length"), .int 7), (.int 2, .str (text "x"))]))⟩

/-- Lifts the limit by a zero of a derived type, and makes a change that is refused. -/
def limitlessChanges : List Step :=
  [⟨text "a", .set (.str (text "max_nesting")) (.described (.derived .int (.int 0)))⟩,
    ⟨text "a", .configure (.dictionary [(.str (text "depth"), .int (-1))])⟩]

def limitlessGenerator : Generator :=
  { Generator.initial with
    maxNesting := .derived (.int 0), bufferLength := .int 7,
    unknown := [(.int 2, .str (text "x"))] }

/-- Generates with the generator what renders deeper in it and keeps the generator that it is given. -/
def limitlessUse : Step :=
  ⟨text "a", .generate
    (.extension (.delegate (.extension (.capture (text "b") .null)) (some (.int 3))))⟩

/-- Assigns a buffer length that is not positive. -/
def emptyAssignment : Step := ⟨text "a", .assign (text "buffer_initial_length") (.int (-5))⟩

/-- A generator that is made without rendering is sound before and after what renders deeper, and is
copied. The one that the keeper is handed is sound but for its depth, which is why it is not copied. -/
theorem script_sound_limitless :
    let s := Step.after ([limitlessStart] ++ (limitlessChanges ++ [limitlessUse])) (Session.initial true)
    let t := Step.after ([limitlessStart] ++ (limitlessChanges ++ [emptyAssignment])) (Session.initial true)
    s.generator? 0 = some limitlessGenerator ∧ t.generator? 0 = some limitlessGenerator ∧
      limitlessGenerator.IsSound ∧ limitlessGenerator.depth.IsDepth ∧ limitlessGenerator.IsCopied ∧
      Keyed.dictionary? [] limitlessGenerator.entries = .ok limitlessGenerator.entries ∧
      (∃ n, limitlessGenerator.bufferLength.int? = some n ∧ 0 < n) ∧
      negativeGenerator.IsSoundButDepth ∧
      ∃ f, ∀ s, Action.copy negativeGenerator s = (.error f, s) := by
  intro s t
  have hs : s.generator? 0 = some limitlessGenerator := by
    have hbefore : (Step.after ([limitlessStart] ++ limitlessChanges) (Session.initial true)).generator? 0 =
        some limitlessGenerator := rfl
    simp only [s, ← List.append_assoc]
    rw [Step.after_append]
    exact Step.run_keeps limitlessUse hbefore nofun
  have ht : t.generator? 0 = some limitlessGenerator := rfl
  have hplaced : Value.IsPlaced Value.IsDepth (some (.int 3)) := by
    intro s d hd d' hd'
    obtain rfl := Except.ok.inj hd
    obtain rfl := Option.some.inj hd'
    exact ⟨3, rfl, by decide⟩
  have hplaces : ∀ st ∈ [limitlessStart] ++ (limitlessChanges ++ [limitlessUse]),
      st.command.IsPlaced Value.IsDepth := by
    simp only [limitlessStart, limitlessChanges, List.forall_mem_append, List.forall_mem_cons]
    exact ⟨⟨trivial, List.forall_mem_nil _⟩, ⟨trivial, trivial, List.forall_mem_nil _⟩,
      ⟨hplaced, trivial, trivial⟩, List.forall_mem_nil _⟩
  have hnumbers : ∀ st ∈ [limitlessStart] ++ (limitlessChanges ++ [emptyAssignment]),
      st.command.AssignsNumbers := by
    have hread : Command.AssignsNumbers emptyAssignment.command := by
      intro s v hv
      obtain rfl := Except.ok.inj hv
      exact ⟨-5, rfl⟩
    simp only [limitlessStart, limitlessChanges, List.forall_mem_append, List.forall_mem_cons]
    exact ⟨⟨trivial, List.forall_mem_nil _⟩, ⟨trivial, trivial, List.forall_mem_nil _⟩, hread,
      List.forall_mem_nil _⟩
  -- What the first step makes is sound, and stays so over the others.
  have hmade := ((script_sound true).1 [] (List.forall_mem_nil _)).2.1 limitlessStart rfl rfl 0 _ rfl rfl
  obtain ⟨g, hg, hsound⟩ := ((script_sound true).1 [limitlessStart] (by decide)).2.2.1
    (limitlessChanges ++ [limitlessUse]) (by decide) 0 _ rfl hmade
  obtain rfl := Option.some.inj (hg.symm.trans hs)
  obtain ⟨hall, -, -, hdepths⟩ := (script_sound true).1
    ([limitlessStart] ++ (limitlessChanges ++ [limitlessUse])) (by decide)
  have hdepth := hdepths Value.IsDepth (fun _ hd => hd) (fun _ _ hd h => hd.succ h) hplaces 0 _ hs
  obtain ⟨-, -, hdictionary, -, hcopied, -⟩ := hall 0 _ hs
  -- The keeper is handed its generator in a script without direct assignment too.
  obtain ⟨hkept, -⟩ := (script_sound false).1 negativeSteps (by decide)
  obtain ⟨hbut, -, -, -, -, hrefused⟩ := hkept 2 negativeGenerator (by rw [after_negativeSteps]; rfl)
  obtain ⟨f, -, hf⟩ := hrefused negativeGenerator_not_isDepth
  exact ⟨hs, ht, hsound, hdepth, (hcopied hdepth).2, hdictionary,
    (script_sound true).2 _ hnumbers 0 _ ht, hbut, f, hf⟩

end JsonWriter
