import JsonWriter.Proofs.Configuration.Equality
import JsonWriter.Proofs.Configuration.Refusal

/-!
# Settings by name

To give a setting a value by name is to configure it together with the nesting limit, which would be reset
otherwise. Only a limit that is not true makes a difference: a mapping lifts the limit by it. Main statement:
`named_agrees`.
-/

namespace JsonWriter

open Value (SameToken)

/-! ## What becomes of one generator -/

theorem Value.SameToken.refl_of_wholeNumber? {v : Value} {n : Int} (hv : v.wholeNumber? = some n) :
    SameToken v v :=
  have hint := int?_of_wholeNumber? hv
  .int hint hint

namespace Setting

variable {o : Setting} {x w : Value}

theorem checkEntry_of_ne (ho : o ≠ maxNesting) (v : Value) : o.checkEntry v = o.check v :=
  if_neg fun h => ho h.1

theorem sameToken_of_check (h : o.check x = .ok w) : SameToken w w := by
  cases o with
  | allowNan | asciiOnly =>
    obtain rfl := Except.ok.inj h
    exact .int rfl rfl
  | maxNesting | depth =>
    simp only [check] at h
    split at h
    · cases h
    · next n hn =>
      split at h
      · cases h
      · obtain rfl := Except.ok.inj h
        exact .refl_of_wholeNumber? hn
  | bufferLength =>
    simp only [check] at h
    split at h
    · next hx =>
      obtain rfl := Except.ok.inj h
      obtain ⟨n, hn⟩ := Option.isSome_iff_exists.mp hx
      exact .refl_of_wholeNumber? hn
    · cases h
  | indent | space | spaceBefore | objectNewline | arrayNewline =>
    simp only [check] at h
    split at h
    · next hx =>
      obtain rfl := Except.ok.inj h
      obtain ⟨t, ht⟩ := Option.isSome_iff_exists.mp hx
      exact .text ht ht
    · cases h

/-- Values that are true or whole numbers are refused as limits in a mapping as well. -/
theorem checkEntry_of_check_error {limit : Value} {f : Fault}
    (hlimit : limit.isTrue ∨ limit.wholeNumber?.isSome) (h : maxNesting.check limit = .error f) :
    maxNesting.checkEntry limit = .error f := by
  have htrue : limit.isTrue = true := by
    refine hlimit.elim id fun hwhole => ?_
    obtain ⟨n, hn⟩ := Option.isSome_iff_exists.mp hwhole
    simp only [check, hn] at h
    split at h
    · next hneg => exact Value.isTrue_of_negative hn hneg
    · cases h
  rw [checkEntry, if_neg (by simp [htrue]), h]

/-- No limit is kept as the limit zero, which it is. -/
theorem sameToken_kept {limit : Value} (h : maxNesting.check limit = .ok w) :
    SameToken (maxNesting.kept limit) limit := by
  rw [kept]
  split
  · next hfalse =>
    obtain ⟨n, hn, -⟩ := Value.isDepth_of_checkLimit h
    have hzero : n = 0 := by
      unfold Value.wholeNumber? at hn
      split at hn
      · next hcontent => simpa [Value.isTrue, hcontent, Option.some.inj hn] using hfalse.2
      · cases hn
    exact .int rfl (hzero ▸ Value.int?_of_wholeNumber? hn)
  · obtain rfl : w = limit := check_eq_ok h
    exact sameToken_of_check h

end Setting

namespace Generator

/-- The generator takes a value for a setting, unless that is a buffer length that is not positive. Nothing
else is changed, where the nesting limit is the same number as the one given. -/
structure Takes (o : Setting) (x limit : Value) (g g' : Generator) : Prop where
  value : if o = .bufferLength ∧ x.int?.all (· ≤ 0) then g'.get o = g.get o
    else SameToken (g'.get o) (o.checked x)
  other : ∀ t, t ≠ o → t ≠ .maxNesting → g'.get t = g.get t
  limit : o ≠ .maxNesting → SameToken g'.maxNesting limit
  unknown : g'.unknown = g.unknown

variable {g h g' h' : Generator} {o : Setting} {x w limit key limitKey options : Value}

theorem IsSettled.sameToken_limit (hg : g.IsSettled) : SameToken g.maxNesting g.maxNesting := by
  obtain ⟨w, hw⟩ := hg.setting .maxNesting
  obtain rfl := Setting.check_eq_ok hw
  exact Setting.sameToken_of_check hw

theorem takes_putChecked (hcheck : o.check x = .ok w) (hlimit : SameToken g.maxNesting limit) :
    Takes o x limit g (g.putChecked o w) where
  value := by
    have hw := Setting.check_eq_ok hcheck
    split
    · next hignored =>
      obtain ⟨rfl, hx⟩ := hignored
      obtain rfl : w = x := hw
      rw [putChecked, if_pos ⟨rfl, hx⟩]
    · next hputs =>
      have hput : g.putChecked o w = g.put o w := by
        refine if_neg fun hignored => hputs ⟨hignored.1, ?_⟩
        obtain ⟨rfl, hw'⟩ := hignored
        exact (hw ▸ hw' : (Setting.bufferLength.checked x).int?.all (· ≤ 0))
      rw [hput, get_put, if_pos rfl, ← hw]
      exact Setting.sameToken_of_check hcheck
  other t ht _ := by
    rw [putChecked]
    split
    · rfl
    · rw [get_put, if_neg ht]
  limit ho := by
    have hget : (g.putChecked o w).maxNesting = g.maxNesting :=
      (get_putChecked g (t := .maxNesting) (by decide) w).trans (if_neg ho.symm)
    rwa [hget]
  unknown := unknown_putChecked g o w

/-- The limit may be given besides. -/
theorem Takes.put_limit {limit' : Value} (h : Takes o x limit' g g') (ho : o ≠ .maxNesting)
    (hlimit : SameToken w limit) : Takes o x limit g (g'.put .maxNesting w) where
  value := by
    have hget : (g'.put .maxNesting w).get o = g'.get o := by rw [get_put, if_neg ho]
    rw [hget]
    exact h.value
  other t ht hne := by rw [get_put, if_neg hne, h.other t ht hne]
  limit _ := hlimit
  unknown := (unknown_put g' .maxNesting w).trans h.unknown

theorem takes_limit (h : SameToken w x) : Takes .maxNesting x limit g (g.put .maxNesting w) where
  value := h
  other t ht _ := by rw [get_put, if_neg ht]
  limit ho := absurd rfl ho
  unknown := unknown_put g .maxNesting w

theorem Takes.equal {same : Nat → Nat → Comparison} (hg : Takes o x limit g g')
    (hh : Takes o x limit h h') (hgs : g.IsSettled) (hhs : h.IsSettled) (hgs' : g'.IsSettled)
    (hhs' : h'.IsSettled) (hequal : g.Equal same h) : g'.Equal same h' := by
  obtain ⟨hsettings, hunknown⟩ := (equal_iff hgs hhs).mp hequal
  refine (equal_iff hgs' hhs').mpr ⟨fun t => ?_, by rw [hg.unknown, hh.unknown]; exact hunknown⟩
  by_cases ht : t = o
  · subst ht
    have hgvalue := hg.value
    have hhvalue := hh.value
    split at hgvalue
    · next hignored =>
      rw [if_pos hignored] at hhvalue
      rw [hgvalue, hhvalue]
      exact hsettings t
    · next htaken =>
      rw [if_neg htaken] at hhvalue
      exact (hgvalue.trans hhvalue.symm).compareIn _ _ _
  · by_cases hne : t = .maxNesting
    · subst hne
      exact ((hg.limit (Ne.symm ht)).trans (hh.limit (Ne.symm ht)).symm).compareIn _ _ _
    · rw [hg.other t ht hne, hh.other t ht hne]
      exact hsettings t

/-! ## Mappings of one setting -/

/-- A mapping that names a setting and the limit does what naming them does. -/
theorem configure_named (ho : o ≠ .maxNesting) (hkey : key.setting? = some o)
    (hlimitKey : limitKey.setting? = some .maxNesting)
    (hoptions : options.entries? = some [(key, x), (limitKey, limit)])
    (hlimit : ∃ w, Setting.maxNesting.check limit = .ok w) (h : Generator) :
    h.configure options = (h.set o x).map fun h' =>
      (h'.put .maxNesting (Setting.maxNesting.kept limit), []) := by
  have hread : Update.initial.read [(key, x), (limitKey, limit)] = (o.check x).map fun w =>
      (Update.initial.set o w).set .maxNesting (Setting.maxNesting.kept limit) := by
    simp only [Update.read, hkey, hlimitKey, Setting.checkEntry_of_ne ho,
      Setting.checkEntry_of_check hlimit]
    cases o.check x <;> rfl
  rw [configure, hoptions, set]
  simp only [hread]
  cases o.check x with
  | error f => rfl
  | ok w =>
    refine congrArg Except.ok (Prod.ext (eq_of_get (fun t => ?_) ?_) rfl)
    · by_cases ht : t = .bufferLength
      · subst ht
        have happly := bufferLength_apply h
          ((Update.initial.set o w).set .maxNesting (Setting.maxNesting.kept limit))
        have hput := bufferLength_putChecked h o w
        refine happly.trans (Eq.trans ?_ hput.symm)
        by_cases ho' : o = .bufferLength
        · subst ho'
          cases hw : w.int?.any (0 < ·) <;> simp [Update.set, Option.filter, hw]
        · simp [Update.set, Update.initial, ho', Ne.symm ho']
      · rw [get_apply _ _ ht, get_put, get_putChecked h ht]
        by_cases hne : t = .maxNesting
        · simp [Update.set, hne]
        · by_cases hto : t = o
          · subst hto
            simp [Update.set, hne]
          · simp [Update.set, Update.initial, hne, hto]
    · rw [unknown_put, unknown_putChecked]
      rfl

/-- A mapping that names the limit alone gives it as it is kept. -/
theorem configure_limit (hkey : key.setting? = some .maxNesting)
    (hoptions : options.entries? = some [(key, x)]) (h : Generator) :
    h.configure options = (Setting.maxNesting.checkEntry x).map fun w => (h.put .maxNesting w, []) := by
  rw [configure, hoptions]
  simp only [Update.read, hkey]
  cases Setting.maxNesting.checkEntry x with
  | error f => rfl
  | ok w =>
    refine congrArg Except.ok (Prod.ext (eq_of_get (fun t => ?_) ?_) rfl)
    · by_cases ht : t = .bufferLength
      · subst ht
        exact bufferLength_apply h (Update.initial.set .maxNesting w)
      · rw [get_apply _ _ ht, get_put]
        by_cases hne : t = .maxNesting <;> simp [Update.set, Update.initial, hne]
    · rw [unknown_put]
      rfl

end Generator

/-! ## Actions -/

/-- The session with another generator under a number. -/
def Session.replacing (s : Session) (id : Nat) (g : Generator) : Session :=
  { s with generators := s.generators.setIfInBounds id g }

namespace Action

variable {s : Session} {i : Nat} {g : Generator} (hi : s.generator? i = some g)

include hi

theorem set_apply {name : Value} {o : Setting} (hname : name.setting? = some o) (x : Value) :
    set i name x s = resume (g.set o x, s) fun g' s => (.ok (), s.replacing i g') := by
  have hsetting : setting name = pure o := by rw [setting, hname]
  rw [set, hsetting, pure_bind, bind_apply, generator, hi, resume_ok, bind_apply]
  rfl

theorem configure_apply (options : Value) : configure i options s =
    resume (g.configure options, s) fun made s => (.ok (), (s.ignoring made.2).replacing i made.1) := by
  rw [configure, bind_apply, generator, hi, resume_ok, bind_apply, Option.getD_some]
  cases g.configure options with
  | error f => rfl
  | ok made => rw [configured_eq, resume_ok]; rfl

end Action

/-- A name of no setting is not found, whatever the generator keeps under it. -/
theorem Action.setting_of_none {name : Value} (hname : name.setting? = none) (s : Session) :
    setting name s = (.error (.key (name.literal? s.describe)), s) := by
  rw [setting, hname]
  rfl

/-! ## Agreement -/

/-- By name and by mapping, both are refused for one fault and change nothing, or each changes its generator
in the setting alone, and generators that were equal are equal. -/
inductive Session.Agree (s : Session) (i j : Nat) (g h : Generator) (o : Setting) (x : Value)
    (named mapped : Action Unit) : Prop
  | refused {f : Fault} (hnamed : named s = (.error f, s)) (hmapped : mapped s = (.error f, s))
  | done {g' h' : Generator} (hnamed : named s = (.ok (), s.replacing i g'))
    (hmapped : mapped s = (.ok (), s.replacing j h')) (hg : g.Takes o x g.maxNesting g')
    (hh : h.Takes o x g.maxNesting h')
    (hequal : ∀ same : Nat → Nat → Comparison, g.Equal same h → g'.Equal same h')

section

variable {s : Session} {i j : Nat} {g h : Generator} (hi : s.generator? i = some g)
  (hj : s.generator? j = some h) {o : Setting} {name x options : Value} (hname : name.setting? = some o)

include hi hj hname

theorem Session.agree_refused {f : Fault} (hcheck : o.check x = .error f)
    (hconfigure : h.configure options = .error f) :
    s.Agree i j g h o x (Action.set i name x) (Action.configure j options) := by
  have hset : g.set o x = .error f := by rw [Generator.set, hcheck]; rfl
  refine .refused (f := f) ?_ ?_
  · rw [Action.set_apply hi hname, hset, Action.resume_error]
  · rw [Action.configure_apply hj, hconfigure, Action.resume_error]

theorem Session.agree_done {w : Value} {h' : Generator} (hg : g.IsSettled) (hh : h.IsSettled)
    (hcheck : o.check x = .ok w) (hconfigure : h.configure options = .ok (h', []))
    (htakes : h.Takes o x g.maxNesting h') :
    s.Agree i j g h o x (Action.set i name x) (Action.configure j options) := by
  have hset : g.set o x = .ok (g.putChecked o w) := by rw [Generator.set, hcheck]; rfl
  have hgtakes : g.Takes o x g.maxNesting (g.putChecked o w) :=
    Generator.takes_putChecked hcheck hg.sameToken_limit
  refine .done ?_ ?_ hgtakes htakes fun same =>
    hgtakes.equal htakes hg hh (Generator.set_isSettled hg hset)
      (Generator.configure_isSettled hh hconfigure)
  · rw [Action.set_apply hi hname, hset, Action.resume_ok]
  · rw [Action.configure_apply hj, hconfigure, Action.resume_ok]
    rfl

end

/-- A setting other than the nesting limit takes a value by name as it does by a mapping that gives the limit
as it is. The limit takes what is true or a whole number in both ways, and anything else lifts it by mapping and
is refused by name. No name but those of settings is found. -/
theorem named_agrees {s : Session} {i j : Nat} {g h : Generator} (hi : s.generator? i = some g)
    (hj : s.generator? j = some h) (hg : g.IsSettled) (hh : h.IsSettled) :
    (∀ o, o ≠ .maxNesting → ∀ name key limitKey x options : Value,
      name.setting? = some o → key.setting? = some o → limitKey.setting? = some .maxNesting →
      options.entries? = some [(key, x), (limitKey, g.maxNesting)] →
      s.Agree i j g h o x (Action.set i name x) (Action.configure j options)) ∧
    (∀ name key x options : Value, name.setting? = some .maxNesting →
      key.setting? = some .maxNesting → options.entries? = some [(key, x)] →
      if x.isTrue ∨ x.wholeNumber?.isSome then
        s.Agree i j g h .maxNesting x (Action.set i name x) (Action.configure j options)
      else
        Action.set i name x s = (.error (.type (.settingNotInteger .maxNesting x.kind)), s) ∧
          ∃ h', Action.configure j options s = (.ok (), s.replacing j h') ∧
            h.Takes .maxNesting (.int 0) h.maxNesting h') ∧
    ∀ name : Value, name.setting? = none →
      Action.get i name s = (.error (.key (name.literal? s.describe)), s) ∧
        ∀ x, Action.set i name x s = (.error (.key (name.literal? s.describe)), s) := by
  refine ⟨fun o ho name key limitKey x options hname hkey hlimitKey hoptions => ?_,
    fun name key x options hname hkey hoptions => ?_, fun name hname => ⟨?_, fun x => ?_⟩⟩
  · obtain ⟨limit, hlimit⟩ := hg.setting .maxNesting
    have hconfigure := Generator.configure_named ho hkey hlimitKey hoptions ⟨limit, hlimit⟩ h
    rw [Generator.set] at hconfigure
    cases hcheck : o.check x with
    | error f =>
      rw [hcheck] at hconfigure
      exact Session.agree_refused hi hj hname hcheck hconfigure
    | ok w =>
      rw [hcheck] at hconfigure
      have hnamed := Generator.takes_putChecked hcheck hh.sameToken_limit
      exact Session.agree_done hi hj hname hg hh hcheck hconfigure
        (hnamed.put_limit ho (Setting.sameToken_kept hlimit))
  · have hconfigure := Generator.configure_limit hkey hoptions h
    split
    · next hlimit =>
      cases hcheck : Setting.maxNesting.check x with
      | error f =>
        rw [Setting.checkEntry_of_check_error hlimit hcheck] at hconfigure
        exact Session.agree_refused hi hj hname hcheck hconfigure
      | ok w =>
        rw [Setting.checkEntry_of_check ⟨w, hcheck⟩] at hconfigure
        exact Session.agree_done hi hj hname hg hh hcheck hconfigure
          (Generator.takes_limit (Setting.sameToken_kept hcheck))
    · next hlimit =>
      obtain ⟨hfalse, hwhole⟩ := not_or.mp hlimit
      have hset : g.set .maxNesting x = .error (.type (.settingNotInteger .maxNesting x.kind)) := by
        rw [Generator.set, Setting.check, Option.not_isSome_iff_eq_none.mp hwhole]
        rfl
      have hentry : Setting.maxNesting.checkEntry x = .ok (.int 0) :=
        if_pos ⟨rfl, Bool.eq_false_iff.mpr hfalse⟩
      refine ⟨?_, h.put .maxNesting (.int 0), ?_, Generator.takes_limit (.int rfl rfl)⟩
      · rw [Action.set_apply hi hname, hset, Action.resume_error]
      · rw [Action.configure_apply hj, hconfigure, hentry]
        rfl
  · rw [Action.get, Action.bind_apply, Action.setting_of_none hname, Action.resume_error]
  · rw [Action.set, Action.bind_apply, Action.setting_of_none hname, Action.resume_error]

/-- Two equal generators without a limit that keep a key beside the settings, one with a zero of a derived
type. -/
def limitlessPair : Generator × Generator :=
  let h := { Generator.initial with maxNesting := .int 0, unknown := [(.str (text "origin"), .int 1)] }
  ({ h with maxNesting := .derived (.int 0) }, h)

theorem named_agrees_limitlessPair :
    let g := limitlessPair.1
    let h := limitlessPair.2
    let s := { Session.initial true with generators := #[g, h] }
    let options := Value.dictionary
      [(.str (text "buffer_initial_length"), .int (-5)), (.setting .maxNesting, g.maxNesting)]
    let lifted := Value.dictionary [(.str (text "max_nesting"), .str [])]
    s.generator? 0 = some g ∧ s.generator? 1 = some h ∧ g.IsSettled ∧ h.IsSettled ∧
      g.Equal (fun _ _ => .ok false) h ∧
      s.Agree 0 1 g h .bufferLength (.int (-5))
        (Action.set 0 (.str (text "buffer_initial_length")) (.int (-5))) (Action.configure 1 options) ∧
      Action.set 0 (.setting .maxNesting) (.str []) s =
        (.error (.type (.settingNotInteger .maxNesting (text "str"))), s) ∧
      (∃ h', Action.configure 1 lifted s = (.ok (), s.replacing 1 h') ∧
        h.Takes .maxNesting (.int 0) h.maxNesting h') ∧
      Action.get 0 (.str (text "origin")) s = (.error (.key (some (text "'origin'"))), s) := by
  intro g h s options lifted
  have hconfigured : Generator.initial.configure (.dictionary
      [(.str (text "max_nesting"), .null), (.str (text "origin"), .int 1)]) =
        .ok (h, [.str (text "origin")]) := rfl
  have hset : h.set .maxNesting (.derived (.int 0)) = .ok g := rfl
  have hh : h.IsSettled := Generator.configure_isSettled Generator.initial_isSettled hconfigured
  have hg : g.IsSettled := Generator.set_isSettled hh hset
  have hi : s.generator? 0 = some g := rfl
  have hj : s.generator? 1 = some h := rfl
  obtain ⟨hothers, hlimit, hunknown⟩ := named_agrees hi hj hg hh
  have hlifted := hlimit (.setting .maxNesting) (.str (text "max_nesting")) (.str []) lifted rfl rfl rfl
  have hshown : (Value.str (text "origin")).literal? s.describe = some (text "'origin'") := by
    decide +kernel
  have hkey := (hunknown (.str (text "origin")) rfl).1
  rw [hshown] at hkey
  have hequal : g.Equal (fun _ _ => .ok false) h := by
    rw [Generator.Equal]
    decide +kernel
  exact ⟨hi, hj, hg, hh, hequal, hothers .bufferLength (by decide) (.str (text "buffer_initial_length"))
    (.str (text "buffer_initial_length")) (.setting .maxNesting) (.int (-5)) options rfl rfl rfl rfl,
    hlifted.1, hlifted.2, hkey⟩

end JsonWriter
