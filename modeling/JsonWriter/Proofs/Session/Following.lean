import JsonWriter.Proofs.Configuration.Merging
import JsonWriter.Proofs.Session.Compositional
import JsonWriter.Proofs.Session.Steps

/-!
# Generators that stay settled

Without direct assignment a generator that is settled stays so, whatever is done in a session, and the
generators that are made are settled too, unless they are made for objects that write themselves. Main
statements: `Step.after_settled` and `Step.made_settled`.
-/

namespace JsonWriter

namespace Session

variable {s t u : Session} {strict : Prop}

/-- In the second session the settled generators of the first one are there and are settled. Where this is
asked for, so are the generators that are new. -/
structure Follows (strict : Prop) (s t : Session) : Prop where
  grown : s.generators.size ≤ t.generators.size
  kept : ∀ id g, s.generator? id = some g → g.IsSettled → ∃ h, t.generator? id = some h ∧ h.IsSettled
  made : strict → ∀ id h, s.generators.size ≤ id → t.generator? id = some h → h.IsSettled

theorem Follows.mono {strict' : Prop} (h : s.Follows strict t) (himp : strict' → strict) :
    s.Follows strict' t := ⟨h.grown, h.kept, fun hstrict => h.made (himp hstrict)⟩

theorem lt_size_of_generator? {id : Nat} {g : Generator} (h : s.generator? id = some g) :
    id < s.generators.size := (Array.getElem?_eq_some_iff.mp h).1

theorem exists_generator? {id : Nat} (h : id < s.generators.size) : ∃ g, s.generator? id = some g :=
  ⟨_, Array.getElem?_eq_getElem h⟩

/-- Nothing but the generators counts. -/
theorem Follows.of_eq (h : t.generators = s.generators) : s.Follows strict t where
  grown := h ▸ Nat.le_refl _
  kept id g hg hsettled := ⟨g, by rwa [generator?, h], hsettled⟩
  made _ id g hid hg := by
    rw [generator?, h] at hg
    exact absurd (lt_size_of_generator? hg) (Nat.not_lt.mpr hid)

theorem Follows.trans (hst : s.Follows strict t) (htu : t.Follows strict u) : s.Follows strict u where
  grown := hst.grown.trans htu.grown
  kept id g hg hsettled := by
    obtain ⟨h, hh, hkept⟩ := hst.kept id g hg hsettled
    exact htu.kept id h hh hkept
  made hstrict id h hid hh := by
    obtain hold | hnew := Nat.lt_or_ge id t.generators.size
    · -- What is made on the way is settled there, and stays so.
      obtain ⟨g, hg⟩ := exists_generator? hold
      obtain ⟨h', hh', hsettled⟩ := htu.kept id g hg (hst.made hstrict id g hid hg)
      exact Option.some.inj (hh'.symm.trans hh) ▸ hsettled
    · exact htu.made hstrict id h hnew hh

theorem Follows.push {g : Generator} (ht : t.generators = s.generators.push g)
    (hg : strict → g.IsSettled) : s.Follows strict t := by
  have hget (id : Nat) : t.generator? id = if id = s.generators.size then some g else s.generator? id := by
    rw [generator?, ht]
    exact Array.getElem?_push
  refine ⟨?_, fun id h hh hsettled => ⟨h, ?_, hsettled⟩, fun hstrict id h hid hh => ?_⟩
  · rw [ht, Array.size_push]
    exact Nat.le_succ _
  · rw [hget, if_neg (Nat.ne_of_lt (lt_size_of_generator? hh)), hh]
  · rw [hget] at hh
    split at hh
    · exact Option.some.inj hh ▸ hg hstrict
    · exact absurd (lt_size_of_generator? hh) (Nat.not_lt.mpr hid)

/-- A generator gives way to another one that is settled if it is. -/
theorem Follows.put {id : Nat} {g : Generator}
    (hg : ∀ h, s.generator? id = some h → h.IsSettled → g.IsSettled) :
    s.Follows strict { s with generators := s.generators.setIfInBounds id g } where
  grown := by rw [Array.size_setIfInBounds]
  kept id' h hh hsettled := by
    rw [generator?_put, hh]
    split
    · next hid =>
      subst hid
      exact ⟨g, rfl, hg h hh hsettled⟩
    · exact ⟨h, rfl, hsettled⟩
  made _ id' h hid hh := by
    have hlt := lt_size_of_generator? hh
    rw [Array.size_setIfInBounds] at hlt
    exact absurd hlt (Nat.not_lt.mpr hid)

theorem follows_record (s : Session) (name : Text) (size : Value) :
    s.Follows strict (s.record name size).2 := by
  unfold record
  split <;> exact .of_eq rfl

end Session

namespace Action

open Session (Follows)

variable {strict : Prop}

theorem build_follows (options : Value) (s : Session) : s.Follows strict (build options s).2 := by
  cases h : Generator.initial.configure options with
  | error f =>
    rw [build_refused s h]
    exact .of_eq rfl
  | ok made =>
    rw [build_apply s h]
    exact .push rfl fun _ => Generator.configure_isSettled Generator.initial_isSettled h

/-- What an object is handed is at a depth that is not checked. -/
theorem hand_follows (g : Generator) (depth : Value) (s : Session) :
    s.Follows False (Extension.hand g depth s).2 := by
  cases h : g.copy with
  | error f =>
    rw [Extension.hand_refused h]
    exact .of_eq rfl
  | ok made =>
    rw [Extension.hand_apply h]
    exact .push rfl False.elim

/-- Writing to a generator what becomes of it by a checked change. -/
theorem replace_follows {id : Nat} {s t : Session} {g : Generator} (ht : t.generators = s.generators)
    (hg : ((s.generator? id).getD .initial).IsSettled → g.IsSettled) :
    s.Follows strict (replace id g t).2 := by
  refine (Follows.of_eq ht).trans (Follows.put fun h hh hsettled => hg ?_)
  have hs : s.generator? id = some h := by rwa [Session.generator?, ht] at hh
  rwa [hs, Option.getD_some]

theorem configure_follows (id : Nat) (options : Value) (s : Session) :
    s.Follows strict (configure id options s).2 := by
  rw [configure, bind_apply, generator, resume_ok, bind_apply]
  cases h : ((s.generator? id).getD .initial).configure options with
  | error f => exact .of_eq rfl
  | ok made =>
    rw [configured_eq, resume_ok]
    exact replace_follows rfl fun hg => Generator.configure_isSettled hg h

theorem setting_apply (name : Value) (s : Session) : (setting name s).2 = s := by
  unfold setting
  cases name.setting? <;> rfl

theorem set_follows (id : Nat) (name value : Value) (s : Session) :
    s.Follows strict (set id name value s).2 := by
  have hsetting := setting_apply name s
  rw [set, bind_apply]
  generalize setting name s = run at hsetting
  obtain ⟨f | o, t⟩ := run
  · exact .of_eq (congrArg Session.generators hsetting)
  · obtain rfl : t = s := hsetting
    rw [resume_ok, bind_apply, generator, resume_ok, bind_apply, ofExcept]
    cases h : ((t.generator? id).getD .initial).set o value with
    | error f => exact .of_eq rfl
    | ok g => exact replace_follows rfl fun hg => Generator.set_isSettled hg h

theorem lift_follows (id : Nat) (s : Session) : s.Follows strict
    ((do replace id ((← generator id).put .maxNesting (.int 0)) : Action Unit) s).2 := by
  rw [bind_apply, generator, resume_ok]
  exact replace_follows rfl fun hg => Generator.put_isSettled hg (by decide) ⟨_, rfl⟩ rfl

/-- Changes without direct assignment leave settled generators settled, and make no others. -/
theorem changing_follows (strict : Prop) :
    Changing fun _ x => ∀ s : Session, s.Follows strict (x s).2 where
  ofExcept r s := .of_eq rfl
  bind {α β x k} hx hk s := by
    have hfirst := hx s
    rw [bind_apply]
    generalize x s = run at hfirst
    obtain ⟨f | a, t⟩ := run
    · exact hfirst
    · exact hfirst.trans (hk a t)
  literal? v s := .of_eq rfl
  shown v s := by
    unfold shown
    split <;> exact .of_eq rfl
  identity s := .of_eq rfl
  generator id s := .of_eq rfl
  slot name s := by
    unfold slot
    split <;> exact .of_eq rfl
  build := build_follows
  setSlot name id s := .of_eq rfl
  equal i j s := by
    unfold equal
    split <;> exact .of_eq rfl
  configure := configure_follows
  copy g := build_follows (.dictionary g.entries)
  set := set_follows

/-- Nothing that is done without direct assignment unsettles a generator. -/
theorem operating_follows : Operating fun _ x => ∀ s : Session, s.Follows False (x s).2 :=
  { changing_follows False with
    counted := fun name size hx s => (hx s).trans (Session.follows_record _ name (.int size))
    hand := hand_follows
    logged := fun {_ x} hx s => by
      have hrun := hx s
      unfold logged
      generalize x s = run at hrun
      obtain ⟨f | a, t⟩ := run
      · refine hrun.trans (.of_eq ?_)
        simp only
        split <;> rfl
      · exact hrun
    lift := lift_follows }

theorem countedAs_follows {α : Type} {x : Action α} (hx : ∀ s : Session, s.Follows strict (x s).2)
    (name : Text) (size : Value) (s : Session) : s.Follows strict (countedAs name size x s).2 := by
  have hrun := hx s
  unfold countedAs
  generalize x s = run at hrun
  obtain ⟨r, t⟩ := run
  have hrecord := hrun.trans (Session.follows_record t name size)
  simp only
  split
  · next h => rwa [h] at hrecord
  · next h => rwa [h] at hrecord

end Action

/-! ## Steps and scripts -/

open Session (Follows)

/-- A command without direct assignment leaves settled generators settled, and makes no others unless it may
render. -/
theorem Command.run_follows {c : Command} (hchecked : c.isChecked = true) (slot : Text) (s : Session) :
    s.Follows (c.isRendering = false) (c.run slot s).2 := by
  have hoperating := Action.operating_follows
  cases hcounters : c.isAboutCounters with
  | false =>
    cases hrendering : c.isRendering with
    | false => exact (Action.changing_follows _).command hcounters hchecked hrendering slot s
    | true => exact (hoperating.command hcounters hchecked slot s).mono (by simp)
  | true =>
    cases c with
    | statistics | keepStatistics | keptStatistics | clearStatistics => exact .of_eq rfl
    | count name size value =>
      have hrun := hoperating.bind (hoperating.readOptional size) fun size =>
        hoperating.bind (hoperating.readOptional value) fun value =>
          hoperating.bind (Action.countedAs_follows (hoperating.counting value) name (size.getD (.int 0)))
            fun _ => hoperating.pure (truth true)
      exact (hrun s).mono (by simp [isRendering])
    | _ => cases hcounters

namespace Step

theorem run_follows {st : Step} (hchecked : st.command.isChecked = true) (s : Session) :
    s.Follows (st.command.isRendering = false) (st.run s).2 := Command.run_follows hchecked st.slot s

theorem after_follows {steps : List Step} (hsteps : ∀ st ∈ steps, st.command.isChecked = true)
    (s : Session) : s.Follows False (after steps s) := by
  induction steps generalizing s with
  | nil => exact .of_eq rfl
  | cons st rest ih =>
    obtain ⟨hst, hrest⟩ := List.forall_mem_cons.mp hsteps
    rw [after_cons]
    exact ((run_follows hst s).mono False.elim).trans (ih hrest _)

/-- Once a generator is settled it stays so. -/
theorem after_settled {steps : List Step} (hsteps : ∀ st ∈ steps, st.command.isChecked = true)
    {s : Session} {id : Nat} {g : Generator} (hg : s.generator? id = some g) (hsettled : g.IsSettled) :
    ∃ h, (after steps s).generator? id = some h ∧ h.IsSettled :=
  (after_follows hsteps s).kept id g hg hsettled

/-- What a step makes that renders nothing is settled. -/
theorem made_settled {st : Step} (hchecked : st.command.isChecked = true)
    (hrendering : st.command.isRendering = false) {s : Session} {id : Nat} (hid : s.generator? id = none)
    {h : Generator} (hh : (st.run s).2.generator? id = some h) : h.IsSettled :=
  (run_follows hchecked s).made hrendering id h (Array.getElem?_eq_none_iff.mp hid) hh

end Step

end JsonWriter
