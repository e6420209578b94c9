import JsonWriter.Proofs.Session.Records

/-!
# Faults on their way out

A fault of generation is logged once for each activation of generating that it leaves. How many these are
is read off the way from the value generated down to the place where the fault is raised: an object that
generates in turn is one more, an object that only renders is none. Main statement:
`generateConfigured_records`.
-/

namespace JsonWriter

open Render (Loop Visit Part)

/-- A rendering with so many levels of objects, and the session in which it starts. -/
structure Rendering where
  level : Nat
  value : Value
  id : Nat
  depth : Option Value
  session : Session

namespace Rendering

variable (r : Rendering)

def generator : Generator := (r.session.generator? r.id).getD .initial

def run : Except Fault Text × Session := renderAt r.level r.value r.id r.depth r.session

def parts : Action (List Part) :=
  Render.parts (Extension.writeAt r.generator r.level) r.generator.format r.value
    (r.depth.getD r.generator.depth)

def turn (c : Loop) : Loop ⊕ Loop.Outcome :=
  c.turn (Extension.writeAt r.generator r.level) r.generator.format

/-- The turns of the rendering lead there. -/
def Meets (c : Loop) : Prop :=
  (Loop.start r.value (r.depth.getD r.generator.depth) r.session).Reaches
    (Extension.writeAt r.generator r.level) r.generator.format c

/-- The next turn of the rendering calls an object, which has so many levels. -/
structure Calls (level : Nat) (c : Loop) (p : Visit) (e : Extension Value) : Prop where
  meets : r.Meets c
  pending : c.pending = some p
  object : p.value.node = .extension e
  below : r.level = level + 1

end Rendering

/-- A fault is raised somewhere in what is left to do, and on its way out it leaves so many activations of
generating. -/
inductive Leaves (f : Fault) : Nat → Extension.Plan → Session → Nat → Prop
  | generate {level : Nat} {v : Value} {id : Nat} {s : Session} {n : Nat}
    (h : Leaves f level (.render v id none) s n) : Leaves f level (.generate v id) s (n + 1)
  | output {level : Nat} {v : Value} {id : Nat} {s s' : Session} {t : Text}
    (hrender : renderAt level v id none s = (.ok t, s'))
    (hcheck : checkOutput ((s'.generator? id).getD .initial).asciiOnly.isTrue t = .error f) :
    Leaves f level (.generate v id) s 1
  | token {r : Rendering} {c : Loop} {s' : Session} (hc : r.Meets c)
    (hnode : ∀ p ∈ c.pending, ∀ e, p.value.node ≠ .extension e)
    (hturn : r.turn c = .inr (.error f, s')) :
    Leaves f r.level (.render r.value r.id r.depth) r.session 0
  | prepare {r : Rendering} {level : Nat} {c : Loop} {p : Visit} {e : Extension Value} {s' : Session}
    (hcalls : r.Calls level c p e)
    (hprepare : e.prepare r.generator p.depth c.session = (.error f, s')) :
    Leaves f r.level (.render r.value r.id r.depth) r.session 0
  | inside {r : Rendering} {level : Nat} {c : Loop} {p : Visit} {e : Extension Value}
    {plan : Extension.Plan} {s' : Session} {n : Nat} (hcalls : r.Calls level c p e)
    (hprepare : e.prepare r.generator p.depth c.session = (.ok plan, s')) (h : Leaves f level plan s' n) :
    Leaves f r.level (.render r.value r.id r.depth) r.session n
  | answer {r : Rendering} {level : Nat} {c : Loop} {p : Visit} {e : Extension Value}
    {plan : Extension.Plan} {s' s'' : Session} {result : Value} (hcalls : r.Calls level c p e)
    (hprepare : e.prepare r.generator p.depth c.session = (.ok plan, s'))
    (hperform : plan.perform (renderAt level) s' = (.ok result, s''))
    (hreturned : e.returned result = .error f) :
    Leaves f r.level (.render r.value r.id r.depth) r.session 0

/-! ## Runs that fail -/

namespace Action

variable {α β : Type} {x : Action α} {s : Session} {f : Fault}

/-- Actions in a row fail if the first one does, or else the second one. -/
theorem bind_eq_error {k : α → Action β} (h : ((x >>= k) s).1 = .error f) :
    (∃ t, x s = (.error f, t)) ∨ ∃ a t, x s = (.ok a, t) ∧ (k a t).1 = .error f := by
  rw [bind_apply] at h
  generalize x s = run at h
  obtain ⟨f' | a, t⟩ := run
  · obtain rfl : f' = f := Except.error.inj h
    exact .inl ⟨t, rfl⟩
  · exact .inr ⟨a, t, rfl, h⟩

theorem map_eq_error {g : α → β} : ((g <$> x) s).1 = .error f ↔ (x s).1 = .error f := by
  rw [fst_map]
  cases (x s).1 <;> simp [Except.map]

end Action

/-- The run comes to the fault, with such records besides those of unknown keys, unless it finds no end. -/
def Session.Fails (s : Session) (f : Fault) (rest : List Record) {α : Type}
    (run : Except Fault α × Session) : Prop :=
  run.1 = .error .endless ∨ run.1 = .error f ∧ s.Accounts run.2 rest

namespace Session.Fails

variable {α β : Type} {s t : Session} {f : Fault} {rest : List Record} {x : Action α}

theorem bind (h : s.Fails f rest (x t)) (k : α → Action β) : s.Fails f rest ((x >>= k) t) := by
  rw [Action.bind_apply]
  generalize x t = run at h
  obtain ⟨r, u⟩ := run
  obtain h | ⟨h, haccounts⟩ := h
  · obtain rfl : r = .error .endless := h
    exact .inl rfl
  · obtain rfl : r = .error f := h
    exact .inr ⟨rfl, haccounts⟩

theorem map_iff (g : α → β) : s.Fails f rest ((g <$> x) t) ↔ s.Fails f rest (x t) := by
  rw [← bind_pure_comp]
  refine ⟨fun h => ?_, fun h => h.bind _⟩
  rw [Action.bind_apply] at h
  generalize x t = run at h
  obtain ⟨e | a, u⟩ := run
  · obtain h | ⟨h, haccounts⟩ := h
    · exact .inl (congrArg Except.error (Except.error.inj h))
    · exact .inr ⟨congrArg Except.error (Except.error.inj h), haccounts⟩
  · obtain h | ⟨h, -⟩ := h
    · cases h
    · cases h

theorem counted (h : s.Fails f rest (x t)) (name : Text) (size : Nat) :
    s.Fails f rest (Action.counted name size x t) :=
  h.imp id fun h => ⟨h.1, h.2.record name (.int size)⟩

theorem logged (h : s.Fails f rest (x t)) (hf : f.IsGeneration) :
    s.Fails f (rest ++ [.failed f]) (Action.logged x t) := by
  rw [Action.logged]
  generalize x t = run at h
  obtain ⟨r, u⟩ := run
  obtain h | ⟨h, haccounts⟩ := h
  · obtain rfl : r = .error .endless := h
    exact .inl rfl
  · obtain rfl : r = .error f := h
    simp only [if_pos hf]
    exact .inr ⟨rfl, haccounts.failed f⟩

theorem after {run : Except Fault α × Session} (h : t.Fails f rest run) (hs : s.Accounts t []) :
    s.Fails f rest run := h.imp id fun h => ⟨h.1, hs.trans h.2⟩

end Session.Fails

/-! ## Turns of a rendering -/

namespace Rendering

variable (r : Rendering)

theorem run_eq : r.run = (do
      let parts ← Action.counted (text "render") 0 r.parts
      Action.ofExcept (Part.join parts)) r.session := by
  rw [run, renderAt_eq, Action.bind_apply, Action.generator, Action.resume_ok]
  rfl

/-- The parts of a rendering are what its turns come to, unless these find no end. -/
theorem exists_meets (h : (r.parts r.session).1 ≠ .error .endless) :
    ∃ c, r.Meets c ∧ r.turn c = .inr (r.parts r.session) := by
  obtain hendless | hcomes := Render.comes_or_endless (Extension.writeAt r.generator r.level)
    r.generator.format r.value (r.depth.getD r.generator.depth) r.session
  · exact absurd hendless h
  · exact Render.Loop.comes_iff.mp hcomes

variable {r} {c : Loop} {f : Fault} {rest : List Record}

theorem Meets.fails (hc : r.Meets c) {out : Loop.Outcome} (hturn : r.turn c = .inr out)
    (h : r.session.Fails f rest out) : r.session.Fails f rest r.run := by
  rw [run_eq]
  refine (Session.Fails.counted ?_ _ _).bind _
  obtain hendless | hcomes := Render.comes_or_endless (Extension.writeAt r.generator r.level)
    r.generator.format r.value (r.depth.getD r.generator.depth) r.session
  · exact .inl hendless
  · have hout : r.parts r.session = out := hcomes.unique (Render.Loop.comes_iff.mpr ⟨c, hc, hturn⟩)
    rwa [hout]

/-- On the way nothing is logged but unknown keys. -/
theorem Meets.accounts (hc : r.Meets c) : r.session.Accounts c.session [] := by
  have hwrite := Action.generating_accounted.writeAt r.level r.generator
  have hlead (f : Generator.Format) (fr : Render.Frame) (key? : Option Value) :=
    Action.generating_accounted.lead f fr key?
  refine Loop.Reaches.keeps (P := fun c => r.session.Accounts c.session []) ?_ hc (.refl _)
  intro c c' haccounts hturn
  cases Loop.turned_of_turn hturn with
  | entered | closed => exact haccounts
  | @leaf p frames w s s' t hv ht =>
    have hleaf := Action.generating_accounted.leaf hwrite r.generator.format p.value p.depth s
    rw [ht] at hleaf
    exact haccounts.trans (hleaf nofun)
  | @advanced fr entry rest frames w parts s s' hr hl =>
    have hlead := hlead r.generator.format fr entry.key? s
    rw [hl] at hlead
    exact haccounts.trans (hlead nofun)

/-- The last turn logs nothing if it calls no object. -/
theorem accounts_of_turn (hnode : ∀ p ∈ c.pending, ∀ e, p.value.node ≠ .extension e)
    {out : Loop.Outcome} (hturn : r.turn c = .inr out) : c.session.Accounts out.2 [] := by
  have hpreparing := Action.preparing_accounted fun _ => True
  obtain ⟨_ | p, frames, w, s⟩ := c
  · cases frames with
    | nil =>
      obtain rfl := Sum.inr.inj hturn
      exact .refl s
    | cons fr frames =>
      simp only [turn, Loop.turn] at hturn
      split at hturn
      · split at hturn
        · obtain rfl := Sum.inr.inj hturn
          exact .refl s
        · cases hturn
      · next entry rest hr =>
        have hlead := hpreparing.lead r.generator.format fr entry.key? s fun _ _ => trivial
        split at hturn
        · next hl =>
          obtain rfl := Sum.inr.inj hturn
          rwa [hl] at hlead
        · cases hturn
  · simp only [turn, Loop.turn] at hturn
    split at hturn
    · split at hturn
      · obtain rfl := Sum.inr.inj hturn
        exact .refl s
      · cases hturn
    · have hleaf := hpreparing.leaf (fun _ _ => hpreparing.fail .endless) r.generator.format p.value
        p.depth s fun _ _ => trivial
      rw [Render.leaf_congr (hnode p rfl) _ fun _ _ => Action.fail .endless] at hturn
      split at hturn
      · next hl =>
        obtain rfl := Sum.inr.inj hturn
        rwa [hl] at hleaf
      · cases hturn

/-- A turn that calls an object does what this does. -/
theorem turn_object {p : Visit} {e : Extension Value} (hp : c.pending = some p)
    (he : p.value.node = .extension e) :
    r.turn c = match Extension.writeAt r.generator r.level e p.depth c.session with
      | (.error f, t) => .inr (.error f, t)
      | (.ok text, t) => .inl ⟨none, c.frames, .text text :: c.written, t⟩ := by
  have hleaf : Render.leaf (Extension.writeAt r.generator r.level) r.generator.format p.value p.depth =
      Extension.writeAt r.generator r.level e p.depth := by rw [Render.leaf, he]
  have hscalar : Render.container? p.value = none := by rw [Render.container?, he]
  obtain ⟨pending, frames, w, s⟩ := c
  obtain rfl := hp
  cases hrun : Extension.writeAt r.generator r.level e p.depth s with
  | mk outcome t => cases outcome <;> simp only [turn, Loop.turn, hscalar, hleaf, hrun]

theorem Calls.fails {level : Nat} {p : Visit} {e : Extension Value} (h : r.Calls level c p e)
    (hwrite : c.session.Fails f rest (Extension.writeAt r.generator (level + 1) e p.depth c.session)) :
    r.session.Fails f rest r.run := by
  have hturn := turn_object (r := r) h.pending h.object
  rw [h.below] at hturn
  replace hwrite := hwrite.after h.meets.accounts
  generalize Extension.writeAt r.generator (level + 1) e p.depth c.session = run at hwrite hturn
  obtain ⟨f' | t, s'⟩ := run
  · exact h.meets.fails hturn (hwrite.imp (congrArg Except.error <| Except.error.inj ·)
      fun ⟨h, haccounts⟩ => ⟨congrArg Except.error (Except.error.inj h), haccounts⟩)
  · obtain hwrite | ⟨hwrite, -⟩ := hwrite
    · cases hwrite
    · cases hwrite

end Rendering

/-! ## Faults and records -/

/-- A fault of generation is logged as often as it leaves an activation of generating. -/
theorem Leaves.fails {f : Fault} {level : Nat} {plan : Extension.Plan} {s : Session} {n : Nat}
    (h : Leaves f level plan s n) (hf : f.IsGeneration) :
    s.Fails f (List.replicate n (.failed f)) (plan.perform (renderAt level) s) := by
  have hprepared {r : Rendering} {level : Nat} {c : Loop} {p : Visit} {e : Extension Value}
      (_ : r.Calls level c p e) : c.session.Accounts (e.prepare r.generator p.depth c.session).2 [] :=
    (Action.preparing_accounted fun _ => True).prepare _ _ _ _ fun _ _ => trivial
  induction h with
  | @generate level v id s n h ih =>
    have hrender : s.Fails f (List.replicate n (.failed f)) (renderAt level v id none s) :=
      (Session.Fails.map_iff _).mp ih
    refine (Session.Fails.map_iff _).mpr ?_
    rw [List.replicate_succ']
    exact ((hrender.bind _).counted _ _).logged hf
  | @output level v id s s' t hrender hcheck =>
    have haccounts := Action.generating_accounted.renderAt level v id none s
    rw [hrender] at haccounts
    refine (Session.Fails.map_iff _).mpr ?_
    change s.Fails f ([] ++ [.failed f]) _
    refine Session.Fails.logged (Session.Fails.counted ?_ _ _) hf
    rw [Action.bind_apply, hrender, Action.resume_ok, Action.bind_apply, Action.generator,
      Action.resume_ok, Action.bind_apply, Action.ofExcept, hcheck]
    exact .inr ⟨rfl, haccounts (by simp)⟩
  | token hc hnode hturn =>
    refine (Session.Fails.map_iff _).mpr (hc.fails hturn (.inr ⟨rfl, ?_⟩))
    exact hc.accounts.trans (Rendering.accounts_of_turn hnode hturn)
  | prepare hcalls hprepare =>
    have haccounts := hprepared hcalls
    rw [hprepare] at haccounts
    refine (Session.Fails.map_iff _).mpr (hcalls.fails ?_)
    rw [Extension.writeAt_eq]
    refine Session.Fails.bind ?_ _
    rw [hprepare]
    exact .inr ⟨rfl, haccounts⟩
  | inside hcalls hprepare h ih =>
    have haccounts := hprepared hcalls
    rw [hprepare] at haccounts
    refine (Session.Fails.map_iff _).mpr (hcalls.fails ?_)
    rw [Extension.writeAt_eq, Action.bind_apply, hprepare, Action.resume_ok]
    exact (ih.bind _).after haccounts
  | @answer r level c p e plan s' s'' result hcalls hprepare hperform hreturned =>
    have haccounts := hprepared hcalls
    rw [hprepare] at haccounts
    have hperformed := Action.generating_accounted.perform
      (Action.generating_accounted.renderAt level) plan s'
    rw [hperform] at hperformed
    refine (Session.Fails.map_iff _).mpr (hcalls.fails ?_)
    rw [Extension.writeAt_eq, Action.bind_apply, hprepare, Action.resume_ok, Action.bind_apply, hperform,
      Action.resume_ok, Action.ofExcept, hreturned]
    exact .inr ⟨rfl, haccounts.trans (hperformed (by simp))⟩

theorem Leaves.pos {f : Fault} {level : Nat} {v : Value} {id : Nat} {s : Session} {n : Nat}
    (h : Leaves f level (.generate v id) s n) : 0 < n := by
  cases h with
  | generate => exact Nat.succ_pos _
  | output => exact Nat.one_pos

/-- A fault of generation that leaves a rendering at an object is raised in it, if that is so of what the
object has left to do. -/
theorem exists_leaves_object {f : Fault} {r : Rendering} {level : Nat} {c : Loop} {p : Visit}
    {e : Extension Value} (hcalls : r.Calls level c p e)
    (hinside : ∀ plan s, (Extension.Plan.perform (renderAt level) plan s).1 = .error f →
      ∃ n, Leaves f level plan s n)
    (h : (Extension.writeAt r.generator (level + 1) e p.depth c.session).1 = .error f) :
    ∃ n, Leaves f r.level (.render r.value r.id r.depth) r.session n := by
  rw [Extension.writeAt_eq] at h
  obtain ⟨s', hprepare⟩ | ⟨plan, s', hprepare, h⟩ := Action.bind_eq_error h
  · exact ⟨0, .prepare hcalls hprepare⟩
  obtain ⟨s'', hperform⟩ | ⟨result, s'', hperform, hreturned⟩ := Action.bind_eq_error h
  · obtain ⟨n, hn⟩ := hinside plan s' (by rw [hperform])
    exact ⟨n, .inside hcalls hprepare hn⟩
  · exact ⟨0, .answer hcalls hprepare hperform hreturned⟩

section

variable {f : Fault} (hf : f.IsGeneration)

include hf

theorem exists_leaves_render {r : Rendering}
    (hinside : ∀ level, r.level = level + 1 → ∀ plan s,
      (Extension.Plan.perform (renderAt level) plan s).1 = .error f → ∃ n, Leaves f level plan s n)
    (h : r.run.1 = .error f) : ∃ n, Leaves f r.level (.render r.value r.id r.depth) r.session n := by
  have hfinite : f ≠ .endless := by
    rintro rfl
    exact hf
  rw [Rendering.run_eq] at h
  obtain ⟨t, hparts⟩ | ⟨parts, t, -, hjoin⟩ := Action.bind_eq_error h
  · have hparts : (r.parts r.session).1 = .error f := (Prod.mk.inj hparts).1
    obtain ⟨c, hc, hturn⟩ := r.exists_meets fun hendless =>
      hfinite (Except.error.inj (hparts.symm.trans hendless))
    generalize r.parts r.session = out at hparts hturn
    obtain ⟨outcome, s'⟩ := out
    obtain rfl : outcome = .error f := hparts
    by_cases hnode : ∃ p e, c.pending = some p ∧ p.value.node = .extension e
    · obtain ⟨p, e, hp, he⟩ := hnode
      have hwrite : (Extension.writeAt r.generator r.level e p.depth c.session).1 = .error f := by
        have hobject := (Rendering.turn_object (r := r) hp he).symm.trans hturn
        generalize Extension.writeAt r.generator r.level e p.depth c.session = run at hobject
        obtain ⟨f' | text, s''⟩ := run
        · have hfault := (Prod.mk.inj (Sum.inr.inj hobject)).1
          exact congrArg Except.error (Except.error.inj hfault)
        · cases hobject
      cases hlevel : r.level with
      | zero =>
        rw [hlevel] at hwrite
        exact absurd (Except.error.inj hwrite).symm hfinite
      | succ level =>
        rw [hlevel] at hwrite
        rw [← hlevel]
        exact exists_leaves_object ⟨hc, hp, he, hlevel⟩ (hinside level hlevel) hwrite
    · exact ⟨0, .token hc (fun p hp e he => hnode ⟨p, e, hp, he⟩) hturn⟩
  · -- What is written and cannot be joined is a fault of another kind.
    have hjoin : Part.join parts = .error f := hjoin
    unfold Part.join at hjoin
    split at hjoin
    · cases hjoin
    · obtain rfl := Except.error.inj hjoin
      exact hf.elim

theorem exists_leaves (level : Nat) (plan : Extension.Plan) (s : Session)
    (h : (plan.perform (renderAt level) s).1 = .error f) : ∃ n, Leaves f level plan s n := by
  induction level using Nat.strongRecOn generalizing plan s with
  | ind level ih =>
    have hrender (v : Value) (id : Nat) (depth : Option Value) (s : Session)
        (h : (renderAt level v id depth s).1 = .error f) : ∃ n, Leaves f level (.render v id depth) s n :=
      exists_leaves_render hf (r := ⟨level, v, id, depth, s⟩) (fun l hl => ih l (by
        change level = l + 1 at hl
        omega)) h
    cases plan with
    | answer v => cases h
    | render v id depth => exact hrender v id depth s (Action.map_eq_error.mp h)
    | generate v id =>
      have hgenerate := Action.map_eq_error.mp h
      rw [generateWith, Action.fst_logged] at hgenerate
      obtain ⟨s', hr⟩ | ⟨t, s', hr, hcheck⟩ := Action.bind_eq_error hgenerate
      · obtain ⟨n, hn⟩ := hrender v id none s (by rw [hr])
        exact ⟨n + 1, .generate hn⟩
      · rw [Action.bind_apply, Action.generator, Action.resume_ok] at hcheck
        obtain ⟨s'', hcheck⟩ | ⟨_, _, _, hpure⟩ := Action.bind_eq_error hcheck
        · exact ⟨1, .output hr (Prod.mk.inj hcheck).1⟩
        · cases hpure

end

theorem Generator.Refuses.not_isGeneration {options : Value} {f : Fault} (h : Refuses options f) :
    ¬ f.IsGeneration := by
  cases h with
  | notMapping h => exact not_false
  | entry h hbefore he =>
    cases he with
    | notText => exact not_false
    | notWhole => exact not_false
    | negative => exact not_false
    | unhashable => exact not_false

/-- What is no configuration is a fault of another kind. -/
theorem Action.resolve_not_isGeneration {config : Value} {s : Session} {f : Fault}
    (h : (resolve config s).1 = .error f) : ¬ f.IsGeneration := by
  have hbuild (options : Value) (h : (build options s).1 = .error f) : ¬ f.IsGeneration := by
    have hconfigures := configures_build options s
    generalize build options s = run at h hconfigures
    cases hconfigures with
    | made => cases h
    | refused hf =>
      obtain rfl := Except.error.inj h
      exact hf.not_isGeneration
  unfold resolve at h
  split at h
  · cases h
  · split at h
    · exact hbuild _ h
    · exact hbuild _ h

/-- What is logged when a text is generated, whatever objects are in the value. A generator that is built
from a mapping, and the one that an object is handed, logs each unknown key of what it is made of once, in
the order in which the keys come first. Unless a fault of generation comes of it nothing else is logged. A
fault of generation is logged besides, at the end, once for each activation of generating that it
leaves. -/
theorem generateConfigured_records (v config : Value) (s : Session) :
    (∀ options t, Session.Configures t options (Action.build options t)) ∧
    (∀ g depth t, Session.Configures t (.dictionary g.entries) (Extension.hand g depth t)) ∧
    ((∀ f, (generateConfigured v config s).1 = .error f → ¬ f.IsGeneration) →
      s.Accounts (generateConfigured v config s).2 []) ∧
    ∀ f, f.IsGeneration → (generateConfigured v config s).1 = .error f →
      ∃ n id t, 0 < n ∧ s.Accounts (generateConfigured v config s).2 (List.replicate n (.failed f)) ∧
        Action.resolve config s = (.ok id, t) ∧ ∀ m, Leaves f v.rank (.generate v id) t m ↔ m = n := by
  refine ⟨configures_build, configures_hand, Action.generating_accounted.generateConfigured v config s,
    fun f hf h => ?_⟩
  obtain ⟨t, hresolve⟩ | ⟨id, t, hresolve, hgenerate⟩ := Action.bind_eq_error h
  · exact absurd hf (Action.resolve_not_isGeneration (by rw [hresolve]))
  have hresolved := Action.generating_accounted.resolve config s
  rw [hresolve] at hresolved
  have hrun : generateConfigured v config s = generate v id t := by
    rw [generateConfigured, Action.bind_apply, hresolve, Action.resume_ok]
  -- The records are as many as the activations that are left, on whatever way to the fault these are found.
  have hrecords (m : Nat) (hm : Leaves f v.rank (.generate v id) t m) :
      s.Accounts (generate v id t).2 (List.replicate m (.failed f)) := by
    have hfails : t.Fails f (List.replicate m (.failed f)) (generate v id t) :=
      (Session.Fails.map_iff _).mp (hm.fails hf)
    obtain hendless | ⟨-, haccounts⟩ := hfails
    · obtain rfl := Except.error.inj (hgenerate.symm.trans hendless)
      exact hf.elim
    · exact (hresolved (by simp)).trans haccounts
  have hperform : (Extension.Plan.perform (renderAt v.rank) (.generate v id) t).1 = .error f :=
    Action.map_eq_error.mpr hgenerate
  obtain ⟨n, hn⟩ := exists_leaves hf v.rank (.generate v id) t hperform
  refine ⟨n, id, t, hn.pos, hrun ▸ hrecords n hn, hresolve, fun m => ⟨fun hm => ?_, ?_⟩⟩
  · have hlength := congrArg List.length ((hrecords m hm).unique (hrecords n hn))
    simpa using hlength
  · rintro rfl
    exact hn

/-! ## A fault within two activations -/

def nanFault : Fault := .encoding (.notFinite (text "NaN"))

/-- An object that renders NaN. -/
def nanUse : Extension Value := .delegate (.float .nan) none

/-- An object that generates this one with a generator of its own. -/
def regenerating : Extension Value := .reconfigured (.extension nanUse) none

/-- A configuration with a key of no use, and the generator of it. -/
def uselessConfig : Value := .dictionary [(.str (text "unknown"), .int 1)]

def uselessGenerator : Generator := { Generator.initial with unknown := [(.str (text "unknown"), .int 1)] }

/-- The session when the generator is made, when the outer object generates and when the inner one
renders. -/
def configuredSession : Session := (Session.initial true).adding uselessGenerator [.str (text "unknown")]

def regeneratingSession : Session :=
  { (configuredSession.adding uselessGenerator [.str (text "unknown")]).adding .initial [] with
    identities := 1 }

def nanSession : Session := { regeneratingSession.adding .initial [] with identities := 2 }

theorem prepare_regenerating :
    regenerating.prepare uselessGenerator (.int 0) configuredSession =
      (.ok (.generate (.own 0 (.extension nanUse)) 2), regeneratingSession) := by
  have hcopy : uselessGenerator.copy = .ok (uselessGenerator, [.str (text "unknown")]) := rfl
  rw [Extension.prepare, Action.bind_apply, Extension.hand_apply hcopy]
  rfl

theorem prepare_nanUse :
    nanUse.prepare .initial (.int 0) regeneratingSession =
      (.ok (.render (.own 1 (.float .nan)) 3 none), nanSession) := by
  have hcopy : Generator.initial.copy = .ok (.initial, []) := rfl
  rw [Extension.prepare, Action.bind_apply, Extension.hand_apply hcopy]
  rfl

/-- NaN is refused in the innermost of three renderings, two of which generating starts. -/
theorem leaves_regenerating :
    Leaves nanFault 2 (.generate (.extension regenerating) 0) configuredSession 2 := by
  let outer : Rendering := ⟨2, .extension regenerating, 0, none, configuredSession⟩
  let middle : Rendering := ⟨1, .own 0 (.extension nanUse), 2, none, regeneratingSession⟩
  let inner : Rendering := ⟨0, .own 1 (.float .nan), 3, none, nanSession⟩
  have hinner : Leaves nanFault 0 (.render inner.value 3 none) nanSession 0 :=
    .token (r := inner) .refl (fun p hp e he => by cases hp; cases he) rfl
  have hmiddle : Leaves nanFault 1 (.render middle.value 2 none) regeneratingSession 0 :=
    .inside (r := middle) ⟨.refl, rfl, rfl, rfl⟩ prepare_nanUse hinner
  have houter : Leaves nanFault 2 (.render outer.value 0 none) configuredSession 1 :=
    .inside (r := outer) ⟨.refl, rfl, rfl, rfl⟩ prepare_regenerating (.generate hmiddle)
  exact .generate houter

theorem generate_regenerating :
    (generate (.extension regenerating) 0 configuredSession).1 = .error nanFault := by
  have hfinite : (Value.own 1 (.float .nan)).IsFinite := trivial
  have hinner : (renderAt 0 (.own 1 (.float .nan)) 3 none nanSession).1 = .error nanFault := by
    rw [(renderAt_eq_layOut hfinite).2 0 3 none]
    decide +kernel
  have hmiddle : (renderAt 1 (.own 0 (.extension nanUse)) 2 none regeneratingSession).1 =
      .error nanFault := by
    rw [fst_renderAt_of_prepare rfl rfl none prepare_nanUse, Extension.Plan.perform,
      Action.map_eq_error.mpr hinner]
    rfl
  have houter : (renderAt 2 (.extension regenerating) 0 none configuredSession).1 =
      .error nanFault := by
    have hgenerate : (generateWith (renderAt 1) (.own 0 (.extension nanUse)) 2 regeneratingSession).1 =
        .error nanFault := by
      rw [generateWith, Action.fst_logged, Action.fst_counted, Action.fst_bind_eq_error hmiddle]
    rw [fst_renderAt_of_prepare rfl rfl none prepare_regenerating, Extension.Plan.perform,
      Action.map_eq_error.mpr hgenerate]
    rfl
  have hrank : (Value.extension regenerating).rank = 2 := rfl
  rw [generate, generateWith, Action.fst_logged, Action.fst_counted, render, hrank,
    Action.fst_bind_eq_error houter]

/-- A key of no use is logged, and then the fault for each of the two activations that it leaves. -/
theorem generateConfigured_regenerating :
    let v := Value.extension regenerating
    nanFault.IsGeneration ∧ (generateConfigured v uselessConfig (.initial true)).1 = .error nanFault ∧
      (Session.initial true).Configures uselessConfig (Action.build uselessConfig (.initial true)) ∧
      Leaves nanFault v.rank (.generate v 0) configuredSession 2 ∧
      (Session.initial true).Accounts (generateConfigured v uselessConfig (.initial true)).2
        [.failed nanFault, .failed nanFault] := by
  intro v
  have hresolve : Action.resolve uselessConfig (.initial true) = (.ok 0, configuredSession) :=
    Action.build_apply (.initial true) rfl
  have hfault : (generateConfigured v uselessConfig (.initial true)).1 = .error nanFault := by
    rw [generateConfigured, Action.bind_apply, hresolve, Action.resume_ok]
    exact generate_regenerating
  obtain ⟨hbuild, -, -, hfails⟩ := generateConfigured_records v uselessConfig (.initial true)
  obtain ⟨n, id, t, -, haccounts, hresolved, hiff⟩ := hfails nanFault trivial hfault
  obtain ⟨hid, rfl⟩ := Prod.mk.inj (hresolve.symm.trans hresolved)
  obtain rfl := Except.ok.inj hid
  -- The way down to the fault tells how many activations it leaves.
  obtain rfl := (hiff 2).mp leaves_regenerating
  exact ⟨trivial, hfault, hbuild uselessConfig _, leaves_regenerating, haccounts⟩

end JsonWriter
