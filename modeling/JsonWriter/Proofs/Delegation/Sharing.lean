import JsonWriter.Proofs.Delegation.Agreement

/-!
# Generators that stay

Generators are added, and those that are there stay. So what does not depend on a generator comes to the
same before and after, whatever is rendered in between. Main statements: `leaf_settles`,
`label_settles` and `settles_read`.
-/

namespace JsonWriter

/-- The generators of the session are there as they were. -/
def Session.Keeps (s s' : Session) : Prop :=
  ∀ id g, s.generator? id = some g → s'.generator? id = some g

namespace Session

theorem Keeps.refl (s : Session) : s.Keeps s := fun _ _ h => h

theorem Keeps.trans {s s' s'' : Session} (h : s.Keeps s') (h' : s'.Keeps s'') : s.Keeps s'' :=
  fun id g hg => h' id g (h id g hg)

theorem Alike.keeps {s s' : Session} (h : s.Alike s') : s.Keeps s' :=
  fun id _ hg => (h.generator? id).trans hg

theorem Keeps.record {s s' : Session} (h : s.Keeps s') (name : Text) (size : Value) :
    s.Keeps (s'.record name size).2 :=
  h.trans ((Alike.refl s').record name size).keeps

/-- The session with a record for each key that was of no use. -/
def ignoring (s : Session) (keys : List Value) : Session :=
  { s with log := keys.foldl (fun log key => log.push (.ignored key)) s.log }

end Session

namespace Action

section

variable {α β : Type}

/-- The action comes to the same in all sessions. -/
def IsFixed (x : Action α) : Prop := ∀ s s', (x s).1 = (x s').1

theorem isFixed_pure (a : α) : IsFixed (pure a : Action α) := fun _ _ => rfl

theorem isFixed_fail (e : Fault) : IsFixed (fail e : Action α) := fun _ _ => rfl

theorem IsFixed.bind {x : Action α} {k : α → Action β} (hx : IsFixed x) (hk : ∀ a, IsFixed (k a)) :
    IsFixed (x >>= k) := by
  intro s s'
  have hr := hx s s'
  rw [bind_apply, bind_apply]
  generalize x s = run at hr
  generalize x s' = run' at hr
  obtain ⟨r, t⟩ := run
  obtain ⟨r', t'⟩ := run'
  subst hr
  cases r with
  | error e => rfl
  | ok a => exact hk a t t'

theorem isFixed_shown {v : Value} (hv : v.IsSteady) : IsFixed (shown v) := by
  intro s s'
  simp only [shown, hv s.describe s'.describe]
  split <;> rfl

/-- What comes to the same in all sessions and changes next to nothing comes to it while generators are
added. -/
theorem IsCalm.settles {x : Action α} (hx : IsCalm x) (hfixed : IsFixed x) (s s' : Session) :
    Settles s.Keeps x (x s').1 :=
  fun t ht => ⟨hfixed t s', ht.trans (hx t t (.refl t)).2.keeps⟩

theorem Settles.logged {x : Action α} {r : Except Fault α} {s : Session}
    (hx : Settles s.Keeps x r) : Settles s.Keeps (logged x) r := by
  intro t ht
  obtain ⟨hr, ht'⟩ := hx t ht
  unfold Action.logged
  generalize x t = run at hr ht'
  obtain ⟨_ | a, t'⟩ := run
  · refine ⟨hr, ?_⟩
    simp only
    split
    · exact ht'
    · exact ht'
  · exact ⟨hr, ht'⟩

/-- A value that is written out is read as itself, up to identities. -/
theorem settles_read {v : Value} (hv : v.IsPlain) {s : Session} {k : Value → Action β}
    {r : Except Fault β} (h : ∀ m n w, Value.Numbered m n v w → Settles s.Keeps (k w) r) :
    Settles s.Keeps (v.read >>= k) r := by
  intro t ht
  obtain ⟨w, n, hread, hw⟩ := Value.read_of_isPlain v hv t
  rw [bind_apply, hread, resume_ok]
  exact h _ _ w hw _ ht

theorem configured_eq (g : Generator) (ignored : List Value) (s : Session) :
    configured (.ok (g, ignored)) s = (.ok g, s.ignoring ignored) := by
  have hlogged : (ignored.forM fun key => Action.log (.ignored key)) s =
      (.ok (), s.ignoring ignored) := by
    induction ignored generalizing s with
    | nil => rfl
    | cons key rest ih =>
      change (Action.log (.ignored key) >>= fun _ => rest.forM _) s = _
      rw [bind_apply]
      exact ih { s with log := s.log.push (.ignored key) }
  rw [configured, bind_apply, ofExcept, resume_ok]
  simp only
  rw [bind_apply, hlogged]
  rfl

theorem configured_apply (g : Generator) (ignored : List Value) (s : Session) :
    ∃ log, configured (.ok (g, ignored)) s = (.ok g, { s with log := log }) :=
  ⟨_, configured_eq g ignored s⟩

end

end Action

namespace Value

theorem literalIn_of_scalar (describe describe' : List Nat → Nat → Option Text) (entered : List Nat)
    (bound : List Text) : (v : Value) → v.Delegates → Render.container? v = none →
    literalIn describe entered bound v = literalIn describe' entered bound v
  | derived _, _, _ => rfl
  | own i v, h, hscalar => by
    rw [literalIn, literalIn]
    split
    · rfl
    · exact literalIn_of_scalar describe describe' _ bound v h hscalar
  | sequence _ _, _, hscalar | mapping _ _, _, hscalar | binary _ _, _, hscalar => by
    simp [Render.container?, node] at hscalar
  | null, _, _ | bool _, _, _ | int _, _, _ | float _, _, _ | str _, _, _ | setting _, _, _
  | memory _, _, _ | outer _, _, _ | object _, _, _ | type _, _, _ | extension _, _, _
  | described _, _, _ => rfl

/-- No scalar in such a value shows a generator. -/
theorem isSteady_of_scalar {v : Value} (h : v.Delegates) (hscalar : Render.container? v = none) :
    v.IsSteady := by
  intro describe describe'
  have hliteral : literal? describe v = literal? describe' v :=
    literalIn_of_scalar describe describe' [] [] v h hscalar
  cases v with
  | str _ | setting _ | object _ => rfl
  | mapping _ _ => simp [Render.container?, node] at hscalar
  | own _ v =>
    cases v with
    | object _ => rfl
    | mapping _ _ => simp [Render.container?, node] at hscalar
    | _ => exact hliteral
  | _ => exact hliteral

end Value

namespace Render

open JsonWriter.Action (Settles IsFixed)
open Generator (Format)

theorem quoted_isFixed (asciiOnly : Bool) (t shown : Text) : IsFixed (quoted asciiOnly t shown) :=
  fun s s' => by rw [quoted_eq, quoted_eq]

/-- The token of a scalar is the same while generators are added. -/
theorem leaf_settles (extend : Extender) (f : Format) {v : Value} (hv : v.Delegates)
    (hscalar : container? v = none) (hnode : ∀ e, v.node ≠ .extension e) (depth : Value)
    (s s' : Session) :
    Settles s.Keeps (leaf extend f v depth) (leaf extend f v depth s').1 := by
  have hshown := Action.isFixed_shown (Value.isSteady_of_scalar hv hscalar)
  exact (leaf_isCalm extend f v depth hnode).settles (leaf_induction quoted_isFixed
    (fun _ hk => hshown.bind hk) Action.isFixed_pure Action.isFixed_fail hnode extend f depth) s s'

/-- A key that shows no generator is the same while generators are added. -/
theorem label_settles (f : Format) {key : Value} (hkey : key.IsSteady) (s s' : Session) :
    Settles s.Keeps (label f key) (label f key s').1 :=
  (label_isCalm f key).settles
    (label_induction quoted_isFixed (fun _ hk => (Action.isFixed_shown hkey).bind hk) f) s s'

end Render

end JsonWriter
