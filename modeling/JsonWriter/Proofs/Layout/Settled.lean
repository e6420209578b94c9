import JsonWriter.Proofs.Layout.Recursion
import Mathlib.Data.List.Forall2

/-!
# Actions with a settled outcome

Without objects that write themselves, rendering changes nothing in a session but the counters of
calls, and nothing it reads depends on these. So what it comes to is settled by the session it starts
in. Main statement: `layOut_settles`, the layout of such a value is the one that the same recursion
gives without effects.
-/

namespace JsonWriter

theorem bind_eq_ok {α β : Type} {x : Except Fault α} {g : α → Except Fault β} {b : β} :
    (x >>= g) = .ok b ↔ ∃ a, x = .ok a ∧ g a = .ok b := by
  cases x <;> simp [bind, Except.bind]

theorem bind_eq_error {α β : Type} {x : Except Fault α} {g : α → Except Fault β} {e : Fault} :
    (x >>= g) = .error e ↔ x = .error e ∨ ∃ a, x = .ok a ∧ g a = .error e := by
  cases x <;> simp [bind, Except.bind]

theorem map_eq_ok {α β : Type} {x : Except Fault α} {g : α → β} {b : β} :
    x.map g = .ok b ↔ ∃ a, x = .ok a ∧ g a = b := by
  cases x <;> simp [Except.map]

/-- The text of a generator depends on nothing but the generators. -/
theorem Session.describeAt_congr {s s' : Session} (h : s'.generators = s.generators) (level : Nat) :
    s'.describeAt level = s.describeAt level := by
  induction level with
  | zero => rfl
  | succ level ih =>
    funext entered id
    simp only [describeAt, ih, generator?, h]

/-- The sessions that differ from this one in the counters of calls at most. -/
def Session.Alike (s s' : Session) : Prop := ∃ p, s' = { s with profile := p }

namespace Session

theorem Alike.refl (s : Session) : s.Alike s := ⟨s.profile, rfl⟩

theorem Alike.record {s s' : Session} (h : s.Alike s') (name : Text) (size : Value) :
    s.Alike (s'.record name size).2 := by
  obtain ⟨p, rfl⟩ := h
  unfold Session.record
  split
  · exact ⟨_, rfl⟩
  · exact ⟨p, rfl⟩

theorem Alike.generator? {s s' : Session} (h : s.Alike s') (id : Nat) :
    s'.generator? id = s.generator? id := by
  obtain ⟨p, rfl⟩ := h
  rfl

theorem Alike.describeAt {s s' : Session} (h : s.Alike s') (level : Nat) :
    s'.describeAt level = s.describeAt level := by
  have hgenerators : s'.generators = s.generators := by
    obtain ⟨p, rfl⟩ := h
    rfl
  exact describeAt_congr hgenerators level

theorem Alike.describe {s s' : Session} (h : s.Alike s') : s'.describe = s.describe := by
  have hd := h.describeAt
  obtain ⟨p, rfl⟩ := h
  funext entered id
  simp only [Session.describe, hd]

end Session

namespace Action

/-- In every session of a kind the action comes to `r`, and leaves one of that kind. -/
def Settles {α : Type} (holds : Session → Prop) (x : Action α) (r : Except Fault α) : Prop :=
  ∀ s, holds s → (x s).1 = r ∧ holds (x s).2

section

variable {α β : Type} {holds : Session → Prop}

theorem settles_ofExcept (r : Except Fault α) : Settles holds (ofExcept r) r := fun _ h => ⟨rfl, h⟩

theorem settles_pure (a : α) : Settles holds (pure a) (.ok a) := fun _ h => ⟨rfl, h⟩

theorem settles_fail (e : Fault) : Settles holds (fail e : Action α) (.error e) :=
  fun _ h => ⟨rfl, h⟩

theorem Settles.bind {x : Action α} {r : Except Fault α} {k : α → Action β}
    {k' : α → Except Fault β} (hx : Settles holds x r)
    (hk : ∀ a, r = .ok a → Settles holds (k a) (k' a)) : Settles holds (x >>= k) (r >>= k') := by
  intro s hs
  obtain ⟨hr, hs'⟩ := hx s hs
  rw [bind_apply]
  generalize x s = run at hr hs'
  obtain ⟨outcome, s'⟩ := run
  subst hr
  cases outcome with
  | error e => exact ⟨rfl, hs'⟩
  | ok a => exact hk a rfl s' hs'

theorem Settles.map {x : Action α} {r : Except Fault α} (hx : Settles holds x r) (g : α → β) :
    Settles holds (g <$> x) (r.map g) := by
  have h : Settles holds (x >>= fun a => pure (g a)) (r >>= fun a => .ok (g a)) :=
    hx.bind fun a _ => settles_pure _
  rw [bind_pure_comp] at h
  cases r <;> exact h

theorem settles_generator {id : Nat} {g : Generator}
    (hg : ∀ s, holds s → (s.generator? id).getD .initial = g) {k : Generator → Action β}
    {r : Except Fault β} (h : Settles holds (k g) r) : Settles holds (generator id >>= k) r := by
  intro s hs
  rw [bind_apply, generator, hg s hs, resume_ok]
  exact h s hs

theorem Settles.counted {x : Action α} {r : Except Fault α}
    (hrecord : ∀ s name size, holds s → holds (s.record name size).2) (hx : Settles holds x r)
    (name : Text) (size : Nat) : Settles holds (counted name size x) r := by
  intro s hs
  obtain ⟨hr, hs'⟩ := hx s hs
  exact ⟨hr, hrecord _ name (.int size) hs'⟩

end

/-- In sessions that differ in the counters of calls the action comes to the same, and it changes
nothing else. -/
def IsCalm {α : Type} (x : Action α) : Prop := ∀ s, Settles s.Alike x (x s).1

section

variable {α β : Type}

theorem isCalm_ofExcept (r : Except Fault α) : IsCalm (ofExcept r) := fun _ => settles_ofExcept r

theorem isCalm_pure (a : α) : IsCalm (pure a : Action α) := fun _ => settles_pure a

theorem isCalm_fail (e : Fault) : IsCalm (fail e : Action α) := fun _ => settles_fail e

theorem IsCalm.bind {x : Action α} {k : α → Action β} (hx : IsCalm x) (hk : ∀ a, IsCalm (k a)) :
    IsCalm (x >>= k) := by
  intro s
  have hs := hx s s (.refl s)
  have hb : ((x >>= k) s).1 = (x s).1 >>= fun a => (k a s).1 := by
    rw [bind_apply]
    generalize x s = run at hs
    obtain ⟨outcome, s'⟩ := run
    cases outcome with
    | error e => rfl
    | ok a => exact (hk a s s' hs.2).1
  rw [hb]
  exact (hx s).bind fun a _ => hk a s

theorem IsCalm.counted {x : Action α} (hx : IsCalm x) (name : Text) (size : Nat) :
    IsCalm (counted name size x) :=
  fun s => (hx s).counted (fun _ name size h => h.record name size) name size

theorem isCalm_shown (v : Value) : IsCalm (shown v) := by
  intro s s' h
  have hs (s : Session) : (shown v s).2 = s := by unfold shown; split <;> rfl
  refine ⟨?_, by rwa [hs]⟩
  simp only [shown, h.describe]
  split <;> rfl

end

end Action

namespace Render

open JsonWriter.Action (Settles IsCalm)
open Generator (Format)

/-! ## Tokens and keys -/

theorem quoted_isCalm (asciiOnly : Bool) (t shown : Text) : IsCalm (quoted asciiOnly t shown) := by
  unfold quoted escape
  split
  · exact Action.isCalm_fail _
  · exact ((Action.isCalm_ofExcept _).counted _ _).bind fun _ => Action.isCalm_pure _

section

variable {P : Action Text → Prop} (hquoted : ∀ asciiOnly t shown, P (quoted asciiOnly t shown))
  {v : Value} (hshown : ∀ k : Text → Action Text, (∀ t, P (k t)) → P (Action.shown v >>= k))

include hquoted hshown

/-- What holds of the actions that a key is made of holds of the key. -/
theorem label_induction (f : Format) : P (label f v) := by
  have hrest (t : Text) : P (quoted f.asciiOnly t (shownText v t)) := hquoted _ _ _
  unfold label keyText
  split
  · rw [pure_bind]
    exact hrest _
  · split
    · rw [pure_bind]
      exact hrest _
    · rw [pure_bind]
      exact hrest _
    · exact hshown _ hrest

/-- What holds of the actions that a token is made of holds of the token. -/
theorem leaf_induction (hpure : ∀ t, P (pure t)) (hfail : ∀ e, P (Action.fail e))
    (hv : ∀ e, v.node ≠ .extension e) (extend : Extender) (f : Format) (depth : Value) :
    P (leaf extend f v depth) := by
  unfold leaf
  split
  · exact hpure _
  · exact hpure _
  · exact hquoted _ _ _
  · unfold number
    split
    · exact hpure _
    · exact hfail _
  · simp only [float]
    split
    · exact hpure _
    · split
      · exact hpure _
      · exact hfail _
  · next e he => exact absurd he (hv e)
  · exact hshown _ fun _ => hquoted _ _ _

end

theorem label_isCalm (f : Format) (key : Value) : IsCalm (label f key) :=
  label_induction quoted_isCalm (fun _ hk => (Action.isCalm_shown key).bind hk) f

theorem leaf_isCalm (extend : Extender) (f : Format) (v depth : Value)
    (hv : ∀ e, v.node ≠ .extension e) : IsCalm (leaf extend f v depth) :=
  leaf_induction quoted_isCalm (fun _ hk => (Action.isCalm_shown v).bind hk) Action.isCalm_pure
    Action.isCalm_fail hv extend f depth

theorem leaf_congr {v : Value} (hv : ∀ e, v.node ≠ .extension e) (extend extend' : Extender)
    (f : Format) (depth : Value) : leaf extend f v depth = leaf extend' f v depth := by
  unfold leaf
  split <;> simp_all

/-! ## Layout without effects -/

/-- The scribe that knows what tokens and keys come to. -/
def Scribe.knowing (token : Value → Value → Except Fault Text) (key : Value → Except Fault Text) :
    Scribe (Except Fault) where
  settle r := r
  token := token
  key := key

/-- The scribe that knows what tokens and keys come to in a session. -/
def Scribe.outcome (f : Format) (s : Session) : Scribe (Except Fault) :=
  .knowing (fun v depth => (leaf (fun _ _ => Action.fail .endless) f v depth s).1)
    fun key => (label f key s).1

section

variable {tokens : Value → Value → Except Fault Text} {keys : Value → Except Fault Text}
  {f : Format} {newline : Text} {depth : Number} {parts : List Part}

theorem fill_cons_eq_ok {first : Bool} {x : Except Fault (List Part)}
    {rest : List (Except Fault (List Part))} :
    fill (.knowing tokens keys) f newline depth first (x :: rest) = .ok parts ↔
      ∃ before entry more, gap f newline depth first = .ok before ∧ x = .ok entry ∧
        fill (.knowing tokens keys) f newline depth false rest = .ok more ∧
        before ++ entry ++ more = parts := by
  simp [fill, Scribe.knowing, bind_eq_ok, pure, Except.pure]

theorem block_eq_ok {shape : Shape} {depth : Value}
    {entries : Number → List (Except Fault (List Part))} :
    block (.knowing tokens keys) f shape depth entries = .ok parts ↔
      Generator.checkNesting f.maxNesting depth = .ok () ∧
      ∃ newline inner body last, shape.newline f = .ok newline ∧ depth.succ = .ok inner ∧
        fill (.knowing tokens keys) f newline inner true (entries inner) = .ok body ∧
        ending f shape newline inner.pred = .ok last ∧
        (.text (shape.opening :: newline) :: body ++ last) = parts := by
  have hunit (r : Except Fault Unit) : (∃ u, r = .ok u) ↔ r = .ok () :=
    ⟨fun ⟨_, h⟩ => h, fun h => ⟨(), h⟩⟩
  simp [block, Scribe.knowing, bind_eq_ok, pure, Except.pure, hunit]

theorem token_eq_ok {depth v : Value} :
    token (.knowing tokens keys) depth v = .ok parts ↔
      ∃ t, tokens v depth = .ok t ∧ [.text t] = parts := by
  simp [token, Scribe.knowing, bind_eq_ok, pure, Except.pure]

theorem pair_eq_ok {key : Value} {x : Except Fault (List Part)} :
    pair (.knowing tokens keys) f key x = .ok parts ↔
      ∃ label colon entry, keys key = .ok label ∧ f.colon = .ok colon ∧ x = .ok entry ∧
        (.text label :: .text colon :: entry) = parts := by
  simp [pair, Scribe.knowing, bind_eq_ok, pure, Except.pure]

end

/-- What a scribe does is settled, and it is these tokens and keys: for scalars of a kind at depths of a
kind, and for keys of a kind. -/
structure Scribe.SettlesTo (k : Scribe Action) (holds : Session → Prop)
    (nodes keyed deep : Value → Prop) (tokens : Value → Value → Except Fault Text)
    (keys : Value → Except Fault Text) : Prop where
  settle : ∀ {α : Type} (r : Except Fault α), Settles holds (k.settle r) r
  token : ∀ v depth, container? v = none → nodes v → deep depth →
    Settles holds (k.token v depth) (tokens v depth)
  key : ∀ key, keyed key → Settles holds (k.key key) (keys key)
  inner : ∀ depth inner, deep depth → depth.succ = .ok inner → deep inner.value

section

variable {k : Scribe Action} {holds : Session → Prop} {nodes keyed deep : Value → Prop}
  {tokens : Value → Value → Except Fault Text} {keys : Value → Except Fault Text}
  (hk : k.SettlesTo holds nodes keyed deep tokens keys) (f : Format)

include hk

theorem fill_settles {xs : List (Action (List Part))} {rs : List (Except Fault (List Part))}
    (h : List.Forall₂ (Settles holds) xs rs) (newline : Text) (depth : Number) (first : Bool) :
    Settles holds (fill k f newline depth first xs)
      (fill (.knowing tokens keys) f newline depth first rs) := by
  induction h generalizing first with
  | nil => exact Action.settles_pure _
  | cons hx _ ih =>
    refine (hk.settle _).bind fun before _ => hx.bind fun parts _ => ?_
    exact (ih false).bind fun more _ => Action.settles_pure _

theorem block_settles (shape : Shape) {depth : Value} (hd : deep depth)
    {entries : Number → List (Action (List Part))}
    {outcomes : Number → List (Except Fault (List Part))}
    (h : ∀ inner : Number, deep inner.value →
      List.Forall₂ (Settles holds) (entries inner) (outcomes inner)) :
    Settles holds (block k f shape depth entries)
      (block (.knowing tokens keys) f shape depth outcomes) := by
  refine (hk.settle _).bind fun _ _ => (hk.settle _).bind fun newline _ => ?_
  refine (hk.settle _).bind fun inner hinner => ?_
  refine (fill_settles hk f (h inner (hk.inner depth inner hd hinner)) newline inner true).bind ?_
  exact fun parts _ => (hk.settle _).bind fun last _ => Action.settles_pure _

theorem token_settles {v : Value} (hscalar : container? v = none) (hv : nodes v) {depth : Value}
    (hd : deep depth) : Settles holds (token k depth v) (token (.knowing tokens keys) depth v) :=
  (hk.token v depth hscalar hv hd).bind fun _ _ => Action.settles_pure _

theorem pair_settles {key : Value} (hkey : keyed key) {x : Action (List Part)}
    {r : Except Fault (List Part)} (hx : Settles holds x r) :
    Settles holds (pair k f key x) (pair (.knowing tokens keys) f key r) := by
  refine (hk.key key hkey).bind fun label _ => (hk.settle _).bind fun colon _ => ?_
  exact hx.bind fun parts _ => Action.settles_pure _

/-- The layout of a value is settled as soon as that of its tokens and keys is. -/
theorem layOut_settles_of (hnodes : Value.Inherited nodes keyed) {v : Value} (hfinite : v.IsFinite)
    (hv : nodes v) {depth : Value} (hd : deep depth) :
    Settles holds (layOut k f depth v) (layOut (.knowing tokens keys) f depth v) := by
  induction v, hfinite using Value.tree_induction generalizing depth with
  | scalar v h hscalar =>
    rw [layOut_of_scalar k f depth hscalar, layOut_of_scalar _ f depth hscalar]
    exact token_settles hk hscalar hv hd
  | sequence v h kind items hcontent ih =>
    rw [layOut_of_sequence k f depth hcontent, layOut_of_sequence _ f depth hcontent]
    refine block_settles hk f .array hd fun inner hinner => ?_
    simp only [List.forall₂_map_left_iff, List.forall₂_map_right_iff, List.forall₂_same]
    intro w hw
    exact (ih w hw).2 (hnodes.item hv hcontent w hw) hinner
  | mapping v h kind entries hcontent ih =>
    rw [layOut_of_mapping k f depth hcontent, layOut_of_mapping _ f depth hcontent]
    refine block_settles hk f .object hd fun inner hinner => ?_
    simp only [List.forall₂_map_left_iff, List.forall₂_map_right_iff, List.forall₂_same]
    intro e he
    obtain ⟨hkey, hvalue⟩ := hnodes.entry hv hcontent e he
    exact pair_settles hk f hkey ((ih e he).2 hvalue hinner)
  | binary v h kind data hcontent ih =>
    rw [layOut_of_binary k f depth hcontent, layOut_of_binary _ f depth hcontent]
    exact ih.2 (hnodes.raw hv hcontent) hd

end

theorem acting_settles (extend : Extender) (f : Format) (s : Session) :
    (Scribe.acting extend f).SettlesTo s.Alike Value.IsNative (fun _ => True) (fun _ => True)
      (fun v depth => (leaf (fun _ _ => Action.fail .endless) f v depth s).1)
      (fun key => (label f key s).1) where
  settle := Action.settles_ofExcept
  token v depth _ hv _ := by
    have hnode (e : Extension Value) : v.node ≠ .extension e := Value.allowed_of_node v hv
    simp only [Scribe.acting, leaf_congr hnode extend fun _ _ => Action.fail .endless]
    exact leaf_isCalm _ f v depth hnode s
  key key _ := label_isCalm f key s
  inner _ _ _ _ := trivial

/-- The layout of a value without objects that write themselves is settled. -/
theorem layOut_settles (extend : Extender) (f : Format) (s : Session) {v : Value} (hv : v.IsNative)
    (depth : Value) :
    Settles s.Alike (layOut (.acting extend f) f depth v) (layOut (.outcome f s) f depth v) :=
  layOut_settles_of (acting_settles extend f s) f Value.IsTree.inherited hv.isFinite hv trivial

end Render

/-- Rendering a value without objects that write themselves is settled. -/
theorem renderAt_settles (level : Nat) {v : Value} (hv : v.IsNative) (id : Nat)
    (depth : Option Value) (s : Session) :
    Action.Settles s.Alike (renderAt level v id depth) (do
      let g := (s.generator? id).getD .initial
      Render.Part.join (← Render.layOut (.outcome g.format s) g.format (depth.getD g.depth) v)) := by
  rw [renderAt_of_finite hv.isFinite]
  refine Action.settles_generator (fun s' h => by rw [h.generator? id]) ?_
  refine Action.Settles.bind ?_ fun parts _ => Action.settles_ofExcept _
  exact (Render.layOut_settles _ _ s hv _).counted (fun _ name size h => h.record name size) _ _

end JsonWriter
