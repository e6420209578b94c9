import JsonWriter.Proofs.Configuration.Simple
import JsonWriter.Proofs.Delegation.Reading
import JsonWriter.Proofs.Renumbering.Conversions
import JsonWriter.Proofs.Session.Described

/-!
# Sessions with one generator more

A generator that nothing knows of changes nothing but the numbers of those that come after it. Sessions
that differ in this way, and actions that keep them so and come to the same but for those numbers. Main
statements: `follows_read`, and `closed_isBounded` for what is asked of generators.
-/

namespace JsonWriter

/-! ## What shows no generator -/

theorem Value.showsNoGenerator_of_content : (v : Value) → v.content.IsAtom → v.ShowsNoGenerator
  | derived _, _ => fun _ _ _ => rfl
  | own i v, h => fun describe describe' entered => by
    have hv := showsNoGenerator_of_content v h
    rw [literalIn, literalIn, hv describe describe']
  | null, h | bool _, h | int _, h | float _, h | str _, h | setting _, h | binary _ _, h | memory _, h
  | type _, h | extension _, h => fun _ _ _ => literalIn_of_isAtom h _ _ _ _ _
  | sequence _ _, h | mapping _ _, h | selfList _, h | selfDictionary _, h | outer _, h | object _, h
  | generator _, h | described _, h => h.elim

theorem Value.showsNoGenerator_of_isSimple {v : Value} (h : v.IsSimple) : v.ShowsNoGenerator := by
  refine showsNoGenerator_of_content v ?_
  obtain ht | hx := h
  · unfold text? at ht
    split at ht <;> simp_all [IsAtom]
  · unfold number? at hx
    split at hx <;> simp_all [IsAtom]

namespace Generator

/-- Checked changes put values that show no generator, so settings stay bounded if depths are. -/
theorem closed_isBounded (m : Nat) : Closed (IsBounded m) (Value.IsBounded m) :=
  closed_of_simple fun _ hv => .inl (Value.showsNoGenerator_of_isSimple hv)

theorem shownIn_raise {n : Nat} {describe describe' : List Nat → Nat → Option Text}
    (h : ∀ entered id, describe' entered (raised n id) = describe entered id) (g : Generator)
    (entered : List Nat) : (g.raise n).shownIn describe' entered = g.shownIn describe entered := by
  have hsetting (s : Setting) : ((g.raise n).get s).literalIn describe' entered [] =
      (g.get s).literalIn describe entered [] := by
    rw [get_raise]
    exact Value.literalIn_raise h entered [] _
  simp only [shownIn, hsetting]

end Generator

/-! ## Sessions -/

namespace Session

/-- The second session has one generator more, with the number `n`, and otherwise what the first one
has. The containers in settings have identities that were given. -/
structure Raised (n : Nat) (s t : Session) : Prop where
  identities : t.identities = s.identities
  le : n ≤ s.generators.size
  size : t.generators.size = s.generators.size + 1
  generator? : ∀ id, t.generator? (raised n id) = (s.generator? id).map (Generator.raise n)
  slot? : ∀ name, t.slot? name = (s.slot? name).map (raised n)
  bounded : ∀ id g, s.generator? id = some g → g.IsBounded s.identities

variable {n : Nat} {s s' t t' : Session}

/-- Log and counters do not count. -/
theorem Raised.congr (h : s.Raised n t) (hs : s'.generators = s.generators) (hslots : s'.slots = s.slots)
    (hids : s'.identities = s.identities) (ht : t'.generators = t.generators)
    (htslots : t'.slots = t.slots) (htids : t'.identities = t.identities) : s'.Raised n t' where
  identities := by rw [htids, hids, h.identities]
  le := hs ▸ h.le
  size := by rw [ht, hs, h.size]
  generator? id := by
    have hid := h.generator? id
    simp only [Session.generator?] at hid ⊢
    rw [ht, hs, hid]
  slot? name := by
    have hname := h.slot? name
    simp only [Session.slot?] at hname ⊢
    rw [htslots, hslots, hname]
  bounded id g hg := by
    rw [Session.generator?, hs] at hg
    exact hids ▸ h.bounded id g hg

theorem Raised.describeAt (h : s.Raised n t) (level : Nat) (entered : List Nat) (id : Nat) :
    t.describeAt level entered (raised n id) = s.describeAt level entered id := by
  induction level generalizing entered id with
  | zero => rw [Session.describeAt, Session.describeAt]
  | succ level ih =>
    rw [Session.describeAt, Session.describeAt, h.generator? id]
    cases s.generator? id with
    | none => rw [Option.map_none, Option.bind_none, Option.bind_none]
    | some g =>
      rw [Option.map_some, Option.bind_some, Option.bind_some]
      exact Generator.shownIn_raise ih g entered

/-- With one generator more there are more levels, but they make no difference. -/
theorem Raised.describe (h : s.Raised n t) (entered : List Nat) (id : Nat) :
    t.describe entered (raised n id) = s.describe entered id := by
  have hlevels : (s.identities + 1) * (s.generators.size + 1) ≤
      (t.identities + 1) * (t.generators.size + 1) := by
    rw [h.identities, h.size]
    exact Nat.mul_le_mul_left _ (Nat.le_succ _)
  rw [Session.describe, h.describeAt]
  exact describeAt_eq_describe h.bounded (Nat.le_refl _) hlevels entered id

end Session

namespace Action

variable {α β : Type} {n m : Nat}

/-- In a session with one generator more, and at least `m` identities given, the second action comes to
what the first one does, but for what `f` does to it. -/
def Follows (n m : Nat) (f : α → α) (x y : Action α) : Prop :=
  ∀ s t, s.Raised n t → m ≤ s.identities → (y t).1 = (x s).1.map f ∧ (x s).2.Raised n (y t).2 ∧
    s.identities ≤ (x s).2.identities

variable {f : α → α} {g : β → β}

theorem follows_pure (a : α) : Follows n m f (pure a) (pure (f a)) :=
  fun _ _ h _ => ⟨rfl, h, Nat.le_refl _⟩

theorem follows_fail (e : Fault) : Follows n m f (fail e) (fail e) :=
  fun _ _ h _ => ⟨rfl, h, Nat.le_refl _⟩

theorem follows_ofExcept (r : Except Fault α) : Follows n m f (ofExcept r) (ofExcept (r.map f)) :=
  fun _ _ h _ => ⟨rfl, h, Nat.le_refl _⟩

theorem follows_same (r : Except Fault α) : Follows n m id (ofExcept r) (ofExcept r) := by
  have hsame := follows_ofExcept (n := n) (m := m) (f := id) r
  rwa [Except.map_id] at hsame

/-- What is known of the value that the first action returns, and of the identities that were given by
then, can be used of what comes after. -/
theorem Follows.bind_of {post : Nat → α → Prop} {x y : Action α} {k k' : α → Action β}
    (hx : Follows n m f x y) (hpost : Issues m post x)
    (hk : ∀ m' a, m ≤ m' → post m' a → Follows n m' g (k a) (k' (f a))) :
    Follows n m g (x >>= k) (y >>= k') := by
  intro s t h hm
  obtain ⟨hr, hs, hgrown⟩ := hx s t h hm
  have ha := (hpost s hm).2
  rw [bind_apply, bind_apply]
  generalize x s = run at hr hs hgrown ha
  generalize y t = run' at hr hs
  obtain ⟨r, s'⟩ := run
  obtain ⟨r', t'⟩ := run'
  subst hr
  cases r with
  | error e => exact ⟨rfl, hs, hgrown⟩
  | ok a =>
    obtain ⟨hr', hs', hgrown'⟩ := hk _ a (hm.trans hgrown) (ha a rfl) s' t' hs (Nat.le_refl _)
    exact ⟨hr', hs', hgrown.trans hgrown'⟩

theorem Follows.bind {x y : Action α} {k k' : α → Action β} (hx : Follows n m f x y)
    (hk : ∀ a, Follows n m g (k a) (k' (f a))) : Follows n m g (x >>= k) (y >>= k') := by
  intro s t h hm
  obtain ⟨hr, hs, hgrown⟩ := hx s t h hm
  rw [bind_apply, bind_apply]
  generalize x s = run at hr hs hgrown
  generalize y t = run' at hr hs
  obtain ⟨r, s'⟩ := run
  obtain ⟨r', t'⟩ := run'
  subst hr
  cases r with
  | error e => exact ⟨rfl, hs, hgrown⟩
  | ok a =>
    obtain ⟨hr', hs', hgrown'⟩ := hk a s' t' hs (hm.trans hgrown)
    exact ⟨hr', hs', hgrown.trans hgrown'⟩

theorem Follows.map {x y : Action α} {k : α → β} (hx : Follows n m f x y) (hk : ∀ a, k (f a) = g (k a)) :
    Follows n m g (k <$> x) (k <$> y) := by
  rw [← bind_pure_comp, ← bind_pure_comp]
  refine hx.bind fun a => ?_
  rw [hk]
  exact follows_pure _

theorem Follows.counted {x y : Action α} (hx : Follows n m f x y) (name : Text) (size : Nat) :
    Follows n m f (counted name size x) (counted name size y) := by
  have hrecord (s : Session) : (s.record name (.int size)).2.generators = s.generators ∧
      (s.record name (.int size)).2.slots = s.slots ∧
      (s.record name (.int size)).2.identities = s.identities := by
    unfold Session.record
    split
    · exact ⟨rfl, rfl, rfl⟩
    · exact ⟨rfl, rfl, rfl⟩
  intro s t h hm
  obtain ⟨hr, hs, hgrown⟩ := hx s t h hm
  obtain ⟨hgs, hslots, hids⟩ := hrecord (x s).2
  obtain ⟨hgs', hslots', hids'⟩ := hrecord (y t).2
  exact ⟨hr, hs.congr hgs hslots hids hgs' hslots' hids', hgrown.trans hids.ge⟩

theorem Follows.logged {x y : Action α} (hx : Follows n m f x y) : Follows n m f (logged x) (logged y) := by
  intro s t h hm
  obtain ⟨hr, hs, hgrown⟩ := hx s t h hm
  unfold Action.logged
  generalize x s = run at hr hs hgrown
  generalize y t = run' at hr hs
  obtain ⟨r, s'⟩ := run
  obtain ⟨r', t'⟩ := run'
  subst hr
  cases r with
  | ok a => exact ⟨rfl, hs, hgrown⟩
  | error e =>
    refine ⟨rfl, ?_⟩
    simp only [Except.map]
    split
    · exact ⟨hs.congr rfl rfl rfl rfl rfl rfl, hgrown⟩
    · exact ⟨hs, hgrown⟩

theorem follows_log (r r' : Record) : Follows n m id (log r) (log r') :=
  fun _ _ h _ => ⟨rfl, h.congr rfl rfl rfl rfl rfl rfl, Nat.le_refl _⟩

theorem follows_literal? (v : Value) : Follows n m id (literal? v) (literal? (v.raise n)) := by
  intro s t h _
  simp only [literal?, Value.literal?_raise h.describe]
  exact ⟨rfl, h, Nat.le_refl _⟩

theorem follows_literal (v : Value) : Follows n m id (literal v) (literal (v.raise n)) := by
  refine (follows_literal? v).bind fun t => ?_
  cases t with
  | some t => exact follows_pure t
  | none => exact follows_fail _

theorem follows_shown (v : Value) : Follows n m id (shown v) (shown (v.raise n)) := by
  intro s t h _
  simp only [shown, Value.shown?_raise h.describe, Value.content_raise]
  cases v.shown? s.describe with
  | some text => exact ⟨rfl, h, Nat.le_refl _⟩
  | none =>
    cases v.content with
    | object shown =>
      simp only [Value.raise, Value.kind_raise]
      exact ⟨rfl, h, Nat.le_refl _⟩
    | _ => exact ⟨rfl, h, Nat.le_refl _⟩

theorem follows_identity : Follows n m id identity identity := by
  intro s t h _
  refine ⟨by rw [identity, identity, h.identities]; rfl, ?_, Nat.le_succ _⟩
  exact ⟨congrArg (· + 1) h.identities, h.le, h.size, h.generator?, h.slot?,
    fun id g hg => (h.bounded id g hg).mono (Nat.le_succ _)⟩

theorem follows_identify (v : Value) :
    Follows n m (Value.raise n) (identify v) (identify (v.raise n)) := by
  rw [identify, identify, Value.isDistinct_raise]
  split
  · exact follows_identity.bind fun i => follows_pure (Value.own i v)
  · exact follows_pure v

/-! ## Generators -/

theorem follows_generator (i : Nat) :
    Follows n m (Generator.raise n) (generator i) (generator (raised n i)) := by
  intro s t h _
  refine ⟨?_, h, Nat.le_refl _⟩
  rw [generator, generator, h.generator? i]
  cases s.generator? i <;> rfl

/-- The containers in settings have identities that were given by the time at which a generator is
looked up. -/
theorem Follows.bind_generator (i : Nat) {k k' : Generator → Action β}
    (hk : ∀ m' h, m ≤ m' → h.IsBounded m' → Follows n m' g (k h) (k' (h.raise n))) :
    Follows n m g (generator i >>= k) (generator (raised n i) >>= k') := by
  intro s t h hm
  have hbounded : ((s.generator? i).getD .initial).IsBounded s.identities := by
    cases hg : s.generator? i with
    | none => exact (Generator.closed_isBounded _).initial
    | some g => exact h.bounded i g hg
  have hraised : (t.generator? (raised n i)).getD .initial =
      ((s.generator? i).getD .initial).raise n := by
    rw [h.generator? i]
    cases s.generator? i <;> rfl
  rw [bind_apply, bind_apply, generator, generator, hraised, resume_ok, resume_ok]
  exact hk _ _ hm hbounded s t h (Nat.le_refl _)

theorem follows_replace (i : Nat) {g : Generator} (hg : g.IsBounded m) :
    Follows n m id (replace i g) (replace (raised n i) (g.raise n)) := by
  intro s t h hm
  refine ⟨rfl, ⟨h.identities, ?_, ?_, fun j => ?_, h.slot?, fun j g' hg' => ?_⟩, Nat.le_refl _⟩
  · exact h.le.trans_eq Array.size_setIfInBounds.symm
  · rw [replace, replace, Array.size_setIfInBounds, Array.size_setIfInBounds, h.size]
  · rw [replace, replace, Session.generator?_put, Session.generator?_put, h.generator? j]
    by_cases hij : i = j
    · rw [if_pos hij, if_pos (congrArg (raised n) hij)]
      cases s.generator? j <;> rfl
    · rw [if_neg hij, if_neg fun heq => hij (raised_injective heq)]
  · rw [replace, Session.generator?_put] at hg'
    split at hg'
    · obtain ⟨_, -, rfl⟩ := Option.map_eq_some_iff.mp hg'
      exact hg.mono hm
    · exact h.bounded j g' hg'

theorem follows_add {g : Generator} (hg : g.IsBounded m) :
    Follows n m (raised n) (add g) (add (g.raise n)) := by
  intro s t h hm
  have hnew : t.generators.size = raised n s.generators.size := by rw [h.size, raised_of_le h.le]
  refine ⟨congrArg Except.ok hnew, ⟨h.identities, ?_, ?_, fun j => ?_, h.slot?, fun j g' hg' => ?_⟩,
    Nat.le_refl _⟩
  · rw [add, Array.size_push]
    exact Nat.le_succ_of_le h.le
  · rw [add, add, Array.size_push, Array.size_push, h.size]
  · rw [add, add, Session.generator?_push, Session.generator?_push, h.generator? j]
    by_cases hlast : j = s.generators.size
    · rw [hlast, if_pos rfl, if_pos hnew.symm]
      rfl
    · rw [if_neg hlast, if_neg fun heq => hlast (raised_injective (heq.trans hnew))]
  · rw [add, Session.generator?_push] at hg'
    split at hg'
    · exact Option.some.inj hg' ▸ hg.mono hm
    · exact h.bounded j g' hg'

theorem follows_configured {r : Except Fault (Generator × List Value)} :
    Follows n m (Generator.raise n) (configured r)
      (configured (r.map fun r => (r.1.raise n, r.2.map (Value.raise n)))) := by
  refine (follows_ofExcept r).bind fun a => ?_
  have hlog (ignored : List Value) : Follows n m id (ignored.forM fun key => log (.ignored key))
      ((ignored.map (Value.raise n)).forM fun key => log (.ignored key)) := by
    induction ignored with
    | nil => exact follows_pure _
    | cons key rest ih => exact (follows_log _ _).bind fun _ => ih
  exact (hlog a.2).bind fun _ => follows_pure a.1

theorem follows_build (options : Value) :
    Follows n m (raised n) (build options) (build (options.raise n)) := by
  have hinitial := (Generator.closed_isBounded m).initial
  have hconfigured := follows_configured (n := n) (m := m) (r := Generator.initial.configure options)
  rw [← Generator.configure_raise, Generator.initial_raise] at hconfigured
  exact hconfigured.bind_of (issues_configured fun _ _ h =>
    (Generator.closed_isBounded m).configure hinitial h) fun _ g hm hg => follows_add (hg.mono hm)

theorem follows_buildOptional (options : Value) :
    Follows n m (raised n) (buildOptional options) (buildOptional (options.raise n)) := by
  cases options with
  | null => exact follows_build (.dictionary [])
  | _ => exact follows_build _

theorem follows_copy (g : Generator) : Follows n m (raised n) (copy g) (copy (g.raise n)) := by
  have hinitial := (Generator.closed_isBounded m).initial
  have hconfigured := follows_configured (n := n) (m := m) (r := g.copy)
  rw [← Generator.copy_raise] at hconfigured
  exact hconfigured.bind_of (issues_configured fun _ _ h =>
    (Generator.closed_isBounded m).configure hinitial h) fun _ g hm hg => follows_add (hg.mono hm)

theorem follows_setting (name : Value) : Follows n m id (setting name) (setting (name.raise n)) := by
  unfold setting
  rw [Value.setting?_raise]
  cases name.setting? with
  | some s => exact follows_pure s
  | none => exact (follows_literal? name).bind fun _ => follows_fail _

theorem follows_set (i : Nat) (name value : Value) :
    Follows n m id (set i name value) (set (raised n i) (name.raise n) (value.raise n)) := by
  refine (follows_setting name).bind fun s => Follows.bind_generator i fun m' g _ hg => ?_
  rw [id, Generator.set_raise]
  exact (follows_ofExcept _).bind_of (issues_ofExcept fun _ h =>
    (Generator.closed_isBounded m').set hg h) fun _ _ hm hg' => follows_replace i (hg'.mono hm)

theorem follows_slot (name : Text) : Follows n m (raised n) (slot name) (slot name) := by
  intro s t h _
  rw [slot, slot, h.slot? name]
  cases s.slot? name with
  | none => exact ⟨rfl, h, Nat.le_refl _⟩
  | some i => exact ⟨rfl, h, Nat.le_refl _⟩

theorem follows_setSlot (name : Text) (i : Nat) :
    Follows n m id (setSlot name i) (setSlot name (raised n i)) := by
  intro s t h _
  have hslot (u : Session) (i : Nat) (other : Text) : (u.setSlot name i).slot? other =
      if name == other then some i else u.slot? other := by
    simp only [Session.slot?, Session.setSlot, List.find?_cons]
    cases hname : name == other with
    | true => rfl
    | false =>
      have hfilter : (u.slots.filter fun e => e.1 != name).find? (fun e => e.1 == other) =
          u.slots.find? fun e => e.1 == other := by
        rw [List.find?_filter]
        refine congrArg (List.find? · u.slots) (funext fun e => ?_)
        have hne := ne_of_beq_false hname
        by_cases he : e.1 = other
        · simp [he, Ne.symm hne]
        · simp [he]
      rw [hfilter]
      rfl
  refine ⟨rfl, ⟨h.identities, h.le, h.size, h.generator?, fun other => ?_, h.bounded⟩, Nat.le_refl _⟩
  have hother := h.slot? other
  simp only [setSlot, hslot, hother]
  split
  · rfl
  · rfl

theorem follows_resolve (config : Value) :
    Follows n m (raised n) (resolve config) (resolve (config.raise n)) := by
  have hbuild : Follows n m (raised n)
      (if config.entries?.isSome then build config else build (.dictionary []))
      (if (config.raise n).entries?.isSome then build (config.raise n) else build (.dictionary [])) := by
    rw [Value.entries?_raise, Option.isSome_map]
    split
    · exact follows_build config
    · exact follows_build (.dictionary [])
  cases config with
  | generator i => exact follows_pure i
  | _ => exact hbuild

end Action

/-! ## Reading -/

section

open JsonWriter.Action (Follows follows_pure follows_fail follows_ofExcept follows_same)

variable {n m : Nat}

theorem follows_convert (base : NativeType) (v : Value) :
    Follows n m (Value.raise n) (Action.convert base v) (Action.convert base (v.raise n)) := by
  cases base with
  | int =>
    rw [Action.convert, Action.convert, Value.toWhole_raise]
    exact (follows_same v.toWhole).bind fun k => follows_pure (Value.int k)
  | float =>
    rw [Action.convert, Action.convert, Value.toFloating_raise]
    exact (follows_same v.toFloating).bind fun x => follows_pure (Value.float x)
  | str => exact (Action.follows_shown v).bind fun t => follows_pure (Value.str t)
  | list =>
    rw [Action.convert, Action.convert, Value.toItems_raise]
    exact (follows_ofExcept v.toItems).bind fun items => follows_pure (Value.list items)
  | tuple =>
    rw [Action.convert, Action.convert, Value.toItems_raise]
    exact (follows_ofExcept v.toItems).bind fun items => follows_pure (Value.sequence .tuple items)
  | dictionary =>
    rw [Action.convert, Action.convert, Value.toEntries_raise]
    exact (follows_ofExcept v.toEntries).bind fun es => follows_pure (Value.dictionary es)
  | binary kind =>
    rw [Action.convert, Action.convert, Value.octets_raise]
    exact (follows_same (v.octets kind)).bind fun data => follows_pure (Value.binary kind data)

theorem follows_dictionary {entries entries' : Action Entries}
    (h : Follows n m (Value.raiseEntries n) entries entries') (kind : MappingKind) :
    Follows n m (Value.raise n)
      (do
        match Keyed.dictionary? [] (← entries) with
        | .ok entries => Action.identify (.mapping kind entries)
        | .error kind => Action.fail (.type (.unhashable kind)))
      (do
        match Keyed.dictionary? [] (← entries') with
        | .ok entries => Action.identify (.mapping kind entries)
        | .error kind => Action.fail (.type (.unhashable kind))) := by
  refine h.bind fun es => ?_
  have hdictionary := Entries.dictionary?_raise (n := n) es []
  rw [Entries.raise, Entries.raise, Value.raiseEntries] at hdictionary
  rw [hdictionary]
  cases Keyed.dictionary? [] es with
  | error kind => exact follows_fail _
  | ok es => exact Action.follows_identify (.mapping kind es)

theorem follows_times (v : Value) (x : Number) :
    Follows n m (Value.raise n) (Action.ofExcept (v.times x)) (Action.ofExcept ((v.raise n).times x)) := by
  rw [Value.times_raise]
  exact follows_ofExcept _

mutual

/-- What is read with one generator more is what is read without it, but for the numbers. -/
theorem follows_read : (v : Value) → Follows n m (Value.raise n) v.read (v.raise n).read
  | .sequence kind items =>
    (follows_readItems items).bind fun vs => Action.follows_identify (.sequence kind vs)
  | .mapping .pairs entries =>
    (follows_readEntries entries).bind fun es => Action.follows_identify (.mapping .pairs es)
  | .mapping .dictionary entries => follows_dictionary (follows_readEntries entries) .dictionary
  | .mapping .view entries => follows_dictionary (follows_readEntries entries) .view
  | .derived base => (follows_read base).bind fun v => follows_pure (Value.derived v)
  | .object shown => (follows_read shown).bind fun v => Action.follows_identify (.object v)
  | .described d => follows_readDescription d
  | .null => Action.follows_identify .null
  | .bool b => Action.follows_identify (.bool b)
  | .int k => Action.follows_identify (.int k)
  | .float x => Action.follows_identify (.float x)
  | .str t => Action.follows_identify (.str t)
  | .setting s => Action.follows_identify (.setting s)
  | .binary kind data => Action.follows_identify (.binary kind data)
  | .memory data => Action.follows_identify (.memory data)
  | .selfList items => Action.follows_identify (.selfList items)
  | .selfDictionary entries => Action.follows_identify (.selfDictionary entries)
  | .outer i => Action.follows_identify (.outer i)
  | .own i v => Action.follows_identify (.own i v)
  | .type name => Action.follows_identify (.type name)
  | .extension e => Action.follows_identify (.extension e)
  | .generator i => Action.follows_identify (.generator i)
termination_by structural v => v

theorem follows_readItems : (vs : List Value) →
    Follows n m (Value.raiseItems n) (Value.readItems vs) (Value.readItems (Value.raiseItems n vs))
  | [] => follows_pure []
  | v :: rest => (follows_read v).bind fun w => (follows_readItems rest).bind fun ws =>
    follows_pure (w :: ws)
termination_by structural vs => vs

theorem follows_readEntries : (es : List (Value × Value)) →
    Follows n m (Value.raiseEntries n) (Value.readEntries es) (Value.readEntries (Value.raiseEntries n es))
  | [] => follows_pure []
  | (key, v) :: rest => (follows_read key).bind fun key => (follows_read v).bind fun w =>
    (follows_readEntries rest).bind fun es => follows_pure ((key, w) :: es)
termination_by structural es => es

theorem follows_readDescription : (d : Description Value) → Follows n m (Value.raise n)
    (Value.readDescription d) (Value.readDescription (Value.raiseDescription n d))
  | .slot name => (Action.follows_slot name).bind fun i => follows_pure (Value.generator i)
  | .fresh options => (follows_read options).bind fun options =>
    (Action.follows_buildOptional options).bind fun i => follows_pure (Value.generator i)
  | .repeated v times => (follows_read v).bind fun w => (follows_times w (.whole times)).bind fun u =>
    Action.follows_identify u
  | .derived base v => (follows_read v).bind fun w => (follows_convert base w).bind fun u =>
    (Action.follows_identify u).bind fun u => follows_pure (Value.derived u)
termination_by structural d => d

end

theorem follows_readOptional (v : Option Value) : Follows n m (Option.map (Value.raise n))
    (Action.readOptional v) (Action.readOptional (v.map (Value.raise n))) := by
  cases v with
  | none => exact follows_pure none
  | some v => exact (follows_read v).bind fun w => follows_pure (some w)

end

end JsonWriter
