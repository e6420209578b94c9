import JsonWriter.Proofs.Twins.Generators
import JsonWriter.Proofs.Twins.Known

/-!
# Sessions with twins

Two sessions hold the same but for generators that no value knows, and these are twins. Actions in both
come to the same and leave such sessions again, in which values may know more generators. Main statement:
`mirrors_read`.
-/

namespace JsonWriter

/-! ## Sessions -/

namespace Session

/-- The generators are in the session, and nothing in its settings and slots knows any others. -/
structure Knows (known : Nat → Prop) (s : Session) : Prop where
  has : ∀ id, known id → id < s.generators.size
  generator : ∀ id g, s.generator? id = some g → g.Knows known
  slot : ∀ name id, s.slot? name = some id → known id

/-- The sessions hold the same generators where values know them, and twins elsewhere. Log and counters do
not count. -/
structure Mirrors (known : Nat → Prop) (s t : Session) : Prop extends s.Knows known where
  identities : t.identities = s.identities
  slots : t.slots = s.slots
  size : t.generators.size = s.generators.size
  same : ∀ id, known id → t.generator? id = s.generator? id
  twins : ∀ id g h, s.generator? id = some g → t.generator? id = some h → g.Twins h

variable {known known' : Nat → Prop} {s s' t t' : Session}

theorem Knows.mirrors (h : s.Knows known) : s.Mirrors known s where
  toKnows := h
  identities := rfl
  slots := rfl
  size := rfl
  same _ _ := rfl
  twins id g g' hg hg' := by
    obtain rfl := Option.some.inj (hg.symm.trans hg')
    exact .refl g

theorem Mirrors.describeAt (h : s.Mirrors known t) (level : Nat) (entered : List Nat) (id : Nat)
    (hid : known id) : t.describeAt level entered id = s.describeAt level entered id := by
  induction level generalizing entered id with
  | zero => rw [Session.describeAt, Session.describeAt]
  | succ level ih =>
    rw [Session.describeAt, Session.describeAt, h.same id hid]
    cases hg : s.generator? id with
    | none => rw [Option.bind_none, Option.bind_none]
    | some g =>
      rw [Option.bind_some, Option.bind_some]
      exact Generator.shownIn_congr ih (h.generator id g hg) entered

theorem Mirrors.describe (h : s.Mirrors known t) (entered : List Nat) (id : Nat) (hid : known id) :
    t.describe entered id = s.describe entered id := by
  rw [Session.describe, Session.describe, h.identities, h.size]
  exact h.describeAt _ entered id hid

theorem Mirrors.congr (h : s.Mirrors known t) (hs : s'.generators = s.generators)
    (hslots : s'.slots = s.slots) (hids : s'.identities = s.identities)
    (ht : t'.generators = t.generators) (htslots : t'.slots = t.slots)
    (htids : t'.identities = t.identities) : s'.Mirrors known t' where
  has id hid := hs ▸ h.has id hid
  generator id g hg := h.generator id g (by rwa [generator?, hs] at hg)
  slot name id hname := h.slot name id (by rwa [slot?, hslots] at hname)
  identities := by rw [htids, hids, h.identities]
  slots := by rw [htslots, hslots, h.slots]
  size := by rw [ht, hs, h.size]
  same id hid := by
    have hsame := h.same id hid
    rwa [generator?, generator?, ← ht, ← hs] at hsame
  twins id g g' hg hg' := by
    rw [generator?, hs] at hg
    rw [generator?, ht] at hg'
    exact h.twins id g g' hg hg'

theorem Mirrors.record (h : s.Mirrors known t) (name : Text) (size : Value) :
    (s.record name size).2.Mirrors known (t.record name size).2 := by
  have hrecord (u : Session) : (u.record name size).2.generators = u.generators ∧
      (u.record name size).2.slots = u.slots ∧ (u.record name size).2.identities = u.identities := by
    unfold Session.record
    split
    · exact ⟨rfl, rfl, rfl⟩
    · exact ⟨rfl, rfl, rfl⟩
  obtain ⟨hs, hslots, hids⟩ := hrecord s
  obtain ⟨ht, htslots, htids⟩ := hrecord t
  exact h.congr hs hslots hids ht htslots htids

/-- A generator is added to both sessions. If it is the same, values may know it. -/
theorem Mirrors.push (h : s.Mirrors known t) {g g' : Generator} (hg : g.Knows known) (hgg' : g.Twins g')
    (hknown : ∀ id, known' id → known id ∨ id = s.generators.size ∧ g' = g) (hle : known ≤ known') :
    Mirrors known' { s with generators := s.generators.push g }
      { t with generators := t.generators.push g' } where
  has id hid := by
    rw [Array.size_push]
    obtain hid | ⟨rfl, -⟩ := hknown id hid
    · exact Nat.lt_succ_of_lt (h.has id hid)
    · exact Nat.lt_succ_self _
  generator id a ha := by
    rw [generator?_push] at ha
    split at ha
    · obtain rfl := Option.some.inj ha
      exact fun s => (hg s).mono hle
    · exact fun s => (h.generator id a ha s).mono hle
  slot name id hname := hle id (h.slot name id hname)
  identities := h.identities
  slots := h.slots
  size := by rw [Array.size_push, Array.size_push, h.size]
  same id hid := by
    rw [generator?_push, generator?_push, h.size]
    obtain hid | ⟨rfl, rfl⟩ := hknown id hid
    · rw [if_neg (h.has id hid).ne, if_neg (h.has id hid).ne, h.same id hid]
    · rw [if_pos rfl, if_pos rfl]
  twins id a b ha hb := by
    rw [generator?_push] at ha hb
    rw [h.size] at hb
    split at ha
    · next hid =>
      rw [if_pos hid] at hb
      obtain rfl := Option.some.inj ha
      obtain rfl := Option.some.inj hb
      exact hgg'
    · next hid =>
      rw [if_neg hid] at hb
      exact h.twins id a b ha hb

theorem Mirrors.adding (h : s.Mirrors known t) {g g' : Generator} {ignored ignored' : List Value}
    (hg : g.Knows known) (hgg' : g.Twins g')
    (hknown : ∀ id, known' id → known id ∨ id = s.generators.size ∧ g' = g) (hle : known ≤ known') :
    (s.adding g ignored).Mirrors known' (t.adding g' ignored') :=
  (h.push hg hgg' hknown hle).congr rfl rfl rfl rfl rfl rfl

/-- A generator is changed in both sessions, to the same if values know it. -/
theorem Mirrors.put (h : s.Mirrors known t) (id : Nat) {g g' : Generator} (hg : g.Knows known)
    (hgg' : g.Twins g') (hknown : known id → g' = g) :
    Mirrors known { s with generators := s.generators.setIfInBounds id g }
      { t with generators := t.generators.setIfInBounds id g' } where
  has id' hid' := by
    rw [Array.size_setIfInBounds]
    exact h.has id' hid'
  generator id' a ha := by
    rw [generator?_put] at ha
    split at ha
    · obtain ⟨_, -, rfl⟩ := Option.map_eq_some_iff.mp ha
      exact hg
    · exact h.generator id' a ha
  slot := h.slot
  identities := h.identities
  slots := h.slots
  size := by rw [Array.size_setIfInBounds, Array.size_setIfInBounds, h.size]
  same id' hid' := by
    rw [generator?_put, generator?_put, h.same id' hid']
    split
    · next hid => rw [hknown (hid ▸ hid')]
    · rfl
  twins id' a b ha hb := by
    rw [generator?_put] at ha hb
    split at ha
    · next hid =>
      rw [if_pos hid] at hb
      obtain ⟨_, -, rfl⟩ := Option.map_eq_some_iff.mp ha
      obtain ⟨_, -, rfl⟩ := Option.map_eq_some_iff.mp hb
      exact hgg'
    · next hid =>
      rw [if_neg hid] at hb
      exact h.twins id' a b ha hb

/-- What a number stands for is alike, and the same if values know it. -/
theorem Mirrors.getD (h : s.Mirrors known t) (id : Nat) :
    ((s.generator? id).getD .initial).Twins ((t.generator? id).getD .initial) ∧
      ((s.generator? id).getD .initial).Knows known ∧
        (known id → (t.generator? id).getD .initial = (s.generator? id).getD .initial) := by
  refine ⟨?_, ?_, fun hid => by rw [h.same id hid]⟩
  · obtain hid | hid := Nat.lt_or_ge id s.generators.size
    · have hid' : id < t.generators.size := h.size ▸ hid
      have hg : s.generator? id = some s.generators[id] := Array.getElem?_eq_getElem hid
      have hg' : t.generator? id = some t.generators[id] := Array.getElem?_eq_getElem hid'
      rw [hg, hg']
      exact h.twins id _ _ hg hg'
    · have hg : s.generator? id = none := Array.getElem?_eq_none hid
      have hg' : t.generator? id = none := Array.getElem?_eq_none (h.size.symm ▸ hid)
      rw [hg, hg']
      exact .refl _
  · cases hg : s.generator? id with
    | none => exact (Generator.closed_knows known).initial
    | some g => exact h.generator id g hg

end Session

/-! ## Actions -/

namespace Action

variable {α β : Type} {known : Nat → Prop}

/-- In sessions with twins both actions come to the same. What they return is as stated of the generators
that values know by then. -/
def Mirrors (known : Nat → Prop) (post : (Nat → Prop) → α → Prop) (x y : Action α) : Prop :=
  ∀ s t, s.Mirrors known t → (y t).1 = (x s).1 ∧ ∀ a, (x s).1 = .ok a →
    ∃ known', known ≤ known' ∧ (x s).2.Mirrors known' (y t).2 ∧ post known' a

variable {post : (Nat → Prop) → α → Prop}

theorem alike_of_error {r r' : Except Fault α} {f : Fault} {P : α → Prop} (h : r = .error f)
    (h' : r' = .error f) : r' = r ∧ ∀ a, r = .ok a → P a := by
  refine ⟨h'.trans h.symm, fun a ha => ?_⟩
  rw [h] at ha
  cases ha

theorem mirrors_pure {a : α} (h : post known a) : Mirrors known post (pure a) (pure a) := by
  refine fun s t hst => ⟨rfl, fun b hb => ?_⟩
  obtain rfl := Except.ok.inj hb
  exact ⟨known, le_refl _, hst, h⟩

theorem mirrors_fail (f : Fault) : Mirrors known post (fail f) (fail f) := fun _ _ _ => alike_of_error rfl rfl

theorem mirrors_ofExcept {r : Except Fault α} (h : ∀ a, r = .ok a → post known a) :
    Mirrors known post (ofExcept r) (ofExcept r) :=
  fun _ _ hst => ⟨rfl, fun a ha => ⟨known, le_refl _, hst, h a ha⟩⟩

theorem mirrors_any (r : Except Fault α) : Mirrors known (fun _ _ => True) (ofExcept r) (ofExcept r) :=
  mirrors_ofExcept fun _ _ => trivial

/-- In the rest values may know more generators. -/
theorem Mirrors.bind {post : (Nat → Prop) → β → Prop} {mid : (Nat → Prop) → α → Prop} {x y : Action α}
    {k k' : α → Action β} (hx : Mirrors known mid x y)
    (hk : ∀ known' a, known ≤ known' → mid known' a → Mirrors known' post (k a) (k' a)) :
    Mirrors known post (x >>= k) (y >>= k') := by
  intro s t hst
  obtain ⟨hr, hmid⟩ := hx s t hst
  rw [bind_apply, bind_apply]
  generalize x s = run at hr hmid
  generalize y t = run' at hr hmid
  obtain ⟨r, s'⟩ := run
  obtain ⟨r', t'⟩ := run'
  obtain rfl : r' = r := hr
  cases r' with
  | error f => exact alike_of_error rfl rfl
  | ok a =>
    obtain ⟨known', hle, hst', ha⟩ := hmid a rfl
    obtain ⟨hr', hpost⟩ := hk known' a hle ha s' t' hst'
    refine ⟨hr', fun b hb => ?_⟩
    obtain ⟨known'', hle', hst'', hb'⟩ := hpost b hb
    exact ⟨known'', hle.trans hle', hst'', hb'⟩

theorem Mirrors.mono {post' : (Nat → Prop) → α → Prop} {x y : Action α} (hx : Mirrors known post x y)
    (h : ∀ known' a, post known' a → post' known' a) : Mirrors known post' x y := by
  intro s t hst
  obtain ⟨hr, hpost⟩ := hx s t hst
  refine ⟨hr, fun a ha => ?_⟩
  obtain ⟨known', hle, hst', ha'⟩ := hpost a ha
  exact ⟨known', hle, hst', h known' a ha'⟩

/-- What is true of whatever the action returns may be used as well. -/
theorem Mirrors.returning {post' : α → Prop} {x y : Action α} (hx : Mirrors known post x y)
    (h : ∀ s a, (x s).1 = .ok a → post' a) : Mirrors known (fun known' a => post known' a ∧ post' a) x y := by
  intro s t hst
  obtain ⟨hr, hpost⟩ := hx s t hst
  refine ⟨hr, fun a ha => ?_⟩
  obtain ⟨known', hle, hst', ha'⟩ := hpost a ha
  exact ⟨known', hle, hst', ha', h s a ha⟩

theorem Mirrors.map {post : (Nat → Prop) → β → Prop} {x y : Action α} {k : α → β}
    (hx : Mirrors known (fun known' a => post known' (k a)) x y) : Mirrors known post (k <$> x) (k <$> y) := by
  rw [← bind_pure_comp, ← bind_pure_comp]
  exact hx.bind fun _ _ _ ha => mirrors_pure ha

theorem Mirrors.counted {x y : Action α} (hx : Mirrors known post x y) (name : Text) (size : Nat) :
    Mirrors known post (counted name size x) (counted name size y) := by
  intro s t hst
  obtain ⟨hr, hpost⟩ := hx s t hst
  refine ⟨hr, fun a ha => ?_⟩
  obtain ⟨known', hle, hst', ha'⟩ := hpost a ha
  exact ⟨known', hle, hst'.record name _, ha'⟩

theorem Mirrors.logged {x y : Action α} (hx : Mirrors known post x y) :
    Mirrors known post (logged x) (logged y) := by
  intro s t hst
  obtain ⟨hr, hpost⟩ := hx s t hst
  unfold Action.logged
  generalize x s = run at hr hpost
  generalize y t = run' at hr hpost
  obtain ⟨r, s'⟩ := run
  obtain ⟨r', t'⟩ := run'
  obtain rfl : r' = r := hr
  cases r' with
  | error f => exact alike_of_error rfl rfl
  | ok a => exact ⟨rfl, hpost⟩

theorem mirrors_literal? {v : Value} (hv : v.Knows known) :
    Mirrors known (fun _ _ => True) (literal? v) (literal? v) := by
  intro s t hst
  simp only [literal?, Value.literal?_congr hst.describe hv]
  exact ⟨trivial, fun _ _ => ⟨known, le_refl _, hst, trivial⟩⟩

theorem mirrors_shown {v : Value} (hv : v.Knows known) :
    Mirrors known (fun _ _ => True) (shown v) (shown v) := by
  intro s t hst
  have hpost : ∃ known', known ≤ known' ∧ s.Mirrors known' t ∧ True := ⟨known, le_refl _, hst, trivial⟩
  simp only [shown, Value.shown?_congr hst.describe hv]
  split
  · exact ⟨rfl, fun _ _ => hpost⟩
  · exact alike_of_error rfl rfl
  · exact alike_of_error rfl rfl

theorem mirrors_identity : Mirrors known (fun _ _ => True) identity identity := by
  intro s t hst
  have hidentities := congrArg (· + 1) hst.identities
  refine ⟨congrArg Except.ok hst.identities, fun _ _ => ⟨known, le_refl _, ?_, trivial⟩⟩
  exact ⟨⟨hst.has, hst.generator, hst.slot⟩, hidentities, hst.slots, hst.size, hst.same, hst.twins⟩

theorem mirrors_identify {v : Value} (hv : v.Knows known) :
    Mirrors known (fun known' w => w.Knows known') (identify v) (identify v) := by
  unfold identify
  split
  · exact mirrors_identity.bind fun _ _ hle _ => mirrors_pure (Value.Knows.mono hle v hv)
  · exact mirrors_pure hv

theorem mirrors_slot (name : Text) : Mirrors known (fun known' id => known' id) (slot name) (slot name) := by
  intro s t hst
  have hname : t.slot? name = s.slot? name := by rw [Session.slot?, Session.slot?, hst.slots]
  rw [slot, slot, hname]
  cases hid : s.slot? name with
  | none => exact alike_of_error rfl rfl
  | some id =>
    refine ⟨rfl, fun id' hid' => ⟨known, le_refl _, hst, ?_⟩⟩
    obtain rfl := Except.ok.inj hid'
    exact hst.slot name id hid

/-! ## Generators -/

theorem Mirrors.bind_generator (id : Nat) {post : (Nat → Prop) → β → Prop} {k k' : Generator → Action β}
    (hk : ∀ g h, g.Twins h → g.Knows known → Mirrors known post (k g) (k' h)) :
    Mirrors known post (generator id >>= k) (generator id >>= k') := by
  intro s t hst
  obtain ⟨htwins, hknows, -⟩ := hst.getD id
  rw [bind_apply, bind_apply, generator, generator, resume_ok, resume_ok]
  exact hk _ _ htwins hknows s t hst

theorem mirrors_setting {name : Value} (hname : name.Knows known) :
    Mirrors known (fun _ _ => True) (setting name) (setting name) := by
  unfold setting
  split
  · exact mirrors_pure trivial
  · exact (mirrors_literal? hname).bind fun _ _ _ _ => mirrors_fail _

theorem mirrors_set (id : Nat) {name : Value} (hname : name.Knows known) (value : Value) :
    Mirrors known (fun _ _ => True) (set id name value) (set id name value) := by
  refine (mirrors_setting hname).bind fun known' setting _ _ => ?_
  intro s t hst
  obtain ⟨htwins, hknows, hsame⟩ := hst.getD id
  rw [bind_apply, bind_apply, generator, generator, resume_ok, resume_ok]
  generalize (s.generator? id).getD .initial = g at htwins hknows hsame
  generalize (t.generator? id).getD .initial = h at htwins hsame
  obtain ⟨f, hg, hh⟩ | ⟨g', h', hg, hh, htwins'⟩ := (htwins.set setting value).eq_or
  · rw [hg, hh]
    exact alike_of_error rfl rfl
  · rw [hg, hh]
    refine ⟨rfl, fun _ _ => ⟨known', le_refl _, hst.put id ?_ htwins' fun hid => ?_, trivial⟩⟩
    · exact (Generator.closed_knows known').set hknows hg
    · obtain rfl := hsame hid
      exact Except.ok.inj (hh.symm.trans hg)

theorem mirrors_build (options : Value) :
    Mirrors known (fun known' id => known' id) (build options) (build options) := by
  intro s t hst
  cases hmade : Generator.initial.configure options with
  | error f =>
    rw [build_refused s hmade, build_refused t hmade]
    exact alike_of_error rfl rfl
  | ok made =>
    have hknows := (Generator.closed_knows known).configure (Generator.closed_knows known).initial hmade
    rw [build_apply s hmade, build_apply t hmade]
    refine ⟨congrArg Except.ok hst.size, fun id hid => ?_⟩
    obtain rfl := Except.ok.inj hid
    refine ⟨fun id => known id ∨ id = s.generators.size, fun _ => .inl, ?_, .inr rfl⟩
    exact hst.adding hknows (.refl _) (fun id hid => hid.imp_right fun h => ⟨h, rfl⟩) fun _ => .inl

theorem mirrors_buildOptional (options : Value) :
    Mirrors known (fun known' id => known' id) (buildOptional options) (buildOptional options) :=
  mirrors_build _

theorem mirrors_resolve (config : Value) :
    Mirrors known (fun _ _ => True) (resolve config) (resolve config) := by
  have hbuild (options : Value) : Mirrors known (fun _ _ => True) (build options) (build options) :=
    (mirrors_build options).mono fun _ _ _ => trivial
  unfold resolve
  split
  · exact mirrors_pure trivial
  · split
    · exact hbuild _
    · exact hbuild _

end Action

/-- Twins are handed on as twins, at the same depth. -/
theorem Extension.mirrors_hand {known : Nat → Prop} {g h : Generator} (hgh : g.Twins h) {depth : Value}
    (hd : depth.Knows known) :
    Action.Mirrors known (fun _ _ => True) (hand g depth) (hand h depth) := by
  intro s t hst
  obtain ⟨f, hg, hh⟩ | ⟨made, made', hg, hh, htwins⟩ := hgh.copy.eq_or
  · rw [hand_refused hg, hand_refused hh]
    exact Action.alike_of_error rfl rfl
  · have hclosed := Generator.closed_knows known
    have hknows := hclosed.place (hclosed.configure hclosed.initial hg) hd
    rw [hand_apply hg, hand_apply hh]
    refine ⟨congrArg Except.ok hst.size, fun _ _ => ⟨known, le_refl _, ?_, trivial⟩⟩
    exact hst.adding hknows (htwins.put (by decide) depth) (fun id hid => .inl hid) (le_refl _)

/-! ## Reading -/

section

open JsonWriter.Action (Mirrors mirrors_pure mirrors_fail mirrors_ofExcept mirrors_any)

variable {known : Nat → Prop}

theorem mirrors_convert {v : Value} (hv : v.Knows known) (into : NativeType) :
    Mirrors known (fun known' w => w.Knows known') (Action.convert into v) (Action.convert into v) := by
  cases into with
  | int | float | binary kind => exact (mirrors_any _).bind fun _ _ _ _ => mirrors_pure trivial
  | str => exact (Action.mirrors_shown hv).bind fun _ _ _ _ => mirrors_pure trivial
  | list | tuple =>
    exact (mirrors_ofExcept fun items hitems => Value.deep_knows.members hv hitems).bind
      fun _ _ _ hitems => mirrors_pure (Value.deep_knows.sequence.mpr hitems)
  | dictionary =>
    exact (mirrors_ofExcept fun es hes => Value.deep_knows.toEntries hv hes).bind
      fun _ _ _ hes => mirrors_pure (Value.deep_knows.mapping.mpr hes)

theorem mirrors_dictionary {entries entries' : Action Entries} (kind : MappingKind)
    (h : Mirrors known (fun known' es => Value.EntriesKnow known' es) entries entries') :
    Mirrors known (fun known' w => w.Knows known')
      (do
        match Keyed.dictionary? [] (← entries) with
        | .ok entries => Action.identify (.mapping kind entries)
        | .error kind => Action.fail (.type (.unhashable kind)))
      (do
        match Keyed.dictionary? [] (← entries') with
        | .ok entries => Action.identify (.mapping kind entries)
        | .error kind => Action.fail (.type (.unhashable kind))) := by
  refine h.bind fun known' es _ hes => ?_
  split
  · next hd =>
    refine Action.mirrors_identify (Value.deep_knows.mapping.mpr ?_)
    exact Value.Deep.dictionary? (List.forall_mem_nil _) (Value.entriesKnow_iff.mp hes) hd
  · exact mirrors_fail _

mutual

/-- What is read is the same in both sessions, and knows what it knew or what was made for it. -/
theorem mirrors_read : (v : Value) → {known : Nat → Prop} → v.Knows known →
    Mirrors known (fun known' w => w.Knows known') v.read v.read
  | .sequence kind items, _, h =>
    (mirrors_readItems items h).bind fun _ _ _ hitems =>
      Action.mirrors_identify (v := .sequence kind _) hitems
  | .mapping .pairs entries, _, h =>
    (mirrors_readEntries entries h).bind fun _ _ _ hes => Action.mirrors_identify (v := .mapping .pairs _) hes
  | .mapping .dictionary entries, _, h => mirrors_dictionary .dictionary (mirrors_readEntries entries h)
  | .mapping .view entries, _, h => mirrors_dictionary .view (mirrors_readEntries entries h)
  | .derived base, _, h => (mirrors_read base h).bind fun _ w _ hw => mirrors_pure (a := Value.derived w) hw
  | .object shown, _, h =>
    (mirrors_read shown h).bind fun _ v _ hv => Action.mirrors_identify (v := .object v) hv
  | .described d, _, h => mirrors_readDescription d h
  | .null, _, h | .bool _, _, h | .int _, _, h | .float _, _, h | .str _, _, h | .setting _, _, h
  | .binary _ _, _, h | .memory _, _, h | .selfList _, _, h | .selfDictionary _, _, h | .outer _, _, h
  | .own _ _, _, h | .type _, _, h | .extension _, _, h | .generator _, _, h => Action.mirrors_identify h
termination_by structural v => v

theorem mirrors_readItems : (vs : List Value) → {known : Nat → Prop} → Value.AllKnow known vs →
    Mirrors known (fun known' ws => Value.AllKnow known' ws) (Value.readItems vs) (Value.readItems vs)
  | [], _, _ => mirrors_pure trivial
  | v :: rest, _, h =>
    (mirrors_read v h.1).bind fun _ w hle hw =>
      (mirrors_readItems rest (Value.AllKnow.mono hle rest h.2)).bind fun _ _ hle' hws =>
        mirrors_pure ⟨Value.Knows.mono hle' w hw, hws⟩
termination_by structural vs => vs

theorem mirrors_readEntries : (es : List (Value × Value)) → {known : Nat → Prop} →
    Value.EntriesKnow known es →
    Mirrors known (fun known' fs => Value.EntriesKnow known' fs) (Value.readEntries es)
      (Value.readEntries es)
  | [], _, _ => mirrors_pure trivial
  | (key, v) :: rest, _, h =>
    (mirrors_read key h.1.1).bind fun _ k hle hk =>
      (mirrors_read v (Value.Knows.mono hle v h.1.2)).bind fun _ w hle' hw =>
        (mirrors_readEntries rest (Value.EntriesKnow.mono (hle.trans hle') rest h.2)).bind
          fun _ _ hle'' hfs => mirrors_pure
            ⟨⟨Value.Knows.mono (hle'.trans hle'') k hk, Value.Knows.mono hle'' w hw⟩, hfs⟩
termination_by structural es => es

theorem mirrors_readDescription : (d : Description Value) → {known : Nat → Prop} →
    Value.DescriptionKnows known d →
    Mirrors known (fun known' w => w.Knows known') (Value.readDescription d) (Value.readDescription d)
  | .slot name, _, _ =>
    (Action.mirrors_slot name).bind fun _ id _ hid => mirrors_pure (a := Value.generator id) hid
  | .fresh options, _, h =>
    (mirrors_read options h).bind fun _ _ _ _ => (Action.mirrors_buildOptional _).bind
      fun _ id _ hid => mirrors_pure (a := Value.generator id) hid
  | .repeated v _, _, h =>
    (mirrors_read v h).bind fun _ _ _ hw =>
      (mirrors_ofExcept fun _ hu => Value.deep_knows.times hw hu).bind fun _ _ _ hu =>
        Action.mirrors_identify hu
  | .derived into v, _, h =>
    (mirrors_read v h).bind fun _ _ _ hw => (mirrors_convert hw into).bind fun _ _ _ hu =>
      (Action.mirrors_identify hu).bind fun _ u _ hu => mirrors_pure (a := Value.derived u) hu
termination_by structural d => d

end

theorem mirrors_readOptional (v : Option Value) (h : Value.OptionKnows known v) :
    Mirrors known (fun known' w => Value.OptionKnows known' w) (Action.readOptional v)
      (Action.readOptional v) := by
  cases v with
  | none => exact mirrors_pure trivial
  | some v => exact (mirrors_read v h).bind fun _ w _ hw => mirrors_pure (a := some w) hw

end

end JsonWriter
