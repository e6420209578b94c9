import Mathlib.Data.Nat.Basic
import Mathlib.Order.Basic
import JsonWriter.Proofs.Contents
import JsonWriter.Proofs.Session.Ensures
import JsonWriter.Session.Read

/-!
# Identities that were given

What is read gets identities from the session, one after the other. Main statement: `issues_read`, what
is read has no others than those that were given by then.
-/

namespace JsonWriter

/-! ## In a value -/

mutual

/-- The identities in the value are below `n`, also those in what is written for it or made of it. -/
def Value.IsIssued (n : Nat) : Value → Prop
  | .sequence _ items | .selfList items => Value.AreIssued n items
  | .mapping _ entries | .selfDictionary entries => Value.EntriesAreIssued n entries
  | .derived v | .object v => v.IsIssued n
  | .own i v => i < n ∧ v.IsIssued n
  | .extension e => Value.ExtensionIsIssued n e
  | .described d => Value.DescriptionIsIssued n d
  | _ => True
termination_by structural v => v

def Value.AreIssued (n : Nat) : List Value → Prop
  | [] => True
  | v :: rest => v.IsIssued n ∧ Value.AreIssued n rest
termination_by structural vs => vs

def Value.EntriesAreIssued (n : Nat) : List (Value × Value) → Prop
  | [] => True
  | (key, v) :: rest => (key.IsIssued n ∧ v.IsIssued n) ∧ Value.EntriesAreIssued n rest
termination_by structural es => es

def Value.OptionIsIssued (n : Nat) : Option Value → Prop
  | none => True
  | some v => v.IsIssued n
termination_by structural v => v

def Value.ExtensionIsIssued (n : Nat) : Extension Value → Prop
  | .literal v | .capture _ v => v.IsIssued n
  | .point x y => x.IsIssued n ∧ y.IsIssued n
  | .delegate v option | .reconfigured v option => v.IsIssued n ∧ Value.OptionIsIssued n option
  | .mutator settings v => Value.EntriesAreIssued n settings ∧ v.IsIssued n
  | .depthText | .stateText | .raiser _ _ => True
termination_by structural e => e

def Value.DescriptionIsIssued (n : Nat) : Description Value → Prop
  | .fresh v | .repeated v _ | .derived _ v => v.IsIssued n
  | .slot _ => True
termination_by structural d => d

end

namespace Value

variable {n : Nat}

theorem areIssued_iff {vs : List Value} : AreIssued n vs ↔ ∀ v ∈ vs, v.IsIssued n := by
  induction vs with
  | nil => simp [AreIssued]
  | cons v rest ih => simp [AreIssued, ih]

theorem entriesAreIssued_iff {es : List (Value × Value)} :
    EntriesAreIssued n es ↔ ∀ e ∈ es, e.1.IsIssued n ∧ e.2.IsIssued n := by
  induction es with
  | nil => simp [EntriesAreIssued]
  | cons e rest ih => simp [EntriesAreIssued, ih]

theorem isIssued_given? {v : Option Value} (h : OptionIsIssued n v) : ∀ w ∈ given? v, w.IsIssued n := by
  intro w hw
  unfold given? at hw
  split at hw
  · cases hw
  · cases hw
  · obtain rfl := Option.some.inj hw
    exact h

theorem deep_isIssued : Deep (IsIssued n) where
  sequence := areIssued_iff
  selfList := areIssued_iff
  mapping := entriesAreIssued_iff
  selfDictionary := entriesAreIssued_iff
  derived := Iff.rfl
  own := And.right
  renew h hw := ⟨h.1, hw⟩
  str _ := trivial
  number x := by cases x <;> trivial
  binary _ _ := trivial

variable {n' : Nat}

mutual

theorem IsIssued.mono (h : n ≤ n') : (v : Value) → v.IsIssued n → v.IsIssued n'
  | sequence _ items, hv | selfList items, hv => AreIssued.mono h items hv
  | mapping _ entries, hv | selfDictionary entries, hv => EntriesAreIssued.mono h entries hv
  | derived v, hv | object v, hv => IsIssued.mono h v hv
  | own _ v, hv => ⟨hv.1.trans_le h, IsIssued.mono h v hv.2⟩
  | extension e, hv => ExtensionIsIssued.mono h e hv
  | described d, hv => DescriptionIsIssued.mono h d hv
  | null, _ | bool _, _ | int _, _ | float _, _ | str _, _ | setting _, _ | binary _ _, _ | memory _, _
  | outer _, _ | type _, _ | generator _, _ => trivial
termination_by structural v => v

theorem AreIssued.mono (h : n ≤ n') : (vs : List Value) → AreIssued n vs → AreIssued n' vs
  | [], _ => trivial
  | v :: rest, hv => ⟨IsIssued.mono h v hv.1, AreIssued.mono h rest hv.2⟩
termination_by structural vs => vs

theorem EntriesAreIssued.mono (h : n ≤ n') :
    (es : List (Value × Value)) → EntriesAreIssued n es → EntriesAreIssued n' es
  | [], _ => trivial
  | (key, v) :: rest, hv =>
    ⟨⟨IsIssued.mono h key hv.1.1, IsIssued.mono h v hv.1.2⟩, EntriesAreIssued.mono h rest hv.2⟩
termination_by structural es => es

theorem OptionIsIssued.mono (h : n ≤ n') : (v : Option Value) → OptionIsIssued n v → OptionIsIssued n' v
  | none, _ => trivial
  | some v, hv => IsIssued.mono h v hv
termination_by structural v => v

theorem ExtensionIsIssued.mono (h : n ≤ n') :
    (e : Extension Value) → ExtensionIsIssued n e → ExtensionIsIssued n' e
  | .literal v, hv | .capture _ v, hv => IsIssued.mono h v hv
  | .point x y, hv => ⟨IsIssued.mono h x hv.1, IsIssued.mono h y hv.2⟩
  | .delegate v option, hv | .reconfigured v option, hv =>
    ⟨IsIssued.mono h v hv.1, OptionIsIssued.mono h option hv.2⟩
  | .mutator settings v, hv => ⟨EntriesAreIssued.mono h settings hv.1, IsIssued.mono h v hv.2⟩
  | .depthText, _ | .stateText, _ | .raiser _ _, _ => trivial
termination_by structural e => e

theorem DescriptionIsIssued.mono (h : n ≤ n') :
    (d : Description Value) → DescriptionIsIssued n d → DescriptionIsIssued n' d
  | .fresh v, hv | .repeated v _, hv | .derived _ v, hv => IsIssued.mono h v hv
  | .slot _, _ => trivial
termination_by structural d => d

end

end Value

/-! ## In a session -/

namespace Action

variable {α β : Type} {n : Nat}

/-- What the action returns is as stated of the identities that were given by then, which are no fewer
than before. -/
def Issues (n : Nat) (post : Nat → α → Prop) (x : Action α) : Prop :=
  ∀ s, n ≤ s.identities →
    s.identities ≤ (x s).2.identities ∧ ∀ a, (x s).1 = .ok a → post (x s).2.identities a

variable {post : Nat → α → Prop}

theorem issues_pure {a : α} (h : ∀ n', n ≤ n' → post n' a) : Issues n post (pure a) := by
  refine fun s hs => ⟨Nat.le_refl _, fun b hb => ?_⟩
  obtain rfl := Except.ok.inj hb
  exact h _ hs

theorem issues_fail (f : Fault) : Issues n post (fail f) :=
  fun _ _ => ⟨Nat.le_refl _, fun _ h => by cases h⟩

theorem Issues.bind {mid : Nat → α → Prop} {post : Nat → β → Prop} {x : Action α} {k : α → Action β}
    (hx : Issues n mid x) (hk : ∀ n' a, n ≤ n' → mid n' a → Issues n' post (k a)) :
    Issues n post (x >>= k) := by
  intro s hs
  obtain ⟨hle, hmid⟩ := hx s hs
  rw [bind_apply]
  generalize x s = run at hle hmid
  obtain ⟨_ | a, s'⟩ := run
  · exact ⟨hle, fun _ h => by cases h⟩
  · obtain ⟨hle', hpost⟩ := hk _ a (hs.trans hle) (hmid a rfl) s' (Nat.le_refl _)
    exact ⟨hle.trans hle', hpost⟩

/-- What does not take identities from the session issues none. -/
theorem Ensures.issues {post : α → Prop} {x : Action α}
    (hx : ∀ k, Ensures (fun s => s.identities = k) post x) : Issues n (fun _ => post) x := by
  intro s _
  obtain ⟨hkept, hpost⟩ := hx s.identities s rfl
  exact ⟨hkept.ge, hpost⟩

theorem issues_ofExcept {post : α → Prop} {r : Except Fault α} (h : ∀ a, r = .ok a → post a) :
    Issues n (fun _ => post) (ofExcept r) := Ensures.issues fun _ => ensures_ofExcept h

theorem issues_slot (name : Text) : Issues n (fun _ _ => True) (slot name) := by
  refine Ensures.issues fun k => ensures_of_snd fun s hs => ?_
  unfold slot
  split <;> exact hs

theorem issues_configured {r : Except Fault (Generator × List Value)} {post : Generator → Prop}
    (h : ∀ g ignored, r = .ok (g, ignored) → post g) : Issues n (fun _ => post) (configured r) := by
  refine Ensures.issues fun k => (ensures_ofExcept fun made hmade => h made.1 made.2 hmade).bind ?_
  exact fun _ hg => (Ensures.forM fun _ _ => ensures_of_snd fun _ h => h).bind fun _ _ => ensures_pure hg

theorem issues_build (options : Value) : Issues n (fun _ _ => True) (build options) :=
  (issues_configured fun _ _ _ => trivial).bind fun _ _ _ _ =>
    Ensures.issues fun _ => ensures_of_snd fun _ h => h

end Action

section

open JsonWriter.Action (Issues issues_pure issues_fail issues_ofExcept issues_slot)
open JsonWriter.Action (Ensures ensures_of_snd ensures_ofExcept ensures_pure)

variable {n : Nat}

theorem issues_identify {v : Value} (hv : v.IsIssued n) :
    Issues n (fun n' w => w.IsIssued n') (Action.identify v) := by
  have hidentity : Issues n (fun n' i => i < n') Action.identity := by
    refine fun s _ => ⟨Nat.le_succ _, fun i hi => ?_⟩
    obtain rfl := Except.ok.inj hi
    exact Nat.lt_succ_self _
  unfold Action.identify
  split
  · exact hidentity.bind fun n' i hn hi => issues_pure fun k hk =>
      ⟨hi.trans_le hk, Value.IsIssued.mono (hn.trans hk) v hv⟩
  · exact issues_pure fun k hk => Value.IsIssued.mono hk v hv

theorem issues_convert {v : Value} (hv : v.IsIssued n) (into : NativeType) :
    Issues n (fun _ w => w.IsIssued n) (Action.convert into v) := by
  refine Ensures.issues fun k => ?_
  cases into with
  | int | float | binary kind => exact (Action.ensures_any _).bind fun _ _ => ensures_pure trivial
  | str =>
    have hshown : Ensures (fun s => s.identities = k) (fun _ => True) (Action.shown v) := by
      refine ensures_of_snd fun s hs => ?_
      unfold Action.shown
      split <;> exact hs
    exact hshown.bind fun _ _ => ensures_pure trivial
  | list | tuple =>
    exact (ensures_ofExcept fun items hitems => Value.deep_isIssued.members hv hitems).bind
      fun items hitems => ensures_pure (Value.deep_isIssued.sequence.mpr hitems)
  | dictionary =>
    exact (ensures_ofExcept fun es hes => Value.deep_isIssued.toEntries hv hes).bind
      fun es hes => ensures_pure (Value.deep_isIssued.mapping.mpr hes)

theorem issues_dictionary {entries : Action Entries} (kind : MappingKind)
    (h : Issues n (fun n' es => Value.EntriesAreIssued n' es) entries) :
    Issues n (fun n' w => w.IsIssued n') (do
      match Keyed.dictionary? [] (← entries) with
      | .ok entries => Action.identify (.mapping kind entries)
      | .error kind => Action.fail (.type (.unhashable kind))) := by
  refine h.bind fun n' es _ hes => ?_
  split
  · next hd =>
    refine issues_identify (Value.deep_isIssued.mapping.mpr ?_)
    exact Value.Deep.dictionary? (List.forall_mem_nil _) (Value.entriesAreIssued_iff.mp hes) hd
  · exact issues_fail _

mutual

/-- What is read has no identities but those that were given. -/
theorem issues_read : (v : Value) → {n : Nat} → v.IsIssued n →
    Issues n (fun n' w => w.IsIssued n') v.read
  | .sequence kind items, _, h =>
    (issues_readItems items h).bind fun _ _ _ hitems => issues_identify (v := .sequence kind _) hitems
  | .mapping .pairs entries, _, h =>
    (issues_readEntries entries h).bind fun _ _ _ hes => issues_identify (v := .mapping .pairs _) hes
  | .mapping .dictionary entries, _, h => issues_dictionary .dictionary (issues_readEntries entries h)
  | .mapping .view entries, _, h => issues_dictionary .view (issues_readEntries entries h)
  | .derived base, _, h => (issues_read base h).bind fun _ w _ hw => issues_pure fun _ hk =>
    Value.IsIssued.mono hk w hw
  | .object shown, _, h => (issues_read shown h).bind fun _ v _ hv => issues_identify (v := .object v) hv
  | .described d, _, h => issues_readDescription d h
  | .null, _, h | .bool _, _, h | .int _, _, h | .float _, _, h | .str _, _, h | .setting _, _, h
  | .binary _ _, _, h | .memory _, _, h | .selfList _, _, h | .selfDictionary _, _, h | .outer _, _, h
  | .own _ _, _, h | .type _, _, h | .extension _, _, h | .generator _, _, h => issues_identify h
termination_by structural v => v

theorem issues_readItems : (vs : List Value) → {n : Nat} → Value.AreIssued n vs →
    Issues n (fun n' ws => Value.AreIssued n' ws) (Value.readItems vs)
  | [], _, _ => issues_pure fun _ _ => trivial
  | v :: rest, _, h =>
    (issues_read v h.1).bind fun _ w hn hw =>
      (issues_readItems rest (Value.AreIssued.mono hn rest h.2)).bind fun _ ws hn' hws =>
        issues_pure fun _ hk => ⟨Value.IsIssued.mono (hn'.trans hk) w hw, Value.AreIssued.mono hk ws hws⟩
termination_by structural vs => vs

theorem issues_readEntries : (es : List (Value × Value)) → {n : Nat} → Value.EntriesAreIssued n es →
    Issues n (fun n' fs => Value.EntriesAreIssued n' fs) (Value.readEntries es)
  | [], _, _ => issues_pure fun _ _ => trivial
  | (key, v) :: rest, _, h =>
    (issues_read key h.1.1).bind fun _ k hn hk =>
      (issues_read v (Value.IsIssued.mono hn v h.1.2)).bind fun _ w hn' hw =>
        (issues_readEntries rest (Value.EntriesAreIssued.mono (hn.trans hn') rest h.2)).bind
          fun _ fs hn'' hfs => issues_pure fun _ hl =>
            ⟨⟨Value.IsIssued.mono (hn'.trans (hn''.trans hl)) k hk,
              Value.IsIssued.mono (hn''.trans hl) w hw⟩, Value.EntriesAreIssued.mono hl fs hfs⟩
termination_by structural es => es

theorem issues_readDescription : (d : Description Value) → {n : Nat} →
    Value.DescriptionIsIssued n d → Issues n (fun n' w => w.IsIssued n') (Value.readDescription d)
  | .slot name, _, _ => (issues_slot name).bind fun _ _ _ _ => issues_pure fun _ _ => trivial
  | .fresh options, _, h => (issues_read options h).bind fun _ _ _ _ => (Action.issues_build _).bind
      fun _ _ _ _ => issues_pure fun _ _ => trivial
  | .repeated v _, _, h => (issues_read v h).bind fun _ _ _ hw =>
    (issues_ofExcept fun _ hu => Value.deep_isIssued.times hw hu).bind fun _ u hk hu =>
      issues_identify (Value.IsIssued.mono hk u hu)
  | .derived into v, _, h => (issues_read v h).bind fun _ _ _ hw =>
    (issues_convert hw into).bind fun _ u hk hu =>
      (issues_identify (Value.IsIssued.mono hk u hu)).bind fun _ u _ hu => issues_pure fun _ hk =>
        Value.IsIssued.mono (v := .derived u) hk hu
termination_by structural d => d

end

theorem issues_readOptional (v : Option Value) (h : Value.OptionIsIssued n v) :
    Issues n (fun n' w => Value.OptionIsIssued n' w) (Action.readOptional v) := by
  cases v with
  | none => exact issues_pure fun _ _ => trivial
  | some v => exact (issues_read v h).bind fun _ w _ hw => issues_pure fun _ hk =>
    Value.IsIssued.mono hk w hw

end

end JsonWriter
