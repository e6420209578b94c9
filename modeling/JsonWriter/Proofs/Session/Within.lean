import JsonWriter.Generate
import JsonWriter.Proofs.Session.Ensures
import JsonWriter.Proofs.Session.Hosts

/-!
# What actions do to the generators of a session

Generators are made, and what is written to is either new or the one generator that an action is about.
Whatever the library makes of generators of a kind is of that kind again, as long as the kind is kept by
checked changes and by the depths that generators are set to. One lemma for each action says both. Main
statement: `ensures_read`, for values that are read.
-/

namespace JsonWriter

/-- A kind of generator and a kind of depth: what checked changes, an unlimited nesting or a depth of
the kind make of a generator of the kind is of the kind. -/
structure Generator.Closed (made : Generator → Prop) (placed : Value → Prop) : Prop where
  initial : made .initial
  configure : ∀ {g g' : Generator} {options : Value} {ignored : List Value}, made g →
    g.configure options = .ok (g', ignored) → made g'
  set : ∀ {g g' : Generator} {s : Setting} {v : Value}, made g → g.set s v = .ok g' → made g'
  unlimited : ∀ {g : Generator}, made g → made (g.put .maxNesting (.int 0))
  place : ∀ {g : Generator} {depth : Value}, made g → placed depth → made (g.put .depth depth)
  depth : ∀ {g : Generator}, made g → placed g.depth
  succ : ∀ {depth : Value} {inner : Number}, placed depth → depth.succ = .ok inner →
    placed inner.value

/-- Every generator is of the kind of all generators. -/
theorem Generator.closed_all : Generator.Closed (fun _ => True) fun _ => True where
  initial := trivial
  configure _ _ := trivial
  set _ _ := trivial
  unlimited _ := trivial
  place _ _ := trivial
  depth _ := trivial
  succ _ _ := trivial

namespace Session

theorem generator?_push (s : Session) (g : Generator) (id : Nat) :
    generator? { s with generators := s.generators.push g } id =
      if id = s.generators.size then some g else s.generator? id := Array.getElem?_push

theorem generator?_put (s : Session) (g : Generator) (id id' : Nat) :
    generator? { s with generators := s.generators.setIfInBounds id g } id' =
      if id = id' then (s.generator? id').map fun _ => g else s.generator? id' := by
  simp only [generator?, Array.getElem?_setIfInBounds]
  split
  · next hid =>
    subst hid
    split
    · next hlt => rw [Array.getElem?_eq_getElem hlt, Option.map_some]
    · next hge => rw [Array.getElem?_eq_none (Nat.not_lt.mp hge), Option.map_none]
  · rfl

/-- What has become of the generators of a session: those it had are as they were, apart from one at
most, and all are of a kind. -/
structure Within (base : Session) (target : Option Nat) (made : Generator → Prop) (s : Session) :
    Prop where
  kept : ∀ id g, base.generator? id = some g → target ≠ some id → s.generator? id = some g
  grown : base.generators.size ≤ s.generators.size
  made : ∀ id g, s.generator? id = some g → made g

/-- The generator is new since the session, or the one that may be written to. -/
def Writable (base : Session) (target : Option Nat) (id : Nat) : Prop :=
  base.generators.size ≤ id ∨ target = some id

variable {base : Session} {target : Option Nat} {made : Generator → Prop} {s s' : Session}

theorem Within.refl (hmade : ∀ id g, base.generator? id = some g → made g) :
    base.Within target made base where
  kept _ _ h _ := h
  grown := Nat.le_refl _
  made := hmade

/-- Nothing but the generators counts. -/
theorem Within.congr (h : base.Within target made s) (heq : s'.generators = s.generators) :
    base.Within target made s' where
  kept id g hg hid := by
    rw [generator?, heq]
    exact h.kept id g hg hid
  grown := heq ▸ h.grown
  made id g hg := h.made id g (by rwa [generator?, heq] at hg)

theorem Within.record (h : base.Within target made s) (name : Text) (size : Value) :
    base.Within target made (s.record name size).2 := by
  refine h.congr ?_
  unfold Session.record
  split <;> rfl

theorem Within.push (h : base.Within target made s) {g : Generator} (hg : made g) :
    base.Within target made { s with generators := s.generators.push g } where
  kept id g' hg' hid := by
    have hs := h.kept id g' hg' hid
    have hlt : id < s.generators.size := (Array.getElem?_eq_some_iff.mp hs).1
    rwa [generator?_push, if_neg (Nat.ne_of_lt hlt)]
  grown := by
    rw [Array.size_push]
    exact Nat.le_succ_of_le h.grown
  made id g' hg' := by
    rw [generator?_push] at hg'
    split at hg'
    · exact Option.some.inj hg' ▸ hg
    · exact h.made id g' hg'

theorem Within.put (h : base.Within target made s) {id : Nat} (hid : base.Writable target id)
    {g : Generator} (hg : made g) :
    base.Within target made { s with generators := s.generators.setIfInBounds id g } where
  kept id' g' hg' hid' := by
    -- What is new is past the generators of the base session, so it is none of them.
    have hne : id ≠ id' := by
      rintro rfl
      obtain hnew | htarget := hid
      · have hlt : id < base.generators.size := (Array.getElem?_eq_some_iff.mp hg').1
        exact absurd hlt (Nat.not_lt.mpr hnew)
      · exact hid' htarget
    rw [generator?_put, if_neg hne]
    exact h.kept id' g' hg' hid'
  grown := by
    rw [Array.size_setIfInBounds]
    exact h.grown
  made id' g' hg' := by
    rw [generator?_put] at hg'
    split at hg'
    · obtain ⟨_, -, rfl⟩ := Option.map_eq_some_iff.mp hg'
      exact hg
    · exact h.made id' g' hg'

end Session

namespace Action

variable {α : Type} {base : Session} {target : Option Nat} {made : Generator → Prop}

/-! ## Actions that leave generators alone -/

theorem ensures_same {x : Action α} (h : ∀ s, (x s).2.generators = s.generators) :
    Ensures (base.Within target made) (fun _ => True) x := ensures_of_snd fun s hs => hs.congr (h s)

theorem IsCalm.ensures {x : Action α} (hx : IsCalm x) :
    Ensures (base.Within target made) (fun _ => True) x := by
  refine ensures_same fun s => ?_
  obtain ⟨p, hp⟩ := (hx s s (.refl s)).2
  rw [hp]

theorem ensures_log (r : Record) : Ensures (base.Within target made) (fun _ => True) (log r) :=
  ensures_same fun _ => rfl

theorem ensures_literal? (v : Value) :
    Ensures (base.Within target made) (fun _ => True) (literal? v) := ensures_same fun _ => rfl

theorem ensures_literal (v : Value) :
    Ensures (base.Within target made) (fun _ => True) (literal v) := by
  refine (ensures_literal? v).bind fun t _ => ?_
  cases t with
  | some t => exact ensures_pure trivial
  | none => exact ensures_fail _

theorem ensures_identity : Ensures (base.Within target made) (fun _ => True) identity :=
  ensures_same fun _ => rfl

theorem ensures_equal (i j : Nat) :
    Ensures (base.Within target made) (fun _ => True) (equal i j) := by
  refine ensures_same fun s => ?_
  unfold equal
  split <;> rfl

theorem ensures_slot (name : Text) :
    Ensures (base.Within target made) (fun _ => True) (slot name) := by
  refine ensures_same fun s => ?_
  unfold slot
  split <;> rfl

theorem ensures_setSlot (name : Text) (id : Nat) :
    Ensures (base.Within target made) (fun _ => True) (setSlot name id) := ensures_same fun _ => rfl

theorem ensures_setting (name : Value) :
    Ensures (base.Within target made) (fun _ => True) (setting name) := by
  unfold setting
  split
  · exact ensures_pure trivial
  · exact (ensures_literal? name).bind fun _ _ => ensures_fail _

section

variable {post : α → Prop} {x : Action α} (hx : Ensures (base.Within target made) post x)

include hx

theorem Ensures.counted (name : Text) (size : Nat) :
    Ensures (base.Within target made) post (counted name size x) :=
  fun s hs => ⟨(hx s hs).1.record name _, (hx s hs).2⟩

theorem Ensures.countedAs (name : Text) (size : Value) :
    Ensures (base.Within target made) post (countedAs name size x) :=
  hx.countedAs_of fun _ hs => hs.record name size

theorem Ensures.logged : Ensures (base.Within target made) post (logged x) :=
  hx.logged_of fun _ _ hs => hs.congr rfl

end

/-! ## Actions on generators -/

theorem ensures_replace {id : Nat} (hid : base.Writable target id) {g : Generator} (hg : made g) :
    Ensures (base.Within target made) (fun _ => True) (replace id g) :=
  ensures_of_snd fun _ hs => hs.put hid hg

theorem ensures_add {g : Generator} (hg : made g) :
    Ensures (base.Within target made) (base.Writable target) (add g) := by
  refine fun s hs => ⟨hs.push hg, fun id hid => ?_⟩
  obtain rfl := Except.ok.inj hid
  exact .inl hs.grown

theorem ensures_configured {r : Except Fault (Generator × List Value)}
    (h : ∀ g ignored, r = .ok (g, ignored) → made g) :
    Ensures (base.Within target made) made (configured r) := by
  refine (ensures_ofExcept fun a ha => h a.1 a.2 ha).bind fun a ha => ?_
  exact (Ensures.forM fun key _ => ensures_log _).bind fun _ _ => ensures_pure ha

variable {placed : Value → Prop} (hc : Generator.Closed made placed)

include hc

theorem ensures_generator (id : Nat) : Ensures (base.Within target made) made (generator id) := by
  refine fun s hs => ⟨hs, fun g hg => ?_⟩
  obtain rfl := Except.ok.inj hg
  cases hid : s.generator? id with
  | none => exact hc.initial
  | some g => exact hs.made id g hid

theorem ensures_build (options : Value) :
    Ensures (base.Within target made) (base.Writable target) (build options) :=
  (ensures_configured fun _ _ h => hc.configure hc.initial h).bind fun _ hg => ensures_add hg

theorem ensures_buildOptional (options : Value) :
    Ensures (base.Within target made) (base.Writable target) (buildOptional options) :=
  ensures_build hc _

theorem ensures_configure {id : Nat} (hid : base.Writable target id) (options : Value) :
    Ensures (base.Within target made) (fun _ => True) (configure id options) :=
  (ensures_generator hc id).bind fun _ hg =>
    (ensures_configured fun _ _ h => hc.configure hg h).bind fun _ hg' => ensures_replace hid hg'

theorem ensures_copy (g : Generator) :
    Ensures (base.Within target made) (base.Writable target) (copy g) :=
  (ensures_configured fun _ _ h => hc.configure hc.initial h).bind fun _ hg => ensures_add hg

theorem ensures_get (id : Nat) (name : Value) :
    Ensures (base.Within target made) (fun _ => True) (get id name) :=
  (ensures_setting name).bind fun _ _ => (ensures_generator hc id).bind fun _ _ =>
    ensures_pure trivial

theorem ensures_set {id : Nat} (hid : base.Writable target id) (name value : Value) :
    Ensures (base.Within target made) (fun _ => True) (set id name value) :=
  (ensures_setting name).bind fun _ _ => (ensures_generator hc id).bind fun _ hg =>
    (ensures_ofExcept fun _ h => hc.set hg h).bind fun _ hg' => ensures_replace hid hg'

theorem ensures_resolve (config : Value) :
    Ensures (base.Within target made) (fun _ => True) (resolve config) := by
  have hbuild (options : Value) : Ensures (base.Within target made) (fun _ => True) (build options) :=
    (ensures_build hc options).mono fun _ _ => trivial
  unfold resolve
  split
  · exact ensures_pure trivial
  · split
    · exact hbuild _
    · exact hbuild _

end Action

/-! ## Reading -/

section

open JsonWriter.Action (Ensures ensures_pure ensures_fail ensures_ofExcept)

variable {base : Session} {target : Option Nat} {made : Generator → Prop}
  {allowed : Extension Value → Prop}

theorem ensures_identify {post : Value → Prop} {v : Value} (h : post v)
    (hown : ∀ i, post (.own i v)) :
    Ensures (base.Within target made) post (Action.identify v) := by
  unfold Action.identify
  split
  · exact Action.ensures_identity.bind fun i _ => ensures_pure (hown i)
  · exact ensures_pure h

theorem ensures_convert (into : NativeType) (v : Value) :
    Ensures (base.Within target made) (fun w => v.Hosts allowed → w.Hosts allowed)
      (Action.convert into v) := by
  cases into with
  | int | float | binary kind =>
    exact (Action.ensures_any _).bind fun _ _ => ensures_pure fun _ => trivial
  | str => exact (Action.isCalm_shown v).ensures.bind fun _ _ => ensures_pure fun _ => trivial
  | list | tuple =>
    exact (ensures_ofExcept fun items hitems h => Value.deep_hosts.sequence.mpr
      (Value.deep_hosts.members h hitems)).bind fun items h => ensures_pure h
  | dictionary =>
    exact (ensures_ofExcept fun es hes h => Value.deep_hosts.mapping.mpr
      (Value.deep_hosts.toEntries h hes)).bind fun es h => ensures_pure h

variable {placed : Value → Prop}

mutual

/-- Reading a value writes to no generator, and what is read holds no other objects that write
themselves than the value. -/
theorem ensures_read (hc : Generator.Closed made placed) : (v : Value) →
    Ensures (base.Within target made) (fun w => v.Hosts allowed → w.Hosts allowed) v.read
  | .sequence kind items =>
    (ensures_readItems hc items).bind fun items' h => ensures_identify h fun _ => h
  | .mapping .pairs entries =>
    (ensures_readEntries hc entries).bind fun entries' h => ensures_identify h fun _ => h
  | .mapping .dictionary entries =>
    (ensures_readEntries hc entries).bind fun entries' h => by
      split
      · next hd =>
        have h' (hes : Value.EntriesHost allowed entries) :=
          Value.entriesHost_dictionary? (h hes) hd
        exact ensures_identify h' fun _ => h'
      · exact ensures_fail _
  | .mapping .view entries =>
    (ensures_readEntries hc entries).bind fun entries' h => by
      split
      · next hd =>
        have h' (hes : Value.EntriesHost allowed entries) :=
          Value.entriesHost_dictionary? (h hes) hd
        exact ensures_identify h' fun _ => h'
      · exact ensures_fail _
  | .derived base => (ensures_read hc base).bind fun _ h => ensures_pure h
  | .object shown =>
    (ensures_read hc shown).bind fun _ _ => ensures_identify (fun _ => trivial) fun _ _ => trivial
  | .described d => ensures_readDescription hc d
  | .null | .bool _ | .int _ | .float _ | .str _ | .setting _ | .binary _ _ | .memory _
  | .selfList _ | .selfDictionary _ | .outer _ | .own _ _ | .type _ | .extension _ | .generator _ =>
    ensures_identify id fun _ => id
termination_by structural v => v

theorem ensures_readItems (hc : Generator.Closed made placed) : (vs : List Value) →
    Ensures (base.Within target made) (fun ws => Value.AllHost allowed vs → Value.AllHost allowed ws)
      (Value.readItems vs)
  | [] => ensures_pure id
  | v :: rest =>
    (ensures_read hc v).bind fun _ hv => (ensures_readItems hc rest).bind fun _ hrest =>
      ensures_pure fun h => ⟨hv h.1, hrest h.2⟩
termination_by structural vs => vs

theorem ensures_readEntries (hc : Generator.Closed made placed) : (es : List (Value × Value)) →
    Ensures (base.Within target made)
      (fun fs => Value.EntriesHost allowed es → Value.EntriesHost allowed fs) (Value.readEntries es)
  | [] => ensures_pure id
  | (k, v) :: rest =>
    (ensures_read hc k).bind fun _ hk => (ensures_read hc v).bind fun _ hv =>
      (ensures_readEntries hc rest).bind fun _ hrest =>
        ensures_pure fun h => ⟨⟨hk h.1.1, hv h.1.2⟩, hrest h.2⟩
termination_by structural es => es

theorem ensures_readDescription (hc : Generator.Closed made placed) : (d : Description Value) →
    Ensures (base.Within target made)
      (fun w => Value.DescriptionHosts allowed d → w.Hosts allowed) (Value.readDescription d)
  | .slot name => (Action.ensures_slot name).bind fun _ _ => ensures_pure fun _ => trivial
  | .fresh options =>
    (ensures_read hc options).bind fun _ _ => (Action.ensures_buildOptional hc _).bind fun _ _ =>
      ensures_pure fun _ => trivial
  | .repeated v _ =>
    (ensures_read hc v).bind fun _ hv =>
      (ensures_ofExcept fun _ hw h => Value.deep_hosts.times (hv h) hw).bind fun _ hw =>
        ensures_identify hw fun _ => hw
  | .derived into v =>
    (ensures_read hc v).bind fun w hv => (ensures_convert into w).bind fun _ hu =>
      (ensures_identify (fun h => hu (hv h)) fun _ h => hu (hv h)).bind fun _ h => ensures_pure h
termination_by structural d => d

end

/-- Reading a value writes to no generator. -/
theorem Action.ensures_reading (hc : Generator.Closed made placed) (v : Value) :
    Ensures (base.Within target made) (fun _ => True) v.read := by
  have hread : Ensures (base.Within target made)
      (fun w => v.Hosts (fun _ => True) → w.Hosts fun _ => True) v.read := ensures_read hc v
  exact hread.mono fun _ _ => trivial

theorem Action.ensures_readOptional (hc : Generator.Closed made placed) (v : Option Value) :
    Ensures (base.Within target made) (fun _ => True) (Action.readOptional v) := by
  cases v with
  | none => exact ensures_pure trivial
  | some v =>
    exact (Action.ensures_reading hc v).bind fun _ _ => ensures_pure trivial

end

end JsonWriter
