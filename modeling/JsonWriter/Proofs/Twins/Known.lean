import JsonWriter.Proofs.Configuration.Simple
import JsonWriter.Proofs.Contents

/-!
# Generators that values know

A value knows generators by their numbers: in what it holds, and in what it writes, sets or is made of.
How it shows itself depends on no other generator. Main statements: `deep_knows` and `literalIn_congr`.
-/

namespace JsonWriter

mutual

/-- The value knows no generators but those. -/
def Value.Knows (known : Nat → Prop) : Value → Prop
  | .sequence _ items | .selfList items => Value.AllKnow known items
  | .mapping _ entries | .selfDictionary entries => Value.EntriesKnow known entries
  | .derived v | .object v | .own _ v => v.Knows known
  | .extension e => Value.ExtensionKnows known e
  | .generator id => known id
  | .described d => Value.DescriptionKnows known d
  | _ => True
termination_by structural v => v

def Value.AllKnow (known : Nat → Prop) : List Value → Prop
  | [] => True
  | v :: rest => v.Knows known ∧ Value.AllKnow known rest
termination_by structural vs => vs

def Value.EntriesKnow (known : Nat → Prop) : List (Value × Value) → Prop
  | [] => True
  | (key, v) :: rest => (key.Knows known ∧ v.Knows known) ∧ Value.EntriesKnow known rest
termination_by structural es => es

def Value.OptionKnows (known : Nat → Prop) : Option Value → Prop
  | none => True
  | some v => v.Knows known
termination_by structural v => v

def Value.ExtensionKnows (known : Nat → Prop) : Extension Value → Prop
  | .literal v | .capture _ v => v.Knows known
  | .point x y => x.Knows known ∧ y.Knows known
  | .delegate v option | .reconfigured v option => v.Knows known ∧ Value.OptionKnows known option
  | .mutator settings v => Value.EntriesKnow known settings ∧ v.Knows known
  | .depthText | .stateText | .raiser _ _ => True
termination_by structural e => e

def Value.DescriptionKnows (known : Nat → Prop) : Description Value → Prop
  | .fresh v | .repeated v _ | .derived _ v => v.Knows known
  | .slot _ => True
termination_by structural d => d

end

namespace Value

variable {known known' : Nat → Prop}

theorem allKnow_iff {vs : List Value} : AllKnow known vs ↔ ∀ v ∈ vs, v.Knows known := by
  induction vs with
  | nil => simp [AllKnow]
  | cons v rest ih => simp [AllKnow, ih]

theorem entriesKnow_iff {es : List (Value × Value)} :
    EntriesKnow known es ↔ ∀ e ∈ es, e.1.Knows known ∧ e.2.Knows known := by
  induction es with
  | nil => simp [EntriesKnow]
  | cons e rest ih => simp [EntriesKnow, ih]

theorem deep_knows : Deep (Knows known) where
  sequence := allKnow_iff
  selfList := allKnow_iff
  mapping := entriesKnow_iff
  selfDictionary := entriesKnow_iff
  derived := Iff.rfl
  own h := h
  renew _ h := h
  str _ := trivial
  number x := by cases x <;> trivial
  binary _ _ := trivial

theorem knows_of_isSimple : (v : Value) → v.IsSimple → v.Knows known
  | derived base, h => knows_of_isSimple base h
  | own _ v, h => knows_of_isSimple v h
  | null, _ | bool _, _ | int _, _ | float _, _ | str _, _ | setting _, _ | binary _ _, _ | memory _, _
  | outer _, _ | type _, _ => trivial
  | sequence _ _, h | mapping _ _, h | selfList _, h | selfDictionary _, h | object _, h
  | extension _, h | generator _, h | described _, h => by
    obtain h | h := h
    · cases h
    · cases h

theorem knows_given? {v : Option Value} (h : OptionKnows known v) : ∀ w ∈ given? v, w.Knows known := by
  intro w hw
  unfold given? at hw
  split at hw
  · cases hw
  · cases hw
  · obtain rfl := Option.some.inj hw
    exact h

mutual

theorem Knows.mono (h : ∀ id, known id → known' id) : (v : Value) → v.Knows known → v.Knows known'
  | sequence _ items, hv | selfList items, hv => AllKnow.mono h items hv
  | mapping _ entries, hv | selfDictionary entries, hv => EntriesKnow.mono h entries hv
  | derived v, hv | object v, hv | own _ v, hv => Knows.mono h v hv
  | extension e, hv => ExtensionKnows.mono h e hv
  | generator id, hv => h id hv
  | described d, hv => DescriptionKnows.mono h d hv
  | null, _ | bool _, _ | int _, _ | float _, _ | str _, _ | setting _, _ | binary _ _, _ | memory _, _
  | outer _, _ | type _, _ => trivial
termination_by structural v => v

theorem AllKnow.mono (h : ∀ id, known id → known' id) :
    (vs : List Value) → AllKnow known vs → AllKnow known' vs
  | [], _ => trivial
  | v :: rest, hv => ⟨Knows.mono h v hv.1, AllKnow.mono h rest hv.2⟩
termination_by structural vs => vs

theorem EntriesKnow.mono (h : ∀ id, known id → known' id) :
    (es : List (Value × Value)) → EntriesKnow known es → EntriesKnow known' es
  | [], _ => trivial
  | (key, v) :: rest, hv =>
    ⟨⟨Knows.mono h key hv.1.1, Knows.mono h v hv.1.2⟩, EntriesKnow.mono h rest hv.2⟩
termination_by structural es => es

theorem OptionKnows.mono (h : ∀ id, known id → known' id) :
    (v : Option Value) → OptionKnows known v → OptionKnows known' v
  | none, _ => trivial
  | some v, hv => Knows.mono h v hv
termination_by structural v => v

theorem ExtensionKnows.mono (h : ∀ id, known id → known' id) :
    (e : Extension Value) → ExtensionKnows known e → ExtensionKnows known' e
  | .literal v, hv | .capture _ v, hv => Knows.mono h v hv
  | .point x y, hv => ⟨Knows.mono h x hv.1, Knows.mono h y hv.2⟩
  | .delegate v option, hv | .reconfigured v option, hv =>
    ⟨Knows.mono h v hv.1, OptionKnows.mono h option hv.2⟩
  | .mutator settings v, hv => ⟨EntriesKnow.mono h settings hv.1, Knows.mono h v hv.2⟩
  | .depthText, _ | .stateText, _ | .raiser _ _, _ => trivial
termination_by structural e => e

theorem DescriptionKnows.mono (h : ∀ id, known id → known' id) :
    (d : Description Value) → DescriptionKnows known d → DescriptionKnows known' d
  | .fresh v, hv | .repeated v _, hv | .derived _ v, hv => Knows.mono h v hv
  | .slot _, _ => trivial
termination_by structural d => d

end

/-! ## Forms for messages and for output -/

section

variable {describe describe' : List Nat → Nat → Option Text}

mutual

/-- A value shows itself alike where the generators that it knows do. -/
theorem literalIn_congr (h : ∀ entered id, known id → describe' entered id = describe entered id)
    (entered : List Nat) (bound : List Text) : (v : Value) → v.Knows known →
    literalIn describe' entered bound v = literalIn describe entered bound v
  | sequence .list items, hv | sequence .tuple items, hv | selfList items, hv => by
    rw [literalIn, literalIn, literalItems_congr h _ _ items hv]
  | mapping .dictionary entries, hv | mapping .view entries, hv | selfDictionary entries, hv => by
    rw [literalIn, literalIn, literalEntries_congr h _ _ entries hv]
  | own i v, hv => by rw [literalIn, literalIn, literalIn_congr h _ _ v hv]
  | generator id, hv => h entered id hv
  | binary .bytes _, _ | binary .byteArray _, _ | mapping .pairs _, _ | null, _ | bool _, _ | int _, _
  | float _, _ | str _, _ | setting _, _ | memory _, _ | outer _, _ | derived _, _ | object _, _
  | type _, _ | extension _, _ | described _, _ => rfl
termination_by structural v => v

theorem literalItems_congr (h : ∀ entered id, known id → describe' entered id = describe entered id)
    (entered : List Nat) (bound : List Text) : (vs : List Value) → AllKnow known vs →
    literalItems describe' entered bound vs = literalItems describe entered bound vs
  | [], _ => rfl
  | v :: rest, hv => by
    rw [literalItems, literalItems, literalIn_congr h _ _ v hv.1, literalItems_congr h _ _ rest hv.2]
termination_by structural vs => vs

theorem literalEntries_congr (h : ∀ entered id, known id → describe' entered id = describe entered id)
    (entered : List Nat) (bound : List Text) : (es : List (Value × Value)) → EntriesKnow known es →
    literalEntries describe' entered bound es = literalEntries describe entered bound es
  | [], _ => rfl
  | (key, v) :: rest, hv => by
    rw [literalEntries, literalEntries, literalIn_congr h _ _ key hv.1.1, literalIn_congr h _ _ v hv.1.2,
      literalEntries_congr h _ _ rest hv.2]
termination_by structural es => es

end

variable (h : ∀ entered id, known id → describe' entered id = describe entered id)

include h

theorem literal?_congr {v : Value} (hv : v.Knows known) : v.literal? describe' = v.literal? describe :=
  literalIn_congr h [] [] v hv

theorem shown?_congr {v : Value} (hv : v.Knows known) : v.shown? describe' = v.shown? describe := by
  unfold shown?
  split
  · rfl
  · rfl
  · rfl
  · rfl
  · exact literal?_congr h (v := dictionary _) hv
  · exact literal?_congr h (v := own _ (dictionary _)) hv
  · exact literal?_congr h hv

end

end Value

/-! ## Generators -/

namespace Generator

variable {known : Nat → Prop}

/-- The settings know no generators but those. -/
def Knows (known : Nat → Prop) (g : Generator) : Prop := ∀ s, (g.get s).Knows known

/-- Settings know no more generators than depths do. -/
theorem closed_knows (known : Nat → Prop) : Closed (Knows known) (Value.Knows known) :=
  closed_of_simple Value.knows_of_isSimple

theorem shownIn_congr {describe describe' : List Nat → Nat → Option Text}
    (h : ∀ entered id, known id → describe' entered id = describe entered id) {g : Generator}
    (hg : g.Knows known) (entered : List Nat) : g.shownIn describe' entered = g.shownIn describe entered := by
  have hsetting (s : Setting) : (g.get s).literalIn describe' entered [] =
      (g.get s).literalIn describe entered [] := Value.literalIn_congr h entered [] _ (hg s)
  simp only [shownIn, hsetting]

end Generator

end JsonWriter
