import JsonWriter.Proofs.Layout.Settled
import JsonWriter.Value.Conversion
import JsonWriter.Value.Operator

/-!
# What is taken from a value

What is true of a value exactly if it is true of all that is in it is true of whatever the writer or a
conversion takes from the value. Main statements: `Deep.node`, `Deep.members`, `Deep.toEntries` and
`Deep.times`.
-/

namespace JsonWriter.Value

/-- It is true of a value exactly if it is true of what is in it, and it is true of texts, numbers and
bytes. An identity may count as well. -/
structure Deep (P : Value → Prop) : Prop where
  sequence : ∀ {kind items}, P (.sequence kind items) ↔ ∀ v ∈ items, P v
  selfList : ∀ {items}, P (.selfList items) ↔ ∀ v ∈ items, P v
  mapping : ∀ {kind entries}, P (.mapping kind entries) ↔ ∀ e ∈ entries, P e.1 ∧ P e.2
  selfDictionary : ∀ {entries}, P (.selfDictionary entries) ↔ ∀ e ∈ entries, P e.1 ∧ P e.2
  derived : ∀ {base}, P (.derived base) ↔ P base
  own : ∀ {i v}, P (.own i v) → P v
  renew : ∀ {i v w}, P (.own i v) → P w → P (.own i w)
  str : ∀ t, P (.str t)
  number : ∀ x : Number, P x.value
  binary : ∀ kind data, P (.binary kind data)

/-- It is true of what a value is to the writer. -/
def Node.All (P : Value → Prop) : Node → Prop
  | .array items => ∀ v ∈ items, P v
  | .object entries => ∀ e ∈ entries, P e.1 ∧ P e.2
  | .extension e => P (.extension e)
  | _ => True

theorem mem_of_mem_copies {α : Type} {a : α} {items : List α} {n : Nat} (h : a ∈ copies items n) :
    a ∈ items := by
  unfold copies at h
  split at h
  · cases h
  · obtain ⟨l, hl, ha⟩ := List.mem_flatten.mp h
    exact List.eq_of_mem_replicate hl ▸ ha

namespace Deep

variable {P : Value → Prop}

/-! ## One level deep -/

mutual

theorem instantiate (hP : Deep P) {whole : Value} (hwhole : P whole) (k : Nat) :
    (v : Value) → P v → P (Value.instantiate whole k v)
  | .sequence _ items, h => hP.sequence.mpr (instantiateItems hP hwhole k items (hP.sequence.mp h))
  | .selfList items, h => hP.selfList.mpr (instantiateItems hP hwhole (k + 1) items (hP.selfList.mp h))
  | .mapping _ entries, h => hP.mapping.mpr (instantiateEntries hP hwhole k entries (hP.mapping.mp h))
  | .selfDictionary entries, h =>
    hP.selfDictionary.mpr (instantiateEntries hP hwhole (k + 1) entries (hP.selfDictionary.mp h))
  | .derived base, h => hP.derived.mpr (instantiate hP hwhole k base (hP.derived.mp h))
  | .own _ v, h => hP.renew h (instantiate hP hwhole k v (hP.own h))
  | .outer i, h => by
    rw [Value.instantiate]
    split
    · exact hwhole
    · exact h
  | .null, h | .bool _, h | .int _, h | .float _, h | .str _, h | .setting _, h | .binary _ _, h
  | .memory _, h | .object _, h | .type _, h | .extension _, h | .generator _, h | .described _, h => h
termination_by structural v => v

theorem instantiateItems (hP : Deep P) {whole : Value} (hwhole : P whole) (k : Nat) :
    (vs : List Value) → (∀ v ∈ vs, P v) → ∀ v ∈ Value.instantiateItems whole k vs, P v
  | [], h => h
  | v :: rest, h => by
    obtain ⟨hv, hrest⟩ := List.forall_mem_cons.mp h
    exact List.forall_mem_cons.mpr ⟨instantiate hP hwhole k v hv, instantiateItems hP hwhole k rest hrest⟩
termination_by structural vs => vs

theorem instantiateEntries (hP : Deep P) {whole : Value} (hwhole : P whole) (k : Nat) :
    (es : List (Value × Value)) → (∀ e ∈ es, P e.1 ∧ P e.2) →
      ∀ e ∈ Value.instantiateEntries whole k es, P e.1 ∧ P e.2
  | [], h => h
  | (_, v) :: rest, h => by
    obtain ⟨hentry, hrest⟩ := List.forall_mem_cons.mp h
    exact List.forall_mem_cons.mpr
      ⟨⟨hentry.1, instantiate hP hwhole k v hentry.2⟩, instantiateEntries hP hwhole k rest hrest⟩
termination_by structural es => es

end

section

variable (hP : Deep P)

include hP

theorem content : (v : Value) → P v → P v.content
  | .derived base, h => content base (hP.derived.mp h)
  | .own _ v, h => content v (hP.own h)
  | .null, h | .bool _, h | .int _, h | .float _, h | .str _, h | .setting _, h | .binary _ _, h
  | .memory _, h | .sequence _ _, h | .mapping _ _, h | .selfList _, h | .selfDictionary _, h
  | .outer _, h | .object _, h | .type _, h | .extension _, h | .generator _, h | .described _, h => h

theorem rawEntries (kind : BinaryKind) (data : List UInt8) :
    ∀ e ∈ Value.rawEntries kind data, P e.1 ∧ P e.2 := by
  have hbytes : P (.list (data.map fun b => .int b.toNat)) :=
    hP.sequence.mpr (List.forall_mem_map.mpr fun b _ => hP.number (.whole b.toNat))
  refine List.forall_mem_cons.mpr ⟨⟨hP.str _, hP.str _⟩, ?_⟩
  exact List.forall_mem_cons.mpr ⟨⟨hP.str _, hbytes⟩, List.forall_mem_nil _⟩

theorem node : (v : Value) → P v → v.node.All P
  | .derived base, h => node base (hP.derived.mp h)
  | .own _ v, h => node v (hP.own h)
  | .sequence _ _, h => hP.sequence.mp h
  | .mapping _ _, h => hP.mapping.mp h
  | .extension _, h => h
  | .selfList items, h => hP.instantiateItems h 0 items (hP.selfList.mp h)
  | .selfDictionary entries, h => hP.instantiateEntries h 0 entries (hP.selfDictionary.mp h)
  | .binary kind data, _ => hP.rawEntries kind data
  | .null, _ | .bool _, _ | .int _, _ | .float _, _ | .str _, _ | .setting _, _ | .memory _, _
  | .outer _, _ | .object _, _ | .type _, _ | .generator _, _ | .described _, _ => trivial

theorem container? {v : Value} (h : P v) {shape : Render.Shape} {entries : List Render.Entry}
    (hv : Render.container? v = some (shape, entries)) : ∀ e ∈ entries, P e.value := by
  have hnode := hP.node v h
  unfold Render.container? at hv
  split at hv
  · next items heq =>
    obtain ⟨-, rfl⟩ := Prod.mk.inj (Option.some.inj hv)
    rw [heq] at hnode
    exact List.forall_mem_map.mpr hnode
  · next entries heq =>
    obtain ⟨-, rfl⟩ := Prod.mk.inj (Option.some.inj hv)
    rw [heq] at hnode
    exact List.forall_mem_map.mpr fun e he => (hnode e he).2
  · cases hv

/-! ## Conversions -/

theorem entries? {v : Value} (h : P v) {es : Entries} (hes : v.entries? = some es) :
    ∀ e ∈ es, P e.1 ∧ P e.2 := by
  have hcontent := hP.content v h
  unfold Value.entries? at hes
  split at hes
  · next heq =>
    obtain rfl := Option.some.inj hes
    rw [heq] at hcontent
    exact hP.mapping.mp hcontent
  · next heq =>
    obtain rfl := Option.some.inj hes
    rw [heq] at hcontent
    exact hP.instantiateEntries hcontent 0 _ (hP.selfDictionary.mp hcontent)
  · cases hes

theorem members {v : Value} (h : P v) {f : Fault} {ms : List Value} (hms : v.members f = .ok ms) :
    ∀ w ∈ ms, P w := by
  have hnode := hP.node v h
  unfold Value.members at hms
  split at hms
  · obtain rfl := Except.ok.inj hms
    exact List.forall_mem_map.mpr fun b _ => hP.number (.whole b.toNat)
  · obtain rfl := Except.ok.inj hms
    exact List.forall_mem_map.mpr fun c _ => hP.str [c]
  · next heq =>
    obtain rfl := Except.ok.inj hms
    rw [heq] at hnode
    exact hnode
  · next heq =>
    obtain rfl := Except.ok.inj hms
    rw [heq] at hnode
    exact List.forall_mem_map.mpr fun e he => (hnode e he).1
  · split at hms <;> cases hms

omit hP in
theorem insert {key v : Value} (hkey : P key) (hv : P v) {es : Entries}
    (h : ∀ e ∈ es, P e.1 ∧ P e.2) : ∀ e ∈ es.insert key v, P e.1 ∧ P e.2 := by
  induction es with
  | nil => exact List.forall_mem_singleton.mpr ⟨hkey, hv⟩
  | cons e rest ih =>
    obtain ⟨he, hrest⟩ := List.forall_mem_cons.mp h
    rw [Keyed.insert]
    split
    · exact List.forall_mem_cons.mpr ⟨⟨he.1, hv⟩, hrest⟩
    · exact List.forall_mem_cons.mpr ⟨he, ih hrest⟩

omit hP in
theorem dictionary? {es news all : Entries} (hes : ∀ e ∈ es, P e.1 ∧ P e.2)
    (hnews : ∀ e ∈ news, P e.1 ∧ P e.2) (h : Keyed.dictionary? es news = .ok all) :
    ∀ e ∈ all, P e.1 ∧ P e.2 := by
  induction news generalizing es with
  | nil =>
    obtain rfl := Except.ok.inj h
    exact hes
  | cons e rest ih =>
    obtain ⟨he, hrest⟩ := List.forall_mem_cons.mp hnews
    rw [Keyed.dictionary?] at h
    split at h
    · cases h
    · exact ih (insert he.1 he.2 hes) hrest h

theorem toPair {index : Nat} {v : Value} (h : P v) {e : Value × Value} (he : v.toPair index = .ok e) :
    P e.1 ∧ P e.2 := by
  rw [Value.toPair, bind_eq_ok] at he
  obtain ⟨ms, hms, he⟩ := he
  have hmembers := hP.members h hms
  split at he
  · obtain rfl := Except.ok.inj he
    exact ⟨hmembers _ List.mem_cons_self, hmembers _ (List.mem_cons_of_mem _ List.mem_cons_self)⟩
  · cases he

theorem insertPairs {index : Nat} {es all : Entries} {vs : List Value}
    (hes : ∀ e ∈ es, P e.1 ∧ P e.2) (hvs : ∀ v ∈ vs, P v)
    (h : Value.insertPairs index es vs = .ok all) : ∀ e ∈ all, P e.1 ∧ P e.2 := by
  induction vs generalizing index es with
  | nil =>
    obtain rfl := Except.ok.inj h
    exact hes
  | cons v rest ih =>
    obtain ⟨hv, hrest⟩ := List.forall_mem_cons.mp hvs
    rw [Value.insertPairs, bind_eq_ok] at h
    obtain ⟨⟨key, w⟩, hpair, h⟩ := h
    obtain ⟨hkey, hw⟩ := hP.toPair hv hpair
    simp only at h
    split at h
    · cases h
    · exact ih (insert hkey hw hes) hrest h

omit hP in
theorem toLookedUp {kind : MappingKind} {es all : Entries} (h : ∀ e ∈ es, P e.1 ∧ P e.2)
    (hall : Value.toLookedUp kind es = .ok all) : ∀ e ∈ all, P e.1 ∧ P e.2 := by
  have hfound (p : Value × Value → Bool) : ∀ e ∈ es.takeWhile p, P e.1 ∧ P e.2 :=
    fun e he => h e (List.takeWhile_subset p he)
  simp only [Value.toLookedUp] at hall
  split at hall
  · cases hall
  · next hd _ =>
    obtain rfl := Except.ok.inj hall
    exact dictionary? (List.forall_mem_nil _) (hfound _) hd
  · cases hall

theorem toEntries {v : Value} (h : P v) {es : Entries} (hes : v.toEntries = .ok es) :
    ∀ e ∈ es, P e.1 ∧ P e.2 := by
  have hcontent := hP.content v h
  unfold Value.toEntries at hes
  split at hes
  · next heq =>
    rw [heq] at hcontent
    exact toLookedUp (hP.mapping.mp hcontent) hes
  · split at hes
    · next heq =>
      obtain rfl := Except.ok.inj hes
      exact hP.entries? h heq
    · obtain ⟨items, hitems, hes⟩ := bind_eq_ok.mp hes
      exact hP.insertPairs (List.forall_mem_nil _) (hP.members h hitems) hes

theorem repeater? {v w : Value} (h : P v) {copiesOf : Nat → Except Fault Value}
    (hv : v.repeater? = some copiesOf) {n : Nat} (hw : copiesOf n = .ok w) : P w := by
  have hnode := hP.node v h
  have hcontent := hP.content v h
  unfold Value.repeater? at hv
  split at hv
  · obtain rfl := Option.some.inj hv
    obtain ⟨_, _, rfl⟩ := map_eq_ok.mp hw
    exact hP.str _
  · obtain rfl := Option.some.inj hv
    obtain ⟨_, _, rfl⟩ := map_eq_ok.mp hw
    exact hP.binary _ _
  · obtain rfl := Option.some.inj hv
    obtain rfl := Except.ok.inj hw
    exact hP.binary _ _
  · next heq =>
    obtain rfl := Option.some.inj hv
    obtain rfl := Except.ok.inj hw
    rw [heq] at hcontent
    exact hP.sequence.mpr fun u hu => hP.sequence.mp hcontent u (mem_of_mem_copies hu)
  · next hitems =>
    obtain rfl := Option.some.inj hv
    obtain rfl := Except.ok.inj hw
    rw [hitems] at hnode
    exact hP.sequence.mpr fun u hu => hnode u (mem_of_mem_copies hu)
  · cases hv

theorem times {v w : Value} (h : P v) {n : Number} (hw : v.times n = .ok w) : P w := by
  unfold Value.times at hw
  split at hw
  · split at hw
    · obtain rfl := Except.ok.inj hw
      exact hP.number _
    · cases hw
  · next hrepeater _ =>
    obtain ⟨k, -, hw⟩ := bind_eq_ok.mp hw
    exact hP.repeater? h hrepeater hw
  · cases hw
  · cases hw

end

end Deep

end JsonWriter.Value
