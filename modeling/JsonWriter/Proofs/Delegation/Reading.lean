import JsonWriter.Session.Read
import Mathlib.Data.List.Forall2

/-!
# Reading a value that is written out

A value that is written out in full is read as itself, with an identity for each part that needs one.
The identities are new and go up from the innermost parts, so none occurs inside itself, and the value
shows itself as before. Main statement: `read_of_isPlain`.
-/

namespace JsonWriter

/-- The keys can be hashed, and no two of them are the same. -/
def Keyed.IsDistinct {α : Type} (es : Keyed α) : Prop :=
  (∀ e ∈ es, e.1.unhashable? = none) ∧ es.Pairwise fun e e' => e.1.sameKey e'.1 = false

namespace Value

/-- The value has no values in it. -/
def IsAtom : Value → Prop
  | null | bool _ | int _ | float _ | str _ | setting _ | binary _ _ | memory _ | type _
  | extension _ => True
  | _ => False

mutual

/-- The value is written out: it holds no generator and nothing with an identity, and dictionaries
have distinct keys. -/
def IsPlain : Value → Prop
  | sequence _ items => ArePlain items
  | mapping .pairs entries => EntriesArePlain entries
  | mapping _ entries => EntriesArePlain entries ∧ Keyed.IsDistinct entries
  | derived base => base.IsPlain
  | object shown => shown.IsPlain
  | selfList _ | selfDictionary _ | outer _ | own _ _ | generator _ | described _ => False
  | _ => True
termination_by structural v => v

def ArePlain : List Value → Prop
  | [] => True
  | v :: rest => v.IsPlain ∧ ArePlain rest
termination_by structural vs => vs

def EntriesArePlain : List (Value × Value) → Prop
  | [] => True
  | (key, v) :: rest => key.IsPlain ∧ v.IsPlain ∧ EntriesArePlain rest
termination_by structural es => es

end

theorem float_or_extension {v : Value} (hv : v.IsAtom) (hd : v.isDistinct) :
    (∃ x, v = float x) ∨ ∃ e, v = extension e := by
  cases v with
  | float x => exact .inl ⟨x, rfl⟩
  | extension e => exact .inr ⟨e, rfl⟩
  | sequence | mapping | selfList | selfDictionary | object => exact hv.elim
  | _ => cases hd

/-! ## Values with identities -/

mutual

/-- The second value is the first one with an identity for each part that needs one, from `m` on and
below `n`, an outer one greater than those inside. -/
inductive Numbered : Nat → Nat → Value → Value → Prop
  | atom {n : Nat} {v : Value} (hv : v.IsAtom) (h : v.isDistinct = false) : Numbered n n v v
  | mark {n : Nat} {v : Value} (hv : v.IsAtom) (h : v.isDistinct) : Numbered n (n + 1) v (own n v)
  | sequence {m n : Nat} (kind : SequenceKind) {vs ws : List Value} (h : NumberedItems m n vs ws) :
    Numbered m (n + 1) (sequence kind vs) (own n (sequence kind ws))
  | mapping {m n : Nat} (kind : MappingKind) {es fs : List (Value × Value)}
    (h : NumberedEntries m n es fs) : Numbered m (n + 1) (mapping kind es) (own n (mapping kind fs))
  | derived {m n : Nat} {v w : Value} (h : Numbered m n v w) : Numbered m n (derived v) (derived w)
  | object {m n : Nat} {v w : Value} (h : Numbered m n v w) :
    Numbered m (n + 1) (object v) (own n (object w))

inductive NumberedItems : Nat → Nat → List Value → List Value → Prop
  | nil {n : Nat} : NumberedItems n n [] []
  | cons {l m n : Nat} {v w : Value} {vs ws : List Value} (h : Numbered l m v w)
    (hrest : NumberedItems m n vs ws) : NumberedItems l n (v :: vs) (w :: ws)

inductive NumberedEntries : Nat → Nat → List (Value × Value) → List (Value × Value) → Prop
  | nil {n : Nat} : NumberedEntries n n [] []
  | cons {k l m n : Nat} {key key' v w : Value} {es fs : List (Value × Value)}
    (hkey : Numbered k l key key') (h : Numbered l m v w) (hrest : NumberedEntries m n es fs) :
    NumberedEntries k n ((key, v) :: es) ((key', w) :: fs)

end

mutual

theorem Numbered.le {m n : Nat} {v w : Value} : Numbered m n v w → m ≤ n
  | .atom _ _ => Nat.le_refl _
  | .mark _ _ => Nat.le_succ _
  | .sequence _ h => Nat.le_succ_of_le h.le
  | .mapping _ h => Nat.le_succ_of_le h.le
  | .derived h => h.le
  | .object h => Nat.le_succ_of_le h.le

theorem NumberedItems.le {m n : Nat} {vs ws : List Value} : NumberedItems m n vs ws → m ≤ n
  | .nil => Nat.le_refl _
  | .cons h hrest => Nat.le_trans h.le hrest.le

theorem NumberedEntries.le {m n : Nat} {es fs : List (Value × Value)} :
    NumberedEntries m n es fs → m ≤ n
  | .nil => Nat.le_refl _
  | .cons hkey h hrest => Nat.le_trans hkey.le (Nat.le_trans h.le hrest.le)

end

/-! ## The forms for messages and for output -/

theorem literalIn_of_isAtom {v : Value} (hv : v.IsAtom)
    (describe describe' : List Nat → Nat → Option Text) (entered entered' : List Nat)
    (bound : List Text) :
    literalIn describe entered bound v = literalIn describe' entered' bound v := by
  cases v with
  | binary kind _ => cases kind <;> rfl
  | sequence | mapping | selfList | selfDictionary | outer | derived | own | object | generator
  | described => exact hv.elim
  | _ => rfl

section

variable (describe describe' : List Nat → Nat → Option Text) (entered' : List Nat)
  (bound : List Text)

mutual

theorem Numbered.literalIn_eq {m n : Nat} {v w : Value} : Numbered m n v w →
    ∀ entered : List Nat, (∀ i ∈ entered, n ≤ i) →
      literalIn describe entered bound w = literalIn describe' entered' bound v
  | .atom hv _, _, _ => literalIn_of_isAtom hv _ _ _ _ _
  | .mark (n := n) hv _, entered, he => by
    have hn : n ∉ entered := fun h => Nat.lt_irrefl n (he n h)
    rw [literalIn, if_neg hn]
    exact literalIn_of_isAtom hv _ _ _ _ _
  | .sequence (n := n) kind h, entered, he => by
    have hn : n ∉ entered := fun h => Nat.lt_irrefl n (he n h)
    have hitems := h.literalItems_eq (n :: entered)
      (List.forall_mem_cons.mpr ⟨Nat.le_refl n, fun i hi => Nat.le_of_succ_le (he i hi)⟩)
    rw [literalIn, if_neg hn]
    cases kind <;> rw [literalIn, literalIn, hitems]
  | .mapping (n := n) kind h, entered, he => by
    have hn : n ∉ entered := fun h => Nat.lt_irrefl n (he n h)
    have hentries := h.literalEntries_eq (n :: entered)
      (List.forall_mem_cons.mpr ⟨Nat.le_refl n, fun i hi => Nat.le_of_succ_le (he i hi)⟩)
    rw [literalIn, if_neg hn]
    cases kind with
    | dictionary | view => rw [literalIn, literalIn, hentries]
    | pairs => rfl
  | .derived _, _, _ => rfl
  | .object (n := n) _, entered, he => by
    have hn : n ∉ entered := fun h => Nat.lt_irrefl n (he n h)
    rw [literalIn, if_neg hn]
    rfl

theorem NumberedItems.literalItems_eq {m n : Nat} {vs ws : List Value} : NumberedItems m n vs ws →
    ∀ entered : List Nat, (∀ i ∈ entered, n ≤ i) →
      literalItems describe entered bound ws = literalItems describe' entered' bound vs
  | .nil, _, _ => rfl
  | .cons h hrest, entered, he => by
    have hhead := h.literalIn_eq entered fun i hi => Nat.le_trans hrest.le (he i hi)
    rw [literalItems, literalItems, hhead, hrest.literalItems_eq entered he]

theorem NumberedEntries.literalEntries_eq {m n : Nat} {es fs : List (Value × Value)} :
    NumberedEntries m n es fs → ∀ entered : List Nat, (∀ i ∈ entered, n ≤ i) →
      literalEntries describe entered bound fs = literalEntries describe' entered' bound es
  | .nil, _, _ => rfl
  | .cons hkey h hrest, entered, he => by
    have hvalue := h.literalIn_eq entered fun i hi => Nat.le_trans hrest.le (he i hi)
    have hname := hkey.literalIn_eq entered fun i hi =>
      Nat.le_trans (Nat.le_trans h.le hrest.le) (he i hi)
    rw [literalEntries, literalEntries, hname, hvalue, hrest.literalEntries_eq entered he]

end

end

theorem Numbered.text?_eq {m n : Nat} {v w : Value} : Numbered m n v w → w.text? = v.text?
  | .atom _ _ => rfl
  | .mark _ _ => rfl
  | .sequence _ _ => rfl
  | .mapping _ _ => rfl
  | .derived h => h.text?_eq
  | .object _ => rfl

theorem Numbered.kind_eq {m n : Nat} {v w : Value} : Numbered m n v w → w.kind = v.kind
  | .atom _ _ => rfl
  | .mark _ _ => rfl
  | .sequence kind _ => by cases kind <;> rfl
  | .mapping kind _ => by cases kind <;> rfl
  | .derived _ => rfl
  | .object _ => rfl

theorem shown?_of_isAtom {v : Value} (hv : v.IsAtom)
    (describe describe' : List Nat → Nat → Option Text) : v.shown? describe = v.shown? describe' := by
  cases v with
  | sequence | mapping | selfList | selfDictionary | outer | derived | own | object | generator
  | described => exact hv.elim
  | binary kind _ => cases kind <;> rfl
  | _ => rfl

/-- A value with identities is shown in any session as the value without them in any other. -/
theorem Numbered.shown?_eq {m n : Nat} {v w : Value} (h : Numbered m n v w)
    (describe describe' : List Nat → Nat → Option Text) : w.shown? describe = v.shown? describe' := by
  have hliteral {m n : Nat} {v w : Value} (h : Numbered m n v w) :
      literal? describe w = literal? describe' v :=
    h.literalIn_eq describe describe' [] [] [] (List.forall_mem_nil _)
  cases h with
  | atom hv _ => exact shown?_of_isAtom hv _ _
  | mark hv hd =>
    have hmark := hliteral (.mark (n := m) hv hd)
    obtain ⟨x, rfl⟩ | ⟨e, rfl⟩ := float_or_extension hv hd
    · exact hmark
    · exact hmark
  | sequence kind h => exact hliteral (.sequence kind h)
  | mapping kind h =>
    cases kind with
    | dictionary => exact hliteral (.mapping .dictionary h)
    | view => exact hliteral (.mapping .dictionary h)
    | pairs => exact hliteral (.mapping .pairs h)
  | derived h => exact hliteral (.derived h)
  | object h => exact h.text?_eq

/-! ## Keys -/

/-- A value of a derived type cannot be hashed if the native one is of a type that changes. -/
def isMutable (v : Value) : Bool :=
  match v.content with
  | sequence .list _ | mapping _ _ | binary .byteArray _ => true
  | _ => false

theorem unhashable?_derived (v : Value) :
    (derived v).unhashable? = if v.isMutable then some (text "Sub") else v.unhashable? := by
  rw [unhashable?, isMutable]
  split <;> simp_all

theorem Numbered.isMutable_eq {m n : Nat} {v w : Value} :
    Numbered m n v w → w.isMutable = v.isMutable
  | .atom _ _ => rfl
  | .mark _ _ => rfl
  | .sequence kind _ => by cases kind <;> rfl
  | .mapping _ _ => rfl
  | .derived h => h.isMutable_eq
  | .object _ => rfl

mutual

theorem Numbered.unhashable?_eq {m n : Nat} {v w : Value} :
    Numbered m n v w → w.unhashable? = v.unhashable?
  | .atom _ _ => rfl
  | .mark _ _ => rfl
  | .sequence .list _ => rfl
  | .sequence .tuple h => h.unhashableItem?_eq
  | .mapping _ _ => rfl
  | .derived h => by
    rw [unhashable?_derived, unhashable?_derived, h.isMutable_eq, h.unhashable?_eq]
  | .object _ => rfl

theorem NumberedItems.unhashableItem?_eq {m n : Nat} {vs ws : List Value} :
    NumberedItems m n vs ws → unhashableItem? ws = unhashableItem? vs
  | .nil => rfl
  | .cons h hrest => by
    rw [unhashableItem?, unhashableItem?, h.unhashable?_eq, hrest.unhashableItem?_eq]

end

theorem Numbered.le_of_identity? {m n i : Nat} {v w : Value} : Numbered m n v w →
    w.identity? = some i → m ≤ i ∧ i < n
  | .atom (v := v) hv _, h => by cases v <;> first | exact hv.elim | cases h
  | .mark _ _, h => by
    obtain rfl := Option.some.inj h
    exact ⟨Nat.le_refl _, Nat.lt_succ_self _⟩
  | .sequence _ hitems, h => by
    obtain rfl := Option.some.inj h
    exact ⟨hitems.le, Nat.lt_succ_self _⟩
  | .mapping _ hentries, h => by
    obtain rfl := Option.some.inj h
    exact ⟨hentries.le, Nat.lt_succ_self _⟩
  | .derived hbase, h => hbase.le_of_identity? h
  | .object hshown, h => by
    obtain rfl := Option.some.inj h
    exact ⟨hshown.le, Nat.lt_succ_self _⟩

/-- What a value with identities holds, one level deep. -/
theorem Numbered.content_cases {m n : Nat} {v w : Value} : Numbered m n v w →
    (∃ kind vs ws n', v.content = .sequence kind vs ∧ w.content = .sequence kind ws ∧
      NumberedItems m n' vs ws) ∨
    (∃ kind es fs n', v.content = .mapping kind es ∧ w.content = .mapping kind fs ∧
      NumberedEntries m n' es fs) ∨
    (∃ x y n', v.content = .object x ∧ w.content = .object y ∧ Numbered m n' x y) ∨
    (v.content = w.content ∧ v.content.IsAtom)
  | .atom (v := v) hv _ => by
    refine .inr (.inr (.inr ⟨rfl, ?_⟩))
    cases v <;> first | exact hv.elim | trivial
  | .mark (v := v) hv _ => by
    refine .inr (.inr (.inr ⟨rfl, ?_⟩))
    cases v <;> first | exact hv.elim | trivial
  | .sequence _ h => .inl ⟨_, _, _, _, rfl, rfl, h⟩
  | .mapping _ h => .inr (.inl ⟨_, _, _, _, rfl, rfl, h⟩)
  | .derived h => h.content_cases
  | .object h => .inr (.inr (.inl ⟨_, _, _, rfl, rfl, h⟩))

theorem Numbered.content_of_sequence {m n : Nat} {v w : Value} (h : Numbered m n v w)
    {kind : SequenceKind} {vs : List Value} (hv : v.content = .sequence kind vs) :
    ∃ ws n', w.content = .sequence kind ws ∧ NumberedItems m n' vs ws := by
  obtain ⟨_, _, ws, n', hv', hw, hitems⟩ | ⟨_, _, _, _, hv', _⟩ | ⟨_, _, _, hv', _⟩ | ⟨_, hatom⟩ :=
    h.content_cases
  · obtain ⟨rfl, rfl⟩ := sequence.inj (hv.symm.trans hv')
    exact ⟨ws, n', hw, hitems⟩
  · cases hv.symm.trans hv'
  · cases hv.symm.trans hv'
  · exact (hv ▸ hatom).elim

theorem Numbered.content_of_mapping {m n : Nat} {v w : Value} (h : Numbered m n v w)
    {kind : MappingKind} {es : List (Value × Value)} (hv : v.content = .mapping kind es) :
    ∃ fs n', w.content = .mapping kind fs ∧ NumberedEntries m n' es fs := by
  obtain ⟨_, _, _, _, hv', _⟩ | ⟨_, _, fs, n', hv', hw, hentries⟩ | ⟨_, _, _, hv', _⟩ | ⟨_, hatom⟩ :=
    h.content_cases
  · cases hv.symm.trans hv'
  · obtain ⟨rfl, rfl⟩ := mapping.inj (hv.symm.trans hv')
    exact ⟨fs, n', hw, hentries⟩
  · cases hv.symm.trans hv'
  · exact (hv ▸ hatom).elim

theorem Numbered.content_of_isAtom {m n : Nat} {v w : Value} (h : Numbered m n v w)
    (hv : v.content.IsAtom) : w.content = v.content := by
  obtain ⟨_, _, _, _, hv', _⟩ | ⟨_, _, _, _, hv', _⟩ | ⟨_, _, _, hv', _⟩ | ⟨heq, _⟩ :=
    h.content_cases
  · exact (hv' ▸ hv).elim
  · exact (hv' ▸ hv).elim
  · exact (hv' ▸ hv).elim
  · exact heq.symm

/-- A value that is neither a number, a text nor bytes is no other scalar either. -/
theorem sameScalar_of_not_isAtom (u : Value) : (w : Value) → ¬ w.content.IsAtom →
    sameScalar u w = false ∧ sameScalar w u = false
  | derived base, h => sameScalar_of_not_isAtom u base h
  | own _ v, h => sameScalar_of_not_isAtom u v h
  | sequence _ _, _ | mapping _ _, _ | selfList _, _ | selfDictionary _, _ | outer _, _
  | object _, _ | generator _, _ | described _, _ => by
    unfold sameScalar
    generalize u.content = a
    cases a <;> simp [content, sameNumber, int?, text?, data?]
  | null, h | bool _, h | int _, h | float _, h | str _, h | setting _, h | binary _ _, h
  | memory _, h | type _, h | extension _, h => absurd trivial h

theorem Numbered.content_eq {m n : Nat} {v w : Value} (h : Numbered m n v w) :
    v.content = w.content ∨ ¬ v.content.IsAtom ∧ ¬ w.content.IsAtom := by
  obtain ⟨_, _, _, _, hv, hw, _⟩ | ⟨_, _, _, _, hv, hw, _⟩ | ⟨_, _, _, hv, hw, _⟩ | ⟨heq, _⟩ :=
    h.content_cases
  · exact .inr (by rw [hv, hw]; exact ⟨id, id⟩)
  · exact .inr (by rw [hv, hw]; exact ⟨id, id⟩)
  · exact .inr (by rw [hv, hw]; exact ⟨id, id⟩)
  · exact .inl heq

theorem Numbered.sameScalar_eq {m m' n n' : Nat} {v v' w w' : Value} (hv : Numbered m n v v')
    (hw : Numbered m' n' w w') : sameScalar v' w' = sameScalar v w := by
  obtain hv | ⟨hv, hv'⟩ := hv.content_eq
  · obtain hw | ⟨hw, hw'⟩ := hw.content_eq
    · simp only [sameScalar, hv, hw]
    · rw [(sameScalar_of_not_isAtom v w hw).1, (sameScalar_of_not_isAtom v' w' hw').1]
  · rw [(sameScalar_of_not_isAtom w v hv).2, (sameScalar_of_not_isAtom w' v' hv').2]

theorem sameKey_of_isAtom {v : Value} (hv : v.IsAtom) (w : Value) :
    v.sameKey w = sameScalar v w := by
  cases v <;> first | exact hv.elim | rfl

theorem Numbered.sameKey_own {m n i : Nat} {w w' : Value} (hw : Numbered m n w w') (hi : i < m)
    (v : Value) : (own i v).sameKey w' = v.sameKey w' := by
  have hidentity : (w'.identity? == some i) = false := by
    refine beq_false_of_ne fun h => ?_
    have := hw.le_of_identity? h
    omega
  rw [sameKey, hidentity, Bool.false_or]

mutual

/-- Values with different identities are the same key if they are without them. -/
theorem Numbered.sameKey_eq {l m m' n : Nat} {v v' w w' : Value} (hw : Numbered m' n w w')
    (hm : m ≤ m') : Numbered l m v v' → v'.sameKey w' = v.sameKey w
  | .atom hv hd => by
    rw [sameKey_of_isAtom hv, sameKey_of_isAtom hv]
    exact Numbered.sameScalar_eq (.atom (n := l) hv hd) hw
  | .mark hv hd => by
    rw [hw.sameKey_own hm, sameKey_of_isAtom hv, sameKey_of_isAtom hv]
    exact (Numbered.sameScalar_eq (.mark (n := l) hv hd) hw :)
  | .sequence .list h => by
    rw [hw.sameKey_own hm]
    exact (Numbered.sameScalar_eq (.sequence .list h) hw :)
  | .sequence .tuple h => by
    rw [hw.sameKey_own hm]
    obtain ⟨kind, _, _, _, hc, hc', hitems⟩ | ⟨_, _, _, _, hc, hc', _⟩ | ⟨_, _, _, hc, hc', _⟩ |
      ⟨heq, hatom⟩ := hw.content_cases
    · rw [sameKey, sameKey, hc, hc']
      cases kind with
      | list => rfl
      | tuple => exact hitems.sameKeys_eq (Nat.le_of_succ_le hm) h
    · rw [sameKey, sameKey, hc, hc']
    · rw [sameKey, sameKey, hc, hc']
    · rw [sameKey, sameKey, ← heq]
      cases hc : w.content with
      | sequence =>
        rw [hc] at hatom
        exact hatom.elim
      | _ => rfl
  | .mapping kind h => by
    rw [hw.sameKey_own hm]
    exact (Numbered.sameScalar_eq (.mapping kind h) hw :)
  | .derived h => by
    rw [sameKey, sameKey]
    exact hw.sameKey_eq hm h
  | .object h => by
    rw [hw.sameKey_own hm]
    exact (Numbered.sameScalar_eq (.object h) hw :)

theorem NumberedItems.sameKeys_eq {l m m' n : Nat} {vs vs' ws ws' : List Value}
    (hws : NumberedItems m' n ws ws') (hm : m ≤ m') :
    NumberedItems l m vs vs' → sameKeys vs' ws' = sameKeys vs ws
  | .nil => by cases hws <;> rfl
  | .cons h hrest => by
    cases hws with
    | nil => rfl
    | cons hw hws =>
      rw [sameKeys, sameKeys, hw.sameKey_eq (Nat.le_trans hrest.le hm) h,
        hws.sameKeys_eq (Nat.le_trans hm hw.le) hrest]

end

theorem NumberedEntries.not_sameKey {k l m n : Nat} {key key' : Value} (hkey : Numbered k l key key')
    (hl : l ≤ m) {es fs : List (Value × Value)} : NumberedEntries m n es fs →
    (∀ e ∈ es, key.sameKey e.1 = false) → ∀ f ∈ fs, key'.sameKey f.1 = false
  | .nil, _, _, hf => nomatch hf
  | .cons hname h hrest, hes, f, hf => by
    obtain ⟨hhead, htail⟩ := List.forall_mem_cons.mp hes
    obtain rfl | hf := List.mem_cons.mp hf
    · exact (hname.sameKey_eq hl hkey).trans hhead
    · exact NumberedEntries.not_sameKey hkey (Nat.le_trans hl (Nat.le_trans hname.le h.le)) hrest htail
        f hf

theorem NumberedEntries.isDistinct {m n : Nat} {es fs : List (Value × Value)} :
    NumberedEntries m n es fs → Keyed.IsDistinct es → Keyed.IsDistinct fs
  | .nil, h => h
  | .cons hkey hvalue hrest, ⟨hhash, hpair⟩ => by
    obtain ⟨hhead, htail⟩ := List.forall_mem_cons.mp hhash
    obtain ⟨hfirst, hothers⟩ := List.pairwise_cons.mp hpair
    obtain ⟨hhash', hpair'⟩ := hrest.isDistinct ⟨htail, hothers⟩
    exact ⟨List.forall_mem_cons.mpr ⟨hkey.unhashable?_eq.trans hhead, hhash'⟩,
      List.pairwise_cons.mpr ⟨NumberedEntries.not_sameKey hkey hvalue.le hrest hfirst, hpair'⟩⟩

end Value

namespace Keyed

variable {α : Type}

theorem insert_of_not_mem {key : Value} {a : α} {es : Keyed α}
    (h : ∀ e ∈ es, e.1.sameKey key = false) : es.insert key a = es ++ [(key, a)] := by
  induction es with
  | nil => rfl
  | cons e rest ih =>
    obtain ⟨hhead, htail⟩ := List.forall_mem_cons.mp h
    rw [insert, hhead, ih htail]
    rfl

/-- Things under distinct keys stay as they are. -/
theorem dictionary?_of_isDistinct {es news : Keyed α} (h : IsDistinct (es ++ news)) :
    dictionary? es news = .ok (es ++ news) := by
  induction news generalizing es with
  | nil => rw [dictionary?, List.append_nil]
  | cons e rest ih =>
    have hnew : ∀ e' ∈ es, e'.1.sameKey e.1 = false := fun e' he' =>
      (List.pairwise_append.mp h.2).2.2 e' he' e List.mem_cons_self
    rw [dictionary?, h.1 e (by simp), insert_of_not_mem hnew]
    rw [List.append_cons] at h
    exact (ih h).trans (by rw [List.append_cons es e rest])

end Keyed

/-! ## Reading -/

theorem Action.identify_of_isDistinct {v : Value} (h : v.isDistinct) (s : Session) :
    identify v s = (.ok (.own s.identities v), { s with identities := s.identities + 1 }) := by
  rw [identify, if_pos h]
  rfl

theorem Action.identify_of_not_isDistinct {v : Value} (h : v.isDistinct = false) (s : Session) :
    identify v s = (.ok v, s) := by
  rw [identify, h]
  rfl

namespace Value

theorem read_of_isAtom {v : Value} (h : v.IsAtom) : v.read = Action.identify v := by
  cases v <;> first | exact h.elim | rfl

theorem read_atom {v : Value} (hv : v.IsAtom) (s : Session) : ∃ w n,
    v.read s = (.ok w, { s with identities := n }) ∧ Numbered s.identities n v w := by
  rw [read_of_isAtom hv]
  cases h : v.isDistinct with
  | false => exact ⟨v, _, Action.identify_of_not_isDistinct h s, .atom hv h⟩
  | true => exact ⟨_, _, Action.identify_of_isDistinct h s, .mark hv h⟩

mutual

/-- What is written out is read as itself with new identities, and nothing else changes. -/
theorem read_of_isPlain : (v : Value) → v.IsPlain → (s : Session) → ∃ w n,
    v.read s = (.ok w, { s with identities := n }) ∧ Numbered s.identities n v w
  | sequence kind items, h, s => by
    obtain ⟨ws, n, hread, hws⟩ := readItems_of_arePlain items h s
    refine ⟨_, _, ?_, .sequence kind hws⟩
    rw [read, Action.bind_apply, hread, Action.resume_ok, Action.identify_of_isDistinct rfl]
  | mapping .pairs entries, h, s => by
    obtain ⟨fs, n, hread, hfs⟩ := readEntries_of_arePlain entries h s
    refine ⟨_, _, ?_, .mapping _ hfs⟩
    rw [read, Action.bind_apply, hread, Action.resume_ok, Action.identify_of_isDistinct rfl]
  | mapping .dictionary entries, ⟨h, hdistinct⟩, s | mapping .view entries, ⟨h, hdistinct⟩, s => by
    obtain ⟨fs, n, hread, hfs⟩ := readEntries_of_arePlain entries h s
    have hkeys : Keyed.dictionary? [] fs = .ok fs :=
      Keyed.dictionary?_of_isDistinct (hfs.isDistinct hdistinct)
    refine ⟨_, _, ?_, .mapping _ hfs⟩
    rw [read, Action.bind_apply, hread, Action.resume_ok, hkeys]
    · exact Action.identify_of_isDistinct rfl _
    · nofun
  | derived base, h, s => by
    obtain ⟨w, n, hread, hw⟩ := read_of_isPlain base h s
    refine ⟨_, _, ?_, .derived hw⟩
    rw [read, Action.bind_apply, hread]
    rfl
  | object shown, h, s => by
    obtain ⟨w, n, hread, hw⟩ := read_of_isPlain shown h s
    refine ⟨_, _, ?_, .object hw⟩
    rw [read, Action.bind_apply, hread, Action.resume_ok, Action.identify_of_isDistinct rfl]
  | null, _, s | bool _, _, s | int _, _, s | float _, _, s | str _, _, s | setting _, _, s
  | binary _ _, _, s | memory _, _, s | type _, _, s | extension _, _, s =>
    read_atom (by exact trivial) s

theorem readItems_of_arePlain : (vs : List Value) → ArePlain vs → (s : Session) → ∃ ws n,
    readItems vs s = (.ok ws, { s with identities := n }) ∧ NumberedItems s.identities n vs ws
  | [], _, s => ⟨[], s.identities, rfl, .nil⟩
  | v :: rest, ⟨hv, hrest⟩, s => by
    obtain ⟨w, m, hread, hw⟩ := read_of_isPlain v hv s
    obtain ⟨ws, n, hreads, hws⟩ := readItems_of_arePlain rest hrest { s with identities := m }
    refine ⟨w :: ws, n, ?_, .cons hw hws⟩
    rw [readItems, Action.bind_apply, hread, Action.resume_ok, Action.bind_apply, hreads]
    rfl

theorem readEntries_of_arePlain : (es : List (Value × Value)) → EntriesArePlain es →
    (s : Session) → ∃ fs n, readEntries es s = (.ok fs, { s with identities := n }) ∧
      NumberedEntries s.identities n es fs
  | [], _, s => ⟨[], s.identities, rfl, .nil⟩
  | (key, v) :: rest, ⟨hkey, hv, hrest⟩, s => by
    obtain ⟨key', l, hreadKey, hkey'⟩ := read_of_isPlain key hkey s
    obtain ⟨w, m, hread, hw⟩ := read_of_isPlain v hv { s with identities := l }
    obtain ⟨fs, n, hreads, hfs⟩ := readEntries_of_arePlain rest hrest { s with identities := m }
    refine ⟨(key', w) :: fs, n, ?_, .cons hkey' hw hfs⟩
    rw [readEntries, Action.bind_apply, hreadKey, Action.resume_ok, Action.bind_apply, hread,
      Action.resume_ok, Action.bind_apply, hreads]
    rfl

end

end Value

end JsonWriter
