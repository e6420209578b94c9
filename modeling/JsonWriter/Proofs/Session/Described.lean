import Mathlib.Data.Finset.Card
import Mathlib.Data.Finset.Range
import Mathlib.Order.Monotone.Basic
import JsonWriter.Proofs.Session.Issued

/-!
# Texts of generators

A generator shows its settings, which may show generators in turn. On the way down a container is entered
once, and between two containers no generator comes twice, or the text does not end. So there are only so
many levels. Main statement: `describeAt_eq_describe`, more levels than are allowed make no difference.
-/

namespace JsonWriter

/-! ## Containers that are left to enter -/

/-- How many identities below `n` are not entered. -/
def leftToEnter (n : Nat) (entered : List Nat) : Nat :=
  ((Finset.range n).filter fun i => i ∉ entered).card

theorem leftToEnter_le (n : Nat) (entered : List Nat) : leftToEnter n entered ≤ n :=
  (Finset.card_filter_le _ _).trans_eq (Finset.card_range n)

theorem leftToEnter_cons {n i : Nat} {entered : List Nat} (hi : i < n) (hentered : i ∉ entered) :
    leftToEnter n (i :: entered) < leftToEnter n entered := by
  refine Finset.card_lt_card ⟨fun j hj => ?_, fun hsub => ?_⟩
  · obtain ⟨hj, hout⟩ := Finset.mem_filter.mp hj
    exact Finset.mem_filter.mpr ⟨hj, fun h => hout (List.mem_cons_of_mem i h)⟩
  · have hmem := hsub (Finset.mem_filter.mpr ⟨Finset.mem_range.mpr hi, hentered⟩)
    exact (Finset.mem_filter.mp hmem).2 List.mem_cons_self

namespace Value

variable {describe describe' : List Nat → Nat → Option Text} {n : Nat}

mutual

/-- What a value shows, it shows as well where more generators show themselves inside the containers
entered and those that are entered in it. -/
theorem literalIn_mono (entered : List Nat)
    (h : ∀ inside, inside = entered ∨ leftToEnter n inside < leftToEnter n entered →
      ∀ id, ∀ t ∈ describe inside id, t ∈ describe' inside id) (bound : List Text) :
    (v : Value) → v.IsIssued n →
      ∀ t ∈ literalIn describe entered bound v, t ∈ literalIn describe' entered bound v
  | sequence .list items, hv | sequence .tuple items, hv | selfList items, hv => by
    intro t ht
    rw [literalIn] at ht ⊢
    obtain ⟨parts, hparts, rfl⟩ := Option.mem_map.mp ht
    exact Option.mem_map_of_mem _ (literalItems_mono entered h _ items hv parts hparts)
  | mapping .dictionary entries, hv | mapping .view entries, hv | selfDictionary entries, hv => by
    intro t ht
    rw [literalIn] at ht ⊢
    obtain ⟨parts, hparts, rfl⟩ := Option.mem_map.mp ht
    exact Option.mem_map_of_mem _ (literalEntries_mono entered h _ entries hv parts hparts)
  | own i v, hv => by
    intro t ht
    rw [literalIn] at ht ⊢
    split
    · next hi => rwa [if_pos hi] at ht
    · next hi =>
      rw [if_neg hi] at ht
      -- The container is entered now, so there is one less to enter.
      have hless := leftToEnter_cons hv.1 hi
      refine literalIn_mono (i :: entered) (fun inside hinside => h inside (.inr ?_)) bound v hv.2 t ht
      obtain rfl | hlt := hinside
      · exact hless
      · exact hlt.trans hless
  | generator id, _ => h entered (.inl rfl) id
  | mapping .pairs _, _ | binary .bytes _, _ | binary .byteArray _, _ | null, _ | bool _, _ | int _, _
  | float _, _ | str _, _ | setting _, _ | memory _, _ | outer _, _ | derived _, _ | object _, _
  | type _, _ | extension _, _ | described _, _ => fun _ ht => ht
termination_by structural v => v

theorem literalItems_mono (entered : List Nat)
    (h : ∀ inside, inside = entered ∨ leftToEnter n inside < leftToEnter n entered →
      ∀ id, ∀ t ∈ describe inside id, t ∈ describe' inside id) (bound : List Text) :
    (vs : List Value) → AreIssued n vs →
      ∀ ts ∈ literalItems describe entered bound vs, ts ∈ literalItems describe' entered bound vs
  | [], _ => fun _ hts => hts
  | v :: rest, hv => by
    intro ts hts
    rw [literalItems] at hts ⊢
    split at hts
    · cases hts
    · next t ht =>
      obtain ⟨parts, hparts, rfl⟩ := Option.mem_map.mp hts
      rw [literalIn_mono entered h bound v hv.1 t ht]
      exact Option.mem_map_of_mem _ (literalItems_mono entered h bound rest hv.2 parts hparts)
termination_by structural vs => vs

theorem literalEntries_mono (entered : List Nat)
    (h : ∀ inside, inside = entered ∨ leftToEnter n inside < leftToEnter n entered →
      ∀ id, ∀ t ∈ describe inside id, t ∈ describe' inside id) (bound : List Text) :
    (es : List (Value × Value)) → EntriesAreIssued n es →
      ∀ ts ∈ literalEntries describe entered bound es, ts ∈ literalEntries describe' entered bound es
  | [], _ => fun _ hts => hts
  | (key, v) :: rest, hv => by
    intro ts hts
    rw [literalEntries] at hts ⊢
    split at hts
    · next kt vt hkt hvt =>
      obtain ⟨parts, hparts, rfl⟩ := Option.mem_map.mp hts
      rw [literalIn_mono entered h bound key hv.1.1 kt hkt, literalIn_mono entered h bound v hv.1.2 vt hvt]
      exact Option.mem_map_of_mem _ (literalEntries_mono entered h bound rest hv.2 parts hparts)
    · cases hts
termination_by structural es => es

end

end Value

/-! ## Settings -/

/-- The form for messages does not depend on any generator. -/
def Value.ShowsNoGenerator (v : Value) : Prop :=
  ∀ describe describe' entered, v.literalIn describe entered [] = v.literalIn describe' entered []

/-- The value shows no generator, or else the containers in it have identities below `n`. -/
def Value.IsBounded (n : Nat) (v : Value) : Prop := v.ShowsNoGenerator ∨ v.IsIssued n

/-- No setting shows a generator but inside containers with identities below `n`. -/
def Generator.IsBounded (n : Nat) (g : Generator) : Prop := ∀ s, (g.get s).IsBounded n

theorem Value.IsBounded.mono {n n' : Nat} (h : n ≤ n') {v : Value} (hv : v.IsBounded n) :
    v.IsBounded n' := hv.imp_right (Value.IsIssued.mono h v)

theorem Generator.IsBounded.mono {n n' : Nat} (h : n ≤ n') {g : Generator} (hg : g.IsBounded n) :
    g.IsBounded n' := fun s => (hg s).mono h

section

variable {describe describe' : List Nat → Nat → Option Text} {n : Nat} {entered : List Nat}

theorem Value.IsBounded.literalIn_mono {v : Value} (hv : v.IsBounded n)
    (h : ∀ inside, inside = entered ∨ leftToEnter n inside < leftToEnter n entered →
      ∀ id, ∀ t ∈ describe inside id, t ∈ describe' inside id) :
    ∀ t ∈ v.literalIn describe entered [], t ∈ v.literalIn describe' entered [] := by
  obtain hplain | hissued := hv
  · rw [hplain describe describe' entered]
    exact fun _ ht => ht
  · exact Value.literalIn_mono entered h [] v hissued

theorem Generator.IsBounded.shownIn_mono {g : Generator} (hg : g.IsBounded n)
    (h : ∀ inside, inside = entered ∨ leftToEnter n inside < leftToEnter n entered →
      ∀ id, ∀ t ∈ describe inside id, t ∈ describe' inside id) :
    ∀ t ∈ g.shownIn describe entered, t ∈ g.shownIn describe' entered := by
  have hparts (ss : List Setting) : ∀ ts ∈ ss.mapM fun s =>
      ((g.get s).literalIn describe entered []).map fun t => s.name ++ text "=" ++ t,
      ts ∈ ss.mapM fun s =>
        ((g.get s).literalIn describe' entered []).map fun t => s.name ++ text "=" ++ t := by
    induction ss with
    | nil => exact fun _ hts => hts
    | cons s rest ih =>
      intro ts hts
      rw [List.mapM_cons] at hts ⊢
      simp only [Option.mem_def, Option.bind_eq_bind, Option.bind_eq_some_iff, Option.pure_def,
        Option.map_eq_some_iff, Option.some.injEq] at hts ⊢
      obtain ⟨_, ⟨t, ht, rfl⟩, parts, hparts, rfl⟩ := hts
      exact ⟨_, ⟨t, (hg s).literalIn_mono h t ht, rfl⟩, parts, ih parts hparts, rfl⟩
  intro t ht
  obtain ⟨parts, hmem, rfl⟩ := Option.mem_map.mp ht
  exact Option.mem_map_of_mem _ (hparts Setting.all parts hmem)

end

/-! ## Levels -/

namespace Session

variable {s : Session} {n : Nat} (hs : ∀ id g, s.generator? id = some g → g.IsBounded n)

theorem describeAt_of_size_le (level : Nat) (entered : List Nat) {id : Nat}
    (hid : s.generators.size ≤ id) : s.describeAt level entered id = none := by
  cases level with
  | zero => rfl
  | succ level => rw [describeAt, generator?, Array.getElem?_eq_none hid, Option.bind_none]

include hs

/-- With one level more a generator shows what it shows, if those that it shows do. -/
theorem describeAt_step {level level' : Nat} {entered : List Nat}
    (h : ∀ inside, inside = entered ∨ leftToEnter n inside < leftToEnter n entered →
      ∀ id, ∀ t ∈ s.describeAt level inside id, t ∈ s.describeAt level' inside id) (id : Nat) :
    ∀ t ∈ s.describeAt (level + 1) entered id, t ∈ s.describeAt (level' + 1) entered id := by
  intro t ht
  rw [describeAt] at ht ⊢
  obtain ⟨g, hg, ht⟩ := Option.bind_eq_some_iff.mp ht
  exact Option.bind_eq_some_iff.mpr ⟨g, hg, (hs id g hg).shownIn_mono h t ht⟩

theorem describeAt_mono {level level' : Nat} (h : level ≤ level') (entered : List Nat) (id : Nat) :
    ∀ t ∈ s.describeAt level entered id, t ∈ s.describeAt level' entered id := by
  induction level generalizing level' entered id with
  | zero => exact fun _ ht => by cases ht
  | succ level ih =>
    obtain ⟨level', rfl⟩ : ∃ k, level' = k + 1 := ⟨level' - 1, by omega⟩
    exact describeAt_step hs (fun inside _ id => ih (by omega) inside id) id

omit hs in
/-- The generators that show themselves with so many levels. -/
def showing (s : Session) (entered : List Nat) (level : Nat) : Finset Nat :=
  (Finset.range s.generators.size).filter fun id => (s.describeAt level entered id).isSome

omit hs in
theorem mem_showing {entered : List Nat} {level id : Nat} :
    id ∈ s.showing entered level ↔ ∃ t, t ∈ s.describeAt level entered id := by
  rw [showing, Finset.mem_filter, Finset.mem_range, Option.isSome_iff_exists]
  refine ⟨And.right, fun h => ⟨Nat.lt_of_not_le fun hid => ?_, h⟩⟩
  obtain ⟨t, ht⟩ := h
  rw [describeAt_of_size_le level entered hid] at ht
  cases ht

theorem showing_mono (entered : List Nat) {level level' : Nat} (h : level ≤ level') :
    s.showing entered level ⊆ s.showing entered level' := by
  intro id hid
  obtain ⟨t, ht⟩ := mem_showing.mp hid
  exact mem_showing.mpr ⟨t, describeAt_mono hs h entered id t ht⟩

/-- If no more generators show themselves with more levels, then they show the same. -/
theorem describeAt_of_card (entered : List Nat) {level level' : Nat} (h : level ≤ level')
    (hcard : (s.showing entered level').card ≤ (s.showing entered level).card) (id : Nat) :
    s.describeAt level' entered id = s.describeAt level entered id := by
  have heq := Finset.eq_of_subset_of_card_le (showing_mono hs entered h) hcard
  refine Option.ext fun t => ⟨fun ht => ?_, describeAt_mono hs h entered id t⟩
  obtain ⟨u, hu⟩ := mem_showing.mp (heq ▸ mem_showing.mpr ⟨t, ht⟩)
  have hu' := describeAt_mono hs h entered id u hu
  obtain rfl : u = t := Option.some.inj (hu'.symm.trans ht)
  exact hu

/-- As many levels as there are generators are enough while no identity is entered, and so many again for
each one that is left to enter. -/
theorem describeAt_eq (m : Nat) {entered : List Nat} (hleft : leftToEnter n entered < m) {level : Nat}
    (hlevel : m * s.generators.size ≤ level) (id : Nat) :
    s.describeAt level entered id = s.describeAt (m * s.generators.size) entered id := by
  induction m generalizing entered level id with
  | zero => exact absurd hleft (Nat.not_lt_zero _)
  | succ m ih =>
    let base := m * s.generators.size
    have hmul : (m + 1) * s.generators.size = base + s.generators.size := Nat.succ_mul _ _
    obtain ⟨k, rfl⟩ : ∃ k, level = base + k := ⟨level - base, by omega⟩
    rw [hmul] at hlevel ⊢
    -- From the base on, no more is shown inside other containers. So if no generator more shows itself
    -- with one level more, none does ever, and there are only so many.
    have hbound (k : Nat) : (s.showing entered (base + k)).card ≤ s.generators.size :=
      (Finset.card_filter_le _ _).trans_eq (Finset.card_range _)
    have hmono : Monotone fun k => (s.showing entered (base + k)).card :=
      fun _ _ h => Finset.card_le_card (showing_mono hs entered (Nat.add_le_add_left h base))
    have hstays (k : Nat) (h : (s.showing entered (base + k)).card =
        (s.showing entered (base + (k + 1))).card) :
        (s.showing entered (base + (k + 1))).card = (s.showing entered (base + (k + 2))).card := by
      have hentered := describeAt_of_card hs entered (by omega) h.ge
      refine Nat.le_antisymm (hmono (Nat.le_succ (k + 1))) (Finset.card_le_card fun i hi => ?_)
      obtain ⟨t, ht⟩ := mem_showing.mp hi
      refine mem_showing.mpr ⟨t, describeAt_step hs (fun inside hinside j u hu => ?_) i t ht⟩
      obtain rfl | hless := hinside
      · exact hentered j ▸ hu
      · have hbase (k : Nat) : s.describeAt (base + k) inside j = s.describeAt base inside j :=
          ih (by omega) (Nat.le_add_right base k) j
        exact (hbase k).trans ((hbase (k + 1)).symm.trans hu)
    have hcard := Nat.stabilises_of_monotone hmono hbound hstays (Nat.le_of_add_le_add_left hlevel)
    exact describeAt_of_card hs entered hlevel hcard.le id

/-- More levels than are allowed make no difference. -/
theorem describeAt_eq_describe (hn : n ≤ s.identities) {level : Nat}
    (hlevel : (s.identities + 1) * (s.generators.size + 1) ≤ level) (entered : List Nat) (id : Nat) :
    s.describeAt level entered id = s.describe entered id := by
  have henough : (n + 1) * s.generators.size ≤ (s.identities + 1) * (s.generators.size + 1) :=
    Nat.mul_le_mul (Nat.succ_le_succ hn) (Nat.le_succ _)
  have hleft : leftToEnter n entered < n + 1 := Nat.lt_succ_of_le (leftToEnter_le n entered)
  rw [describe, describeAt_eq hs (n + 1) hleft (henough.trans hlevel),
    describeAt_eq hs (n + 1) hleft henough]

end Session

end JsonWriter
