import JsonWriter.Proofs.Configuration.Insertion

/-!
# Keys that are read

Identities are given out in order, so each of them is that of one object, in all mappings that are read
one after the other. Main statement: `isIdentified_of_readItems`.
-/

namespace JsonWriter.Value

variable {objects objects' : Nat → Value}

theorem isIdentified_of_isAtom {v : Value} (hv : v.IsAtom) : v.IsIdentified objects := by
  cases v <;> first | exact hv.elim | trivial

mutual

/-- Only the objects matter whose identities have been given out. -/
theorem Numbered.isIdentified_congr {m n : Nat} {v w : Value} (h : ∀ i < n, objects' i = objects i) :
    Numbered m n v w → w.IsIdentified objects → w.IsIdentified objects'
  | .atom hv _, _ => isIdentified_of_isAtom hv
  | .mark hv _, hw => ⟨⟨hw.1.1, hw.1.2.trans (h _ (Nat.lt_succ_self _)).symm⟩, isIdentified_of_isAtom hv⟩
  | .sequence .list _, hw => ⟨⟨rfl, hw.1.2.trans (h _ (Nat.lt_succ_self _)).symm⟩, trivial⟩
  | .sequence .tuple hitems, hw =>
    ⟨⟨rfl, hw.1.2.trans (h _ (Nat.lt_succ_self _)).symm⟩,
      hitems.areIdentified_congr (fun i hi => h i (Nat.lt_succ_of_lt hi)) hw.2⟩
  | .mapping _ _, hw => ⟨⟨rfl, hw.1.2.trans (h _ (Nat.lt_succ_self _)).symm⟩, trivial⟩
  | .derived (w := w) hbase, hw => hbase.isIdentified_congr (w := w) h hw
  | .object _, hw => ⟨⟨rfl, hw.1.2.trans (h _ (Nat.lt_succ_self _)).symm⟩, trivial⟩

theorem NumberedItems.areIdentified_congr {m n : Nat} {vs ws : List Value}
    (h : ∀ i < n, objects' i = objects i) :
    NumberedItems m n vs ws → AreIdentified objects ws → AreIdentified objects' ws
  | .nil, _ => trivial
  | .cons hv hrest, hws =>
    ⟨hv.isIdentified_congr (fun i hi => h i (Nat.lt_of_lt_of_le hi hrest.le)) hws.1,
      hrest.areIdentified_congr h hws.2⟩

theorem NumberedEntries.isIdentified_congr {m n : Nat} {es fs : List (Value × Value)}
    (h : ∀ i < n, objects' i = objects i) :
    NumberedEntries m n es fs → Keyed.IsIdentified objects fs → Keyed.IsIdentified objects' fs
  | .nil, _ => List.forall_mem_nil _
  | .cons hkey hv hrest, hfs => by
    obtain ⟨hhead, htail⟩ := List.forall_mem_cons.mp hfs
    have hle := Nat.le_trans hv.le hrest.le
    exact List.forall_mem_cons.mpr
      ⟨hkey.isIdentified_congr (fun i hi => h i (Nat.lt_of_lt_of_le hi hle)) hhead,
        hrest.isIdentified_congr h htail⟩

end

/-- A new identity can be that of any object. -/
theorem exists_objects_own {m n : Nat} (hmn : m ≤ n) {v : Value} (hv : v.isDistinct)
    {objects₁ : Nat → Value} (h₁ : ∀ i < m, objects₁ i = objects i)
    (h : ∀ objects', (∀ i < n, objects' i = objects₁ i) → v.IsIdentified objects') :
    ∃ objects', (∀ i < m, objects' i = objects i) ∧ (own n v).IsIdentified objects' := by
  refine ⟨Function.update objects₁ n v, fun i hi => ?_, ⟨hv, by simp⟩,
    h _ fun i hi => Function.update_of_ne (Nat.ne_of_lt hi) _ _⟩
  rw [Function.update_of_ne (by omega), h₁ i hi]

mutual

/-- There are objects for all identities, besides those that there are already. -/
theorem Numbered.exists_objects {m n : Nat} {v w : Value} (objects : Nat → Value) :
    Numbered m n v w → ∃ objects', (∀ i < m, objects' i = objects i) ∧ w.IsIdentified objects'
  | .atom hv _ => ⟨objects, fun _ _ => rfl, isIdentified_of_isAtom hv⟩
  | .mark hv hd =>
    exists_objects_own (Nat.le_refl _) hd (fun _ _ => rfl) fun _ _ => isIdentified_of_isAtom hv
  | .sequence .list hitems => exists_objects_own hitems.le rfl (fun _ _ => rfl) fun _ _ => trivial
  | .sequence .tuple hitems => by
    obtain ⟨objects₁, h₁, hws⟩ := hitems.exists_objects objects
    exact exists_objects_own hitems.le rfl h₁ fun _ h => hitems.areIdentified_congr h hws
  | .mapping _ hentries => exists_objects_own hentries.le rfl (fun _ _ => rfl) fun _ _ => trivial
  | .derived hbase => hbase.exists_objects objects
  | .object hshown => exists_objects_own hshown.le rfl (fun _ _ => rfl) fun _ _ => trivial

theorem NumberedItems.exists_objects {m n : Nat} {vs ws : List Value} (objects : Nat → Value) :
    NumberedItems m n vs ws →
      ∃ objects', (∀ i < m, objects' i = objects i) ∧ AreIdentified objects' ws
  | .nil => ⟨objects, fun _ _ => rfl, trivial⟩
  | .cons hv hrest => by
    obtain ⟨objects₁, h₁, hw⟩ := hv.exists_objects objects
    obtain ⟨objects₂, h₂, hws⟩ := hrest.exists_objects objects₁
    exact ⟨objects₂, fun i hi => (h₂ i (Nat.lt_of_lt_of_le hi hv.le)).trans (h₁ i hi),
      hv.isIdentified_congr h₂ hw, hws⟩

theorem NumberedEntries.exists_objects {m n : Nat} {es fs : List (Value × Value)}
    (objects : Nat → Value) : NumberedEntries m n es fs →
      ∃ objects', (∀ i < m, objects' i = objects i) ∧ Keyed.IsIdentified objects' fs
  | .nil => ⟨objects, fun _ _ => rfl, List.forall_mem_nil _⟩
  | .cons hkey hv hrest => by
    obtain ⟨objects₁, h₁, hhead⟩ := hkey.exists_objects objects
    obtain ⟨objects₂, h₂, htail⟩ := hrest.exists_objects objects₁
    refine ⟨objects₂, fun i hi => ?_, List.forall_mem_cons.mpr ⟨?_, htail⟩⟩
    · exact (h₂ i (Nat.lt_of_lt_of_le hi (Nat.le_trans hkey.le hv.le))).trans (h₁ i hi)
    · exact hkey.isIdentified_congr (fun i hi => h₂ i (Nat.lt_of_lt_of_le hi hv.le)) hhead

end

theorem Numbered.numbered_items {m n : Nat} {v w : Value} :
    Numbered m n v w → ∃ es n', n' ≤ n ∧ NumberedEntries m n' es w.items
  | .atom (v := v) hv _ => ⟨[], m, Nat.le_refl _, by cases v <;> first | exact hv.elim | exact .nil⟩
  | .mark (v := v) hv _ => ⟨[], m, Nat.le_succ _, by cases v <;> first | exact hv.elim | exact .nil⟩
  | .sequence _ h => ⟨[], m, Nat.le_succ_of_le h.le, .nil⟩
  | .mapping _ h => ⟨_, _, Nat.le_succ _, h⟩
  | .derived h => h.numbered_items
  | .object h => ⟨[], m, Nat.le_succ_of_le h.le, .nil⟩

/-- Of mappings that are numbered one after the other, all keys have the identities of objects. -/
theorem NumberedItems.exists_objects_items {m n : Nat} {vs ws : List Value}
    (objects : Nat → Value) : NumberedItems m n vs ws →
      ∃ objects', (∀ i < m, objects' i = objects i) ∧ ∀ w ∈ ws, w.items.IsIdentified objects'
  | .nil => ⟨objects, fun _ _ => rfl, List.forall_mem_nil _⟩
  | .cons hv hrest => by
    obtain ⟨es, n', hle, hentries⟩ := hv.numbered_items
    -- The objects of the rest come after those of the first mapping and leave them as they are.
    obtain ⟨objects₁, h₁, hhead⟩ := hentries.exists_objects objects
    obtain ⟨objects₂, h₂, htail⟩ := hrest.exists_objects_items objects₁
    refine ⟨objects₂, fun i hi => ?_, List.forall_mem_cons.mpr ⟨?_, htail⟩⟩
    · exact (h₂ i (Nat.lt_of_lt_of_le hi hv.le)).trans (h₁ i hi)
    · exact hentries.isIdentified_congr (fun i hi => h₂ i (Nat.lt_of_lt_of_le hi hle)) hhead

/-- In mappings that are read one after the other, the keys have the identities of objects. -/
theorem isIdentified_of_readItems {vs : List Value} (hvs : ArePlain vs) (s : Session) :
    ∃ ws n objects, readItems vs s = (.ok ws, { s with identities := n }) ∧
      ∀ w ∈ ws, w.items.IsIdentified objects := by
  obtain ⟨ws, n, hread, hws⟩ := readItems_of_arePlain vs hvs s
  obtain ⟨objects, -, hobjects⟩ := hws.exists_objects_items fun _ => null
  exact ⟨ws, n, objects, hread, hobjects⟩

end JsonWriter.Value
