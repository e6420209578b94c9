import JsonWriter.Proofs.Configuration.Keys
import JsonWriter.Proofs.Configuration.Updates
import JsonWriter.Proofs.Delegation.Reading

/-!
# Putting things under keys

A key keeps its place and takes the last thing that is put under it. Main statement:
`insertAll_insertAll`, things that are put under keys one after the other may as well be put together
first.
-/

namespace JsonWriter

namespace Keyed

variable {α : Type} {objects : Nat → Value}

/-- The identities in the keys are those of the given objects. -/
def IsIdentified (objects : Nat → Value) (es : Keyed α) : Prop :=
  ∀ e ∈ es, e.1.IsIdentified objects

/-- What is put under a key twice is put there once. -/
theorem insert_insert {es : Keyed α} (hes : es.IsIdentified objects) {k k' : Value}
    (hk : k.IsIdentified objects) (hk' : k'.IsIdentified objects) (h : k.sameKey k' = true) (a b : α) :
    (es.insert k a).insert k' b = es.insert k b := by
  induction es with
  | nil => simp [insert, h]
  | cons e rest ih =>
    obtain ⟨hhead, htail⟩ := List.forall_mem_cons.mp hes
    have hsame := Value.sameKey_congr hhead hk hk' h
    simp only [insert]
    split
    · next hek => simp [insert, ← hsame, hek]
    · next hek => simp [insert, ← hsame, hek, ih htail]

/-- Things under different keys keep out of each other's way, once the second key is there. -/
theorem insert_comm {es : Keyed α} (hes : es.IsIdentified objects) {k k' : Value}
    (hk : k.IsIdentified objects) (hk' : k'.IsIdentified objects) (h : k.sameKey k' = false)
    (hthere : ∃ e ∈ es, e.1.sameKey k' = true) (a b : α) :
    (es.insert k a).insert k' b = (es.insert k' b).insert k a := by
  induction es with
  | nil => simp at hthere
  | cons e rest ih =>
    obtain ⟨hhead, htail⟩ := List.forall_mem_cons.mp hes
    cases hek : e.1.sameKey k with
    | true =>
      have hek' : e.1.sameKey k' = false := by
        rw [Bool.eq_false_iff]
        intro hek'
        rw [Value.sameKey_of_sameKey hhead hk hk' hek hek'] at h
        cases h
      simp [insert, hek, hek']
    | false =>
      cases hek' : e.1.sameKey k' with
      | true => simp [insert, hek, hek']
      | false =>
        have hrest : ∃ e ∈ rest, e.1.sameKey k' = true := by simpa [hek'] using hthere
        simp [insert, hek, hek', ih htail hrest]

theorem isIdentified_insert {es : Keyed α} (hes : es.IsIdentified objects) {k : Value}
    (hk : k.IsIdentified objects) (a : α) : (es.insert k a).IsIdentified objects :=
  forall_mem_insert (p := Value.IsIdentified objects) hk hes

theorem isIdentified_insertAll {es news : Keyed α} (hes : es.IsIdentified objects)
    (hnews : news.IsIdentified objects) : (es.insertAll news).IsIdentified objects :=
  forall_mem_insertAll (p := Value.IsIdentified objects) hes hnews

/-- A key that is there stays there. -/
theorem exists_sameKey_insert {es : Keyed α} {k' : Value}
    (h : ∃ e ∈ es, e.1.sameKey k' = true) (k : Value) (a : α) :
    ∃ e ∈ es.insert k a, e.1.sameKey k' = true := by
  induction es with
  | nil => simp at h
  | cons e rest ih =>
    obtain hhead | htail := (List.exists_mem_cons_iff _ _ _).mp h
    · rw [insert]
      split
      · exact ⟨_, List.mem_cons_self, hhead⟩
      · exact ⟨_, List.mem_cons_self, hhead⟩
    · rw [insert]
      split
      · exact (List.exists_mem_cons_iff _ _ _).mpr (.inr htail)
      · exact (List.exists_mem_cons_iff _ _ _).mpr (.inr (ih htail))

/-- A key that is put is there. -/
theorem exists_sameKey_of_insert {es : Keyed α} {k k' : Value} (h : k.sameKey k' = true)
    (hes : es.IsIdentified objects) (hk : k.IsIdentified objects) (hk' : k'.IsIdentified objects)
    (a : α) : ∃ e ∈ es.insert k a, e.1.sameKey k' = true := by
  induction es with
  | nil => exact ⟨(k, a), List.mem_cons_self, h⟩
  | cons e rest ih =>
    obtain ⟨hhead, htail⟩ := List.forall_mem_cons.mp hes
    rw [insert]
    split
    · next hek => exact ⟨_, List.mem_cons_self, by rw [← Value.sameKey_congr hhead hk hk' h, hek]⟩
    · exact (List.exists_mem_cons_iff _ _ _).mpr (.inr (ih htail))

/-- Other things may come after the last one under a key that is there. -/
theorem insertAll_insert {es news : Keyed α} (hes : es.IsIdentified objects)
    (hnews : news.IsIdentified objects) {k : Value} (hk : k.IsIdentified objects)
    (hother : ∀ e ∈ news, e.1.sameKey k = false) (hthere : ∃ e ∈ es, e.1.sameKey k = true) (b : α) :
    (es.insertAll news).insert k b = (es.insert k b).insertAll news := by
  induction news generalizing es with
  | nil => rfl
  | cons e rest ih =>
    obtain ⟨hhead, htail⟩ := List.forall_mem_cons.mp hnews
    obtain ⟨hdiffers, hothers⟩ := List.forall_mem_cons.mp hother
    rw [insertAll_cons, ih (isIdentified_insert hes hhead e.2) htail hothers
      (exists_sameKey_insert hthere _ _), insert_comm hes hhead hk hdiffers hthere, insertAll_cons]

/-- No two keys are the same. -/
def KeysDiffer (es : Keyed α) : Prop := es.Pairwise fun e e' => e.1.sameKey e'.1 = false

theorem keysDiffer_insert {es : Keyed α} (h : es.KeysDiffer) (k : Value) (a : α) :
    (es.insert k a).KeysDiffer := by
  induction es with
  | nil => exact List.pairwise_singleton _ _
  | cons e rest ih =>
    obtain ⟨hhead, htail⟩ := List.pairwise_cons.mp h
    rw [insert]
    split
    · exact List.pairwise_cons.mpr ⟨hhead, htail⟩
    · next hek =>
      refine List.pairwise_cons.mpr ⟨?_, ih htail⟩
      exact forall_mem_insert (p := fun k' => e.1.sameKey k' = false) (Bool.eq_false_iff.mpr hek) hhead

theorem keysDiffer_insertAll {es : Keyed α} (h : es.KeysDiffer) (news : Keyed α) :
    (es.insertAll news).KeysDiffer := by
  induction news generalizing es with
  | nil => exact h
  | cons e rest ih => exact ih (keysDiffer_insert h e.1 e.2)

/-- Things under keys that differ are put after each other. -/
theorem insertAll_of_keysDiffer {es news : Keyed α} (h : (es ++ news).KeysDiffer) :
    es.insertAll news = es ++ news := by
  induction news generalizing es with
  | nil => exact (List.append_nil es).symm
  | cons e rest ih =>
    have hnew : ∀ e' ∈ es, e'.1.sameKey e.1 = false := fun e' he' =>
      (List.pairwise_append.mp h).2.2 e' he' e List.mem_cons_self
    rw [insertAll_cons, insert_of_not_mem hnew, ih (by rwa [List.append_assoc]), List.append_assoc]
    rfl

theorem insertAll_insert_of_keysDiffer {es news : Keyed α} (hes : es.IsIdentified objects)
    (hnews : news.IsIdentified objects) (hdiffer : news.KeysDiffer) {k : Value}
    (hk : k.IsIdentified objects) (b : α) :
    es.insertAll (news.insert k b) = (es.insertAll news).insert k b := by
  induction news generalizing es with
  | nil => rfl
  | cons e rest ih =>
    obtain ⟨hhead, htail⟩ := List.forall_mem_cons.mp hnews
    obtain ⟨hfirst, hrest⟩ := List.pairwise_cons.mp hdiffer
    rw [insert]
    split
    -- The first key is the same as the new one, so none of the others is.
    · next hek =>
      have hother : ∀ e' ∈ rest, e'.1.sameKey k = false := by
        intro e' he'
        have hee' := Value.sameKey_congr (htail e' he') hhead hk hek
        rw [← hee', Value.sameKey_comm (htail e' he') hhead]
        exact hfirst e' he'
      rw [insertAll_cons, insertAll_cons, insertAll_insert (isIdentified_insert hes hhead e.2) htail
        hk hother (exists_sameKey_of_insert hek hes hhead hk e.2), insert_insert hes hhead hk hek]
    · rw [insertAll_cons, insertAll_cons, ih (isIdentified_insert hes hhead e.2) htail hrest]

/-- To put things under keys one after the other is to put them together first. -/
theorem insertAll_insertAll {es news : Keyed α} (hes : es.IsIdentified objects)
    (hnews : news.IsIdentified objects) :
    es.insertAll (insertAll [] news) = es.insertAll news := by
  -- From the end, since the last thing that is put either replaces another one or comes after all.
  induction news using List.reverseRecOn with
  | nil => rfl
  | append_singleton news e ih =>
    obtain ⟨hinit, hlast⟩ := List.forall_mem_append.mp hnews
    have hnil : IsIdentified objects ([] : Keyed α) := List.forall_mem_nil _
    rw [insertAll_append, insertAll_append, insertAll_cons, insertAll_cons, insertAll_nil,
      insertAll_nil, insertAll_insert_of_keysDiffer hes (isIdentified_insertAll hnil hinit)
        (keysDiffer_insertAll List.Pairwise.nil news) (hlast e List.mem_cons_self), ih hinit]

end Keyed

end JsonWriter
