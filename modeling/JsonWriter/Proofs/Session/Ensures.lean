import JsonWriter.Session.Action

/-!
# What holds after an action

A property of sessions that an action keeps, whatever its outcome, together with what is true of the
value that it returns. The rules follow the way actions are put together.
-/

namespace JsonWriter.Action

variable {α β : Type} {holds : Session → Prop} {post : α → Prop}

/-- The action keeps a property of sessions, also where it ends in a fault, and what it returns is as
stated. -/
def Ensures (holds : Session → Prop) (post : α → Prop) (x : Action α) : Prop :=
  ∀ s, holds s → holds (x s).2 ∧ ∀ a, (x s).1 = .ok a → post a

theorem ensures_pure {a : α} (h : post a) : Ensures holds post (pure a) := by
  intro s hs
  refine ⟨hs, fun b hb => ?_⟩
  obtain rfl := Except.ok.inj hb
  exact h

theorem ensures_fail (f : Fault) : Ensures holds post (fail f) := fun _ hs => ⟨hs, nofun⟩

/-- After a fault nothing happens. -/
theorem ensures_fail_bind (f : Fault) (k : β → Action α) : Ensures holds post (fail f >>= k) :=
  fun _ hs => ⟨hs, nofun⟩

theorem ensures_ofExcept {r : Except Fault α} (h : ∀ a, r = .ok a → post a) :
    Ensures holds post (ofExcept r) := fun _ hs => ⟨hs, h⟩

theorem ensures_any (r : Except Fault α) : Ensures holds (fun _ => True) (ofExcept r) :=
  ensures_ofExcept fun _ _ => trivial

/-- What the first action returns is all that the second one has to know. -/
theorem Ensures.bind {mid : α → Prop} {post : β → Prop} {x : Action α} {k : α → Action β}
    (hx : Ensures holds mid x) (hk : ∀ a, mid a → Ensures holds post (k a)) :
    Ensures holds post (x >>= k) := by
  intro s hs
  obtain ⟨hs', hmid⟩ := hx s hs
  rw [bind_apply]
  generalize x s = run at hs' hmid
  obtain ⟨_ | a, s'⟩ := run
  · exact ⟨hs', nofun⟩
  · exact hk a (hmid a rfl) s' hs'

theorem Ensures.mono {post' : α → Prop} {x : Action α} (hx : Ensures holds post x)
    (h : ∀ a, post a → post' a) : Ensures holds post' x :=
  fun s hs => ⟨(hx s hs).1, fun a ha => h a ((hx s hs).2 a ha)⟩

theorem Ensures.map {post : β → Prop} {x : Action α} {g : α → β}
    (hx : Ensures holds (fun a => post (g a)) x) : Ensures holds post (g <$> x) := by
  rw [← bind_pure_comp]
  exact hx.bind fun a h => ensures_pure h

theorem Ensures.forM {ι : Type} {is : List ι} {k : ι → Action PUnit}
    (hk : ∀ i ∈ is, Ensures holds (fun _ => True) (k i)) :
    Ensures holds (fun _ => True) (is.forM k) := by
  induction is with
  | nil => exact ensures_pure trivial
  | cons i rest ih =>
    obtain ⟨hi, hrest⟩ := List.forall_mem_cons.mp hk
    exact hi.bind fun _ _ => ih hrest

theorem Ensures.mapM {ι : Type} {is : List ι} {k : ι → Action β}
    (hk : ∀ i, Ensures holds (fun _ => True) (k i)) :
    Ensures holds (fun _ => True) (is.mapM k) := by
  induction is with
  | nil =>
    rw [List.mapM_nil]
    exact ensures_pure trivial
  | cons i rest ih =>
    rw [List.mapM_cons]
    exact (hk i).bind fun _ _ => ih.bind fun _ _ => ensures_pure trivial

theorem Ensures.logged_of {x : Action α} (hx : Ensures holds post x)
    (hlog : ∀ s r, holds s → holds { s with log := s.log.push r }) : Ensures holds post (logged x) := by
  intro s hs
  obtain ⟨hs', hpost⟩ := hx s hs
  unfold Action.logged
  generalize x s = run at hs' hpost
  obtain ⟨_ | a, s'⟩ := run
  · refine ⟨?_, nofun⟩
    simp only
    split
    · exact hlog s' _ hs'
    · exact hs'
  · exact ⟨hs', hpost⟩

theorem Ensures.countedAs_of {x : Action α} (hx : Ensures holds post x) {name : Text} {size : Value}
    (hrecord : ∀ s, holds s → holds (s.record name size).2) :
    Ensures holds post (countedAs name size x) := by
  intro s hs
  obtain ⟨hs', hpost⟩ := hx s hs
  have hrecorded := hrecord _ hs'
  unfold Action.countedAs
  generalize x s = run at hpost hrecorded
  obtain ⟨r, s'⟩ := run
  simp only at hrecorded ⊢
  generalize s'.record name size = recorded at hrecorded
  obtain ⟨_ | _, s''⟩ := recorded
  · exact ⟨hrecorded, nofun⟩
  · exact ⟨hrecorded, hpost⟩

/-- An action that keeps the property and of whose value nothing has to be known. -/
theorem ensures_of_snd {x : Action α} (h : ∀ s, holds s → holds (x s).2) :
    Ensures holds (fun _ => True) x := fun s hs => ⟨h s hs, fun _ _ => trivial⟩

end JsonWriter.Action
