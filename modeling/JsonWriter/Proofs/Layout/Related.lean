import JsonWriter.Proofs.Layout.Settled

/-!
# Layouts that are related part by part

A relation between outcomes that holds on through whatever is done next is one between layouts, as soon
as it is one between their tokens and keys. Main statements: `IsSequential.block` and
`IsSequential.pair`.
-/

namespace JsonWriter.Render

open Generator (Format)

/-- The relation between outcomes holds of what is done next if it holds of what was done first. -/
structure IsSequential (R : (α : Type) → Except Fault α → Except Fault α → Prop) : Prop where
  refl : ∀ {α : Type} (r : Except Fault α), R α r r
  bind : ∀ {α β : Type} {r r' : Except Fault α} {k k' : α → Except Fault β}, R α r r' →
    (∀ a, R β (k a) (k' a)) → R β (r >>= k) (r' >>= k')

namespace IsSequential

variable {R : (α : Type) → Except Fault α → Except Fault α → Prop}
  {tokens tokens' : Value → Value → Except Fault Text} {keys keys' : Value → Except Fault Text}
  {f : Format}

section

variable (hR : IsSequential R)

include hR

theorem map {α β : Type} {r r' : Except Fault α} (h : R α r r') (g : α → β) :
    R β (do return g (← r)) (do return g (← r')) :=
  hR.bind h fun _ => hR.refl _

theorem fill {rs rs' : List (Except Fault (List Part))}
    (h : List.Forall₂ (R (List Part)) rs rs') (limit : Value) (newline : Text) (depth : Number)
    (first : Bool) :
    R (List Part) (fill (.knowing tokens keys) f newline depth first rs)
      (fill (.knowing tokens' keys') { f with maxNesting := limit } newline depth first rs') := by
  induction h generalizing first with
  | nil => exact hR.refl _
  | cons hr _ ih => exact hR.bind (hR.refl _) fun _ => hR.bind hr fun _ => hR.map (ih false) _

/-- Containers of related entries are related, under any limit that is as good as the one there is. -/
theorem block {limit depth : Value}
    (hnesting : R Unit (Generator.checkNesting f.maxNesting depth) (Generator.checkNesting limit depth))
    {entries entries' : Number → List (Except Fault (List Part))}
    (h : ∀ inner, List.Forall₂ (R (List Part)) (entries inner) (entries' inner)) (shape : Shape) :
    R (List Part) (block (.knowing tokens keys) f shape depth entries)
      (block (.knowing tokens' keys') { f with maxNesting := limit } shape depth entries') := by
  refine hR.bind hnesting fun _ => hR.bind ?_ fun newline => hR.bind (hR.refl _) fun inner => ?_
  · cases shape <;> exact hR.refl _
  · exact hR.bind (hR.fill (h inner) limit newline inner true) fun _ => hR.refl _

theorem token {v v' depth : Value} (h : R Text (tokens v depth) (tokens' v' depth)) :
    R (List Part) (token (.knowing tokens keys) depth v) (token (.knowing tokens' keys') depth v') :=
  hR.map h _

theorem pair {key key' : Value} (hkey : R Text (keys key) (keys' key')) {limit : Value}
    {r r' : Except Fault (List Part)} (h : R (List Part) r r') :
    R (List Part) (pair (.knowing tokens keys) f key r)
      (pair (.knowing tokens' keys') { f with maxNesting := limit } key' r') :=
  hR.bind hkey fun _ => hR.bind (hR.refl _) fun _ => hR.map h _

end

end IsSequential

/-- Whatever the first comes to without a fault, the second comes to as well. -/
def Extends {α : Type} (r r' : Except Fault α) : Prop := ∀ a, r = .ok a → r' = .ok a

theorem isSequential_extends : IsSequential fun _ => Extends where
  refl _ _ h := h
  bind h hk b hb := by
    obtain ⟨a, ha, hb⟩ := bind_eq_ok.mp hb
    exact bind_eq_ok.mpr ⟨a, h a ha, hk a b hb⟩

end JsonWriter.Render
