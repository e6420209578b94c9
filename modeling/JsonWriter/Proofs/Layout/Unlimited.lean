import JsonWriter.Proofs.Failure
import JsonWriter.Proofs.Layout.Related

/-!
# Layout without a limit on nesting

What is laid out within a limit is laid out in the same way without one, and without one nothing is too
deep. Main statements: `layOut_unlimited` and `layOut_unnested`.
-/

namespace JsonWriter

open Generator (Format)

namespace Render

/-! ## What is within a limit -/

section

variable {tokens tokens' : Value → Value → Except Fault Text} {keys keys' : Value → Except Fault Text}
  {f : Format}

/-- A value that is laid out within a limit is laid out in the same way without one, where tokens and
keys are the same. -/
theorem layOut_unlimited {nodes keyed : Value → Prop} (hnodes : Value.Inherited nodes keyed)
    (htoken : ∀ v depth, nodes v → tokens' v depth = tokens v depth)
    (hkey : ∀ key, keyed key → keys' key = keys key) {v : Value} (hfinite : v.IsFinite) (hv : nodes v)
    (depth : Value) :
    Extends (layOut (.knowing tokens keys) f depth v)
      (layOut (.knowing tokens' keys') f.unlimited depth v) := by
  have hnesting (depth : Value) : Extends (Generator.checkNesting f.maxNesting depth)
      (Generator.checkNesting (.int 0) depth) := fun _ _ => rfl
  induction v, hfinite using Value.tree_induction generalizing depth with
  | scalar v h hscalar =>
    rw [layOut_of_scalar _ _ _ hscalar, layOut_of_scalar _ _ _ hscalar]
    exact isSequential_extends.token fun t ht => (htoken v depth hv).trans ht
  | sequence v h kind items hcontent ih =>
    rw [layOut_of_sequence _ _ _ hcontent, layOut_of_sequence _ _ _ hcontent]
    refine isSequential_extends.block (hnesting depth) (fun inner => ?_) .array
    simp only [List.forall₂_map_left_iff, List.forall₂_map_right_iff, List.forall₂_same]
    exact fun w hw => (ih w hw).2 (hnodes.item hv hcontent w hw) inner.value
  | mapping v h kind entries hcontent ih =>
    rw [layOut_of_mapping _ _ _ hcontent, layOut_of_mapping _ _ _ hcontent]
    refine isSequential_extends.block (hnesting depth) (fun inner => ?_) .object
    simp only [List.forall₂_map_left_iff, List.forall₂_map_right_iff, List.forall₂_same]
    intro e he
    obtain ⟨hkeyed, hvalue⟩ := hnodes.entry hv hcontent e he
    exact isSequential_extends.pair (fun label hlabel => (hkey e.1 hkeyed).trans hlabel)
      ((ih e he).2 hvalue inner.value)
  | binary v h kind data hcontent ih =>
    rw [layOut_of_binary _ _ _ hcontent, layOut_of_binary _ _ _ hcontent]
    exact ih.2 (hnodes.raw hv hcontent) depth

end

/-! ## Nothing is too deep -/

end Render

/-- A limit on nesting is exceeded. -/
def Fault.IsNesting : Fault → Prop
  | nesting _ _ => True
  | _ => False

/-- Whatever goes wrong, it is not that a limit on nesting is exceeded. -/
abbrev Unnested {α : Type} (r : Except Fault α) : Prop := Yields (fun _ => True) (fun e => ¬ e.IsNesting) r

namespace Value

theorem textAfter_unnested (v : Value) : Unnested v.textAfter := by
  unfold textAfter
  split
  · trivial
  · exact not_false

theorem textBefore_unnested (v : Value) : Unnested v.textBefore := by
  unfold textBefore
  split
  · trivial
  · exact not_false

theorem succ_unnested (v : Value) : Unnested v.succ := by
  unfold succ
  split
  · trivial
  · exact not_false

theorem checkLength_unnested (fault : OverflowFault) (length times : Nat) :
    Unnested (checkLength fault length times) := by
  unfold checkLength
  split
  · trivial
  · exact not_false

theorem repeater?_unnested {v : Value} {copiesOf : Nat → Except Fault Value}
    (h : v.repeater? = some copiesOf) (k : Nat) : Unnested (copiesOf k) := by
  unfold repeater? at h
  split at h
  · cases h
    exact (checkLength_unnested _ _ k).map fun _ _ => trivial
  · cases h
    exact (checkLength_unnested _ _ k).map fun _ _ => trivial
  · cases h
    trivial
  · cases h
    trivial
  · cases h
    trivial
  · cases h

theorem times_unnested (v : Value) (n : Number) : Unnested (v.times n) := by
  unfold times
  split
  · split
    · trivial
    · exact not_false
  · next copiesOf k _ hcopies _ =>
    have hrepetitions : Unnested (repetitions k) := by
      unfold repetitions
      split
      · exact not_false
      · trivial
    exact hrepetitions.bind fun k _ => repeater?_unnested hcopies k
  · exact not_false
  · exact not_false

end Value

namespace Render

theorem Part.join_unnested (parts : List Part) : Unnested (join parts) := by
  unfold join
  split
  · trivial
  · exact not_false

/-! ### Tokens and keys -/

theorem quoted_unnested (asciiOnly : Bool) (t shown : Text) (s : Session) :
    Unnested (quoted asciiOnly t shown s).1 := by
  rw [quoted_eq]
  split
  · trivial
  · exact not_false

theorem shown_unnested {k : Text → Action Text} (hk : ∀ t s, Unnested (k t s).1) (v : Value)
    (s : Session) : Unnested ((Action.shown v >>= k) s).1 := by
  rw [Action.bind_apply, Action.shown]
  split
  · exact hk _ s
  · exact not_false
  · exact not_false

theorem label_unnested (f : Format) (key : Value) (s : Session) : Unnested (label f key s).1 :=
  label_induction (P := fun x => ∀ s, Unnested (x s).1) quoted_unnested
    (fun _ hk s => shown_unnested hk key s) f s

theorem leaf_unnested {v : Value} (hv : ∀ e, v.node ≠ .extension e) (extend : Extender) (f : Format)
    (depth : Value) (s : Session) : Unnested (leaf extend f v depth s).1 := by
  unfold leaf
  cases hnode : v.node with
  | null | bool _ => trivial
  | str t => exact quoted_unnested _ t _ s
  | int n =>
    change Unnested (number n s).1
    unfold number
    -- The digits stay closed, since their limit is a power of ten.
    generalize Decimal.ofInt? n = digits
    cases digits with
    | none => exact not_false
    | some t => trivial
  | float x =>
    simp only [float]
    split
    · trivial
    · split
      · trivial
      · exact not_false
  | extension e => exact absurd hnode (hv e)
  | array _ | object _ | other => exact shown_unnested (fun t s => quoted_unnested _ t _ s) v s

/-! ### Containers -/

section

variable {tokens : Value → Value → Except Fault Text} {keys : Value → Except Fault Text} {f : Format}

theorem margin_unnested (newline : Text) (depth : Number) : Unnested (margin f newline depth) := by
  unfold margin
  split
  · trivial
  · exact (Value.times_unnested _ _).map fun _ _ => trivial

theorem fill_unnested {rs : List (Except Fault (List Part))} (h : ∀ r ∈ rs, Unnested r) (newline : Text)
    (depth : Number) (first : Bool) : Unnested (fill (.knowing tokens keys) f newline depth first rs) := by
  induction rs generalizing first with
  | nil => trivial
  | cons r rest ih =>
    obtain ⟨hr, hrest⟩ := List.forall_mem_cons.mp h
    have hgap : Unnested (gap f newline depth first) :=
      (margin_unnested newline depth).map fun _ _ => trivial
    refine hgap.bind fun before _ => hr.bind fun parts _ => ?_
    exact (ih hrest false).bind fun more _ => trivial

theorem block_unnested (shape : Shape) (depth : Value)
    {entries : Number → List (Except Fault (List Part))} (h : ∀ inner, ∀ r ∈ entries inner, Unnested r)
    (hnewline : Unnested (shape.newline f)) :
    Unnested (block (.knowing tokens keys) f.unlimited shape depth entries) := by
  have hnewline' : Unnested (shape.newline f.unlimited) := by cases shape <;> exact hnewline
  have hopens : Unnested (Generator.checkNesting f.unlimited.maxNesting depth) := trivial
  refine hopens.bind fun _ _ => hnewline'.bind fun newline _ => ?_
  refine depth.succ_unnested.bind fun inner _ => ?_
  refine (fill_unnested (h inner) newline inner true).bind fun body _ => ?_
  have hending : Unnested (ending f.unlimited shape newline inner.pred) :=
    (margin_unnested newline inner.pred).map fun _ _ => trivial
  exact hending.bind fun last _ => trivial

theorem pair_unnested {key : Value} (hkey : Unnested (keys key)) (hcolon : Unnested f.colon)
    {r : Except Fault (List Part)} (hr : Unnested r) :
    Unnested (pair (.knowing tokens keys) f key r) :=
  hkey.bind fun _ _ => hcolon.bind fun _ _ => hr.bind fun _ _ => trivial

end

theorem newline_unnested (g : Generator) (shape : Shape) : Unnested (shape.newline g.format) := by
  cases shape with
  | array => exact g.arrayNewline.textAfter_unnested
  | object => exact g.objectNewline.textAfter_unnested

theorem colon_unnested (g : Generator) : Unnested g.format.colon :=
  g.spaceBefore.textBefore_unnested.bind fun _ _ => g.space.textAfter_unnested.bind fun _ _ => trivial

/-- Without a limit nothing in a value is too deep. -/
theorem layOut_unnested (g : Generator) (s : Session) {v : Value} (hv : v.IsNative) (depth : Value) :
    Unnested (layOut (.outcome g.format s) g.format.unlimited depth v) := by
  induction v, hv using Value.tree_induction generalizing depth with
  | scalar v h hscalar =>
    rw [layOut_of_scalar _ _ _ hscalar]
    have hnode (e : Extension Value) : v.node ≠ .extension e := Value.allowed_of_node v h
    exact (leaf_unnested hnode _ g.format depth s).bind fun _ _ => trivial
  | sequence v h kind items hcontent ih =>
    rw [layOut_of_sequence _ _ _ hcontent]
    refine block_unnested .array depth (fun inner => ?_) (newline_unnested g .array)
    exact List.forall_mem_map.mpr fun w hw => (ih w hw).2 inner.value
  | mapping v h kind entries hcontent ih =>
    rw [layOut_of_mapping _ _ _ hcontent]
    refine block_unnested .object depth (fun inner => ?_) (newline_unnested g .object)
    exact List.forall_mem_map.mpr fun e he =>
      pair_unnested (label_unnested _ e.1 s) (colon_unnested g) ((ih e he).2 inner.value)
  | binary v h kind data hcontent ih =>
    rw [layOut_of_binary _ _ _ hcontent]
    exact ih.2 depth

end Render

theorem checkOutput_unnested (asciiOnly : Bool) (t : Text) : Unnested (checkOutput asciiOnly t) := by
  unfold checkOutput
  split
  · exact not_false
  · split
    · exact not_false
    · trivial

/-- A generator without a limit does not find a value too deep. -/
theorem generate_unnested {v : Value} (hv : v.IsNative) {s : Session} {id : Nat} {g : Generator}
    (hg : s.generator? id = some g) (hunlimited : g.format = g.format.unlimited) :
    Unnested (generate v id s).1 := by
  rw [generate_outcome hv hg]
  have hlayout := Render.layOut_unnested g s hv g.depth
  rw [← hunlimited] at hlayout
  refine hlayout.bind fun parts _ => (Render.Part.join_unnested parts).bind fun t _ => ?_
  exact (checkOutput_unnested g.asciiOnly.isTrue t).bind fun _ _ => trivial

end JsonWriter
