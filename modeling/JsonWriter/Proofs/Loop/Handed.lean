import JsonWriter.Proofs.EntryPoints
import JsonWriter.Proofs.Loop.Depths

/-!
# What objects are handed

An object that writes itself is handed a new generator: the one that is rendered with, at the depth where
the object stands. Main statement: `render_hands`, whatever the objects before it did with what they were
handed.
-/

namespace JsonWriter

open JsonWriter.Action (Ensures)
open Generator (Format)

namespace Generator

/-! ## Generators that differ in the depth -/

/-- The other generator holds what the generator does, with the number for its depth. A limit of zero
stands for another one. -/
def HoldsAt (g h : Generator) (n : Int) : Prop :=
  ∃ depth, depth.wholeNumber? = some n ∧ List.Forall₂ (fun e e' => e'.1 = e.1 ∧
    (e'.2 = e.2 ∨ e.2.wholeNumber? = some 0 ∧ e'.2 = .int 0)) (g.put .depth depth).entries h.entries

section

variable {g : Generator} (hg : g.IsSettled) {depth : Value}

include hg

theorem holdsAt_copied {n : Int} (hn : depth.wholeNumber? = some n) (hle : 0 ≤ n) :
    g.HoldsAt (g.copied.put .depth depth) n :=
  ⟨depth, hn, entries_copied (put_depth_isSettled hg ⟨n, hn, hle⟩)⟩

/-- At another depth a settled generator is copied as it is, with the same keys of no use. -/
theorem copy_put_depth (hd : depth.IsDepth) {g' : Generator} {ignored : List Value}
    (hcopy : g.copy = .ok (g', ignored)) :
    (g.put .depth depth).copy = .ok (g'.put .depth depth, ignored) := by
  obtain ⟨_, hcopied⟩ := copy_of_isSettled hg
  obtain ⟨rfl, -⟩ := Prod.mk.inj (Except.ok.inj (hcopied.symm.trans hcopy))
  have hsettled := put_depth_isSettled hg hd
  obtain ⟨ignored', hput⟩ := copy_of_isSettled hsettled
  have hignored : ignored' = ignored := by
    rw [configure_ignored hput, configure_ignored hcopy]
    change (Keyed.insertAll [] (g.put .depth depth).entries.unnamed).map (·.1) =
      (Keyed.insertAll [] g.entries.unnamed).map (·.1)
    rw [unnamed_entries g hg.unknown, unnamed_entries _ hsettled.unknown, unknown_put]
  rw [hput, hignored]
  rfl

end

end Generator

namespace Extension

/-! ## Handing out generators -/

/-- Objects come to what they answer to the generators that they are handed. -/
def handing (g : Generator) (answer : Extension Value → Nat → Action Text) : Render.Extender :=
  fun e depth => do answer e (← hand g depth)

/-- The text that an object returns, when what is in it renders with so many levels of objects. -/
def answerAt : Nat → Extension Value → Nat → Action Text
  | 0, _, _ => Action.fail .endless
  | level + 1, e, id => do
    let result ← e.call (renderAt level) id
    Action.ofExcept (e.returned result)

theorem writeAt_succ (g : Generator) (level : Nat) :
    writeAt g (level + 1) = handing g (answerAt (level + 1)) := by
  funext e depth
  simp only [writeAt, write, handing, hand, answerAt, bind_assoc, pure_bind]
  refine bind_congr fun _ => bind_congr fun _ => bind_congr fun _ => bind_congr fun result => ?_
  unfold returned
  cases result.text? <;> rfl

/-- What objects do with what they are handed: the generators of the session are left as they are, and
none goes away. -/
structure IsPrivate (s : Session) (answer : Extension Value → Nat → Action Text) : Prop where
  keeps : ∀ e n, s.generators.size ≤ n →
    Ensures (s.Within none fun _ => True) (fun _ => True) (answer e n)
  grows : ∀ e n t, t.generators.size ≤ (answer e n t).2.generators.size

/-- Objects write to no generators but those that they are handed. -/
theorem isPrivate_answerAt (s : Session) (level : Nat) : IsPrivate s (answerAt level) := by
  have hanswer (base : Session) (target : Option Nat) (e : Extension Value) (n : Nat)
      (hn : base.Writable target n) :
      Ensures (base.Within target fun _ => True) (fun _ => True) (answerAt level e n) := by
    cases level with
    | zero => exact Action.ensures_fail _
    | succ level =>
      refine (ensures_call Generator.closed_all (ensures_renderAt Generator.closed_all level)
        (Value.arePlaced_all _) hn).bind fun _ _ => Action.ensures_any _
  refine ⟨fun e n hn => hanswer s none e n (.inl hn), fun e n t => ?_⟩
  exact (hanswer t (some n) e n (.inr rfl) t (.refl fun _ _ _ => trivial)).1.grown

end Extension

namespace Render.Loop

variable {s : Session} {g : Generator} {answer : Extension Value → Nat → Action Text} {f : Format}

/-! ## Generators on the way -/

/-- The generators of the first session are as they were, and there are so many at least. -/
def Kept (s : Session) (count : Nat) (t : Session) : Prop :=
  s.Within none (fun _ => True) t ∧ count ≤ t.generators.size

/-- An action that writes to no generators that it finds keeps them, and how many there are. -/
theorem ensures_kept {α : Type} {x : Action α}
    (hx : ∀ base : Session, Ensures (base.Within none fun _ => True) (fun _ => True) x) (count : Nat) :
    Ensures (Kept s count) (fun _ => True) x := by
  refine Action.ensures_of_snd fun t ht => ⟨(hx s t ht.1).1, ?_⟩
  exact ht.2.trans (hx t t (.refl fun _ _ _ => trivial)).1.grown

theorem ensures_kept_handing (hg : g.IsSettled) (hanswer : Extension.IsPrivate s answer) (count : Nat)
    (e : Extension Value) (depth : Value) :
    Ensures (Kept s count) (fun _ => True) (Extension.handing g answer e depth) := by
  obtain ⟨ignored, hcopy⟩ := Generator.copy_of_isSettled hg
  refine Action.ensures_of_snd fun t ht => ?_
  rw [Extension.handing, Action.bind_apply, Extension.hand_apply hcopy, Action.resume_ok]
  have hadded : s.Within none (fun _ => True) (t.adding (g.copied.put .depth depth) ignored) :=
    (ht.1.push trivial).congr rfl
  refine ⟨(hanswer.keeps e _ ht.1.grown _ hadded).1, le_trans (ht.2.trans ?_) (hanswer.grows e _ _)⟩
  rw [Session.adding, Array.size_push]
  exact Nat.le_succ _

/-- What a turn does to the session is what the pending object or the next key does. -/
theorem Kept.turn (hg : g.IsSettled) (hanswer : Extension.IsPrivate s answer) {count : Nat} {c c' : Loop}
    (hc : Kept s count c.session) (h : c.turn (Extension.handing g answer) f = .inl c') :
    Kept s count c'.session := by
  cases turned_of_turn h with
  | entered | closed => exact hc
  | @leaf p frames w s₁ s₂ t hv ht =>
    have hleaf : Ensures (Kept s count) (fun _ => True)
        (Render.leaf (Extension.handing g answer) f p.value p.depth) := by
      by_cases hnode : ∃ e, p.value.node = .extension e
      · obtain ⟨e, he⟩ := hnode
        rw [Render.leaf, he]
        exact ensures_kept_handing hg hanswer count e p.depth
      · rw [leaf_congr (fun e he => hnode ⟨e, he⟩) _ fun _ _ => Action.fail .endless]
        have hsafe (base : Session) : Extender.IsSafe base none (fun _ => True) (fun _ => True)
            fun _ _ => Action.fail .endless := fun _ _ _ _ => Action.ensures_fail _
        exact ensures_kept (fun base => ensures_leaf (hsafe base) f (Value.arePlaced_all _) trivial) count
    have hkept := (hleaf s₁ hc).1
    rwa [ht] at hkept
  | @advanced fr entry rest frames w parts s₁ s₂ hr hl =>
    have hkept := (ensures_kept (fun base => ensures_lead f fr entry.key?) count s₁ hc).1
    rwa [hl] at hkept

theorem Kept.reaches (hg : g.IsSettled) (hanswer : Extension.IsPrivate s answer) {count : Nat}
    {c c' : Loop} (hc : Kept s count c.session)
    (h : c.Reaches (Extension.handing g answer) f c') : Kept s count c'.session :=
  h.keeps (P := fun c => Kept s count c.session) (fun _ _ hc hturn => hc.turn hg hanswer hturn) hc

/-- The next turn calls an object, and this is handed the generator of that number in that session. -/
structure Hands (g : Generator) (c : Loop) (p : Visit) (e : Extension Value) (n : Nat) (t : Session) :
    Prop where
  pending : c.pending = some p
  object : p.value.node = .extension e
  made : Extension.hand g p.depth c.session = (.ok n, t)

section

variable {c : Loop} {p : Visit} {e : Extension Value}

theorem exists_hands (hg : g.IsSettled) (hp : c.pending = some p) (he : p.value.node = .extension e) :
    ∃ n t, c.Hands g p e n t := by
  obtain ⟨ignored, hcopy⟩ := Generator.copy_of_isSettled hg
  exact ⟨_, _, hp, he, Extension.hand_apply hcopy p.depth c.session⟩

variable {n : Nat} {t : Session} (h : c.Hands g p e n t)

include h

theorem Hands.leaf_eq (answer : Extension Value → Nat → Action Text) :
    leaf (Extension.handing g answer) f p.value p.depth c.session = answer e n t := by
  have hleaf : leaf (Extension.handing g answer) f p.value p.depth =
      Extension.handing g answer e p.depth := by rw [leaf, h.object]
  rw [hleaf, Extension.handing, Action.bind_apply, h.made, Action.resume_ok]

/-- The number is the next one of the session, and has the generator as it is copied, at the depth. -/
theorem Hands.made_eq (hg : g.IsSettled) : n = c.session.generators.size ∧
    ∃ ignored, t = c.session.adding (g.copied.put .depth p.depth) ignored := by
  obtain ⟨ignored, hcopy⟩ := Generator.copy_of_isSettled hg
  obtain ⟨hn, ht⟩ := Prod.mk.inj (h.made.symm.trans (Extension.hand_apply hcopy p.depth c.session))
  exact ⟨Except.ok.inj hn, ignored, ht⟩

theorem Hands.lt_size_of_turn (hg : g.IsSettled) (hanswer : Extension.IsPrivate s answer) {c' : Loop}
    (hturn : c.turn (Extension.handing g answer) f = .inl c') : n < c'.session.generators.size := by
  obtain ⟨hn, ignored, ht⟩ := h.made_eq hg
  have hgrows := hanswer.grows e n t
  obtain ⟨pending, frames, w, s₁⟩ := c
  obtain rfl := h.pending
  have hscalar : container? p.value = none := by rw [container?, h.object]
  simp only [turn, hscalar, h.leaf_eq] at hturn
  split at hturn
  · cases hturn
  · next heq =>
    obtain rfl := Sum.inl.inj hturn
    rw [heq, ht, Session.adding, Array.size_push, ← hn] at hgrows
    exact hgrows

/-- A later call is handed another generator. -/
theorem Hands.ne_of_reaches (hg : g.IsSettled) (hanswer : Extension.IsPrivate s answer)
    (hc : Kept s 0 c.session) {c₁ c' : Loop}
    (hturn : c.turn (Extension.handing g answer) f = .inl c₁)
    (hreaches : c₁.Reaches (Extension.handing g answer) f c') {p' : Visit} {e' : Extension Value} {n' : Nat}
    {t' : Session} (h' : c'.Hands g p' e' n' t') : n' ≠ n := by
  have hcount : Kept s (n + 1) c₁.session :=
    ⟨(hc.turn hg hanswer hturn).1, h.lt_size_of_turn hg hanswer hturn⟩
  obtain ⟨rfl, -⟩ := h'.made_eq hg
  have hlt : n < c'.session.generators.size := (Kept.reaches hg hanswer hcount hreaches).2
  exact hlt.ne'

end

end Render.Loop

/-! ## Objects in objects -/

namespace Value

theorem rankItems_le_iff {n : Nat} {vs : List Value} : rankItems vs ≤ n ↔ ∀ v ∈ vs, v.rank ≤ n := by
  induction vs with
  | nil => simp [rankItems]
  | cons v rest ih => rw [rankItems, Nat.max_le, ih, List.forall_mem_cons]

theorem rankEntries_le_iff {n : Nat} {es : List (Value × Value)} :
    rankEntries es ≤ n ↔ ∀ e ∈ es, e.1.rank ≤ n ∧ e.2.rank ≤ n := by
  induction es with
  | nil => simp [rankEntries]
  | cons e rest ih => rw [rankEntries, Nat.max_le, Nat.max_le, ih, List.forall_mem_cons]

/-- In what is in a value objects are nested no deeper than in the value. -/
theorem deep_rank (n : Nat) : Deep fun v => v.rank ≤ n where
  sequence := rankItems_le_iff
  selfList := rankItems_le_iff
  mapping := rankEntries_le_iff
  selfDictionary := rankEntries_le_iff
  derived := Iff.rfl
  own := id
  renew _ h := h
  str _ := Nat.zero_le n
  number x := by cases x <;> exact Nat.zero_le n
  binary _ _ := Nat.zero_le n

end Value

namespace Render.Loop

theorem Stands.rank_le {v w : Value} {frames : List Frame} (h : Stands v frames w) : w.rank ≤ v.rank := by
  induction h with
  | outermost => exact Nat.le_refl _
  | entry _ hu ih => exact (Value.deep_rank _).container? ih hu _ (by simp)

/-- A loop that meets no objects comes to the same whatever they do. -/
theorem Comes.congr {extend extend' : Extender} {f : Format} {c : Loop} {r : Outcome}
    (h : c.Comes extend f r) (hnone : ∀ c', c.Reaches extend f c' → ∀ p ∈ c'.pending, ∀ e,
      p.value.node ≠ .extension e) : c.Comes extend' f r := by
  have hturn {c : Loop} (hc : ∀ p ∈ c.pending, ∀ e, p.value.node ≠ .extension e) :
      c.turn extend' f = c.turn extend f := by
    obtain ⟨_ | p, frames, w, s⟩ := c
    · cases frames <;> rfl
    · simp only [turn, leaf_congr (hc p rfl) extend' extend]
  induction h with
  | last h => exact .last ((hturn (hnone _ .refl)).trans h)
  | next h _ ih =>
    refine .next ((hturn (hnone _ .refl)).trans h) (ih fun c' hc' => hnone c' (.head h hc'))

end Render.Loop

/-! ## Rendering -/

/-- With a copy at a depth for the generator a value is written as with the generator at that depth. -/
theorem Render.parts_copy_put {g h : Generator} (hg : g.IsSettled) {ignored : List Value}
    (hcopy : g.copy = .ok (h, ignored)) {depth : Value} (hd : depth.IsDepth) (level : Nat) (v : Value) :
    parts (Extension.writeAt (h.put .depth depth) level) (h.put .depth depth).format v depth =
      parts (Extension.writeAt g level) g.format v depth := by
  have hformat : (h.put .depth depth).format =
      { g.format with maxNesting := Setting.maxNesting.kept g.maxNesting } :=
    Generator.format_of_kept (Generator.kept_of_copy hg.toIsValid hcopy) depth
  have hlimit := hg.setting .maxNesting
  have hwrite : Extension.writeAt (h.put .depth depth) level = Extension.writeAt g level := by
    have hsettled : h.IsSettled := Generator.configure_isSettled Generator.initial_isSettled hcopy
    have hcopied := Generator.copy_put_depth hsettled hd (Generator.copy_copy hg.toIsValid hcopy)
    cases level with
    | zero => rfl
    | succ level =>
      funext e d
      funext s
      rw [Extension.writeAt_succ, Extension.writeAt_succ, Extension.handing, Extension.handing,
        Action.bind_apply, Action.bind_apply, Extension.hand_apply hcopied, Extension.hand_apply hcopy]
      rfl
  rw [hwrite, hformat]
  exact parts_limit _ (Generator.checkNesting_kept hlimit) (Generator.number?_kept hlimit) v _

/-- The turns in which objects answer what they are handed come to what the writer comes to. -/
theorem Render.Loop.comes_handing {v : Value} (hv : v.IsFinite) (g : Generator) {depth : Value} {d : Int}
    (hd : depth.int? = some d) (s : Session) :
    (start v depth s).Comes (Extension.handing g (Extension.answerAt v.rank)) g.format
      (parts (Extension.writeAt g v.rank) g.format v depth s) := by
  have hcomes : (start v depth s).Comes (Extension.writeAt g v.rank) g.format
      (parts (Extension.writeAt g v.rank) g.format v depth s) :=
    comes_parts _ (hasRoom_isFinite g.format) hv s
  cases hrank : v.rank with
  | zero =>
    rw [hrank] at hcomes
    -- There are no objects in the value, so it does not count what they would be handed.
    refine hcomes.congr fun c hc p hp e he => ?_
    have hle : p.value.rank ≤ v.rank := ((isPlaced_of_reaches hd hc).pending p hp).2.rank_le
    have hobject := (Value.deep_rank 0).node p.value (hle.trans hrank.le)
    rw [he] at hobject
    exact Nat.not_succ_le_zero _ hobject
  | succ level =>
    rw [← Extension.writeAt_succ, ← hrank]
    exact hcomes

/-- Rendering with a copy that has the depth comes to the same as rendering at the depth. -/
theorem render_copy_put (v : Value) {s : Session} {id id' : Nat} {g h : Generator}
    (hg : s.generator? id = some g) (hsettled : g.IsSettled) {ignored : List Value}
    (hcopy : g.copy = .ok (h, ignored)) {depth : Option Value} (hd : (depth.getD g.depth).IsDepth)
    (hh : s.generator? id' = some (h.put .depth (depth.getD g.depth))) :
    render v id' none s = render v id depth s := by
  have hparts := Render.parts_copy_put hsettled hcopy hd v.rank v
  have hput : (h.put .depth (depth.getD g.depth)).depth = depth.getD g.depth := rfl
  rw [render, renderAt_eq, renderAt_eq, Action.bind_apply, Action.bind_apply, Action.generator,
    Action.generator, hg, hh, Action.resume_ok, Action.resume_ok, Option.getD_some, Option.getD_some,
    Option.getD_none, hput, hparts]

/-- Rendering a finite value with a checked generator, at a depth `d`. First, whatever objects do with
the generators that they are handed, as long as they leave alone those that were there before: an object
stands inside the containers that are open when it is called, and is handed a new generator that holds
what the one rendered with does, with `d` and their number for its depth; this one is as it was, and
later calls are handed others. Second, the objects of the library are of this kind, and rendering comes
to the text of what the turns come to. Third, rendering with a copy that has the depth comes to the
same. -/
theorem render_hands {v : Value} (hv : v.IsFinite) {s : Session} {id : Nat} {g : Generator}
    (hg : s.generator? id = some g) (hsettled : g.IsSettled) {depth : Option Value} {d : Int}
    (hd : (depth.getD g.depth).wholeNumber? = some d) (hle : 0 ≤ d) :
    (∀ answer, Extension.IsPrivate s answer →
      let extend := Extension.handing g answer
      ∀ c, (Render.Loop.start v (depth.getD g.depth) s).Reaches extend g.format c →
        (∀ p ∈ c.pending, ∀ e, p.value.node = .extension e → ∃ n t, c.Hands g p e n t) ∧
        ∀ p e n t, c.Hands g p e n t →
          Render.Loop.Stands v c.frames p.value ∧
          Render.leaf extend g.format p.value p.depth c.session = answer e n t ∧
          (∃ h, t.generator? n = some h ∧ g.HoldsAt h (d + c.frames.length)) ∧
          c.session.generator? n = none ∧ n ≠ id ∧ t.generator? id = some g ∧
          ∀ c₁ c', c.turn extend g.format = .inl c₁ → c₁.Reaches extend g.format c' →
            ∀ p' e' n' t', c'.Hands g p' e' n' t' → n' ≠ n) ∧
    (Extension.IsPrivate s (Extension.answerAt v.rank) ∧
      ∃ outcome : Render.Loop.Outcome,
        (Render.Loop.start v (depth.getD g.depth) s).Comes
          (Extension.handing g (Extension.answerAt v.rank)) g.format outcome ∧
        (render v id depth s).1 = outcome.1 >>= Render.Part.join) ∧
    ∀ h ignored id', g.copy = .ok (h, ignored) →
      s.generator? id' = some (h.put .depth (depth.getD g.depth)) →
      render v id' none s = render v id depth s := by
  have hint : (depth.getD g.depth).int? = some d := Value.int?_of_wholeNumber? hd
  have hdepth : (depth.getD g.depth).IsDepth := ⟨d, hd, hle⟩
  refine ⟨fun answer hanswer => ?_, ⟨Extension.isPrivate_answerAt s v.rank, _,
    Render.Loop.comes_handing hv g hint s, render_eq_parts hg v depth⟩,
    fun h ignored id' hcopy hh => render_copy_put v hg hsettled hcopy hdepth hh⟩
  intro extend c hc
  refine ⟨fun p hp e he => Render.Loop.exists_hands hsettled hp he, fun p e n t h => ?_⟩
  obtain ⟨hvisit, hstands⟩ := (Render.Loop.isPlaced_of_reaches hint hc).pending p h.pending
  have hkept : Render.Loop.Kept s 0 c.session :=
    Render.Loop.Kept.reaches hsettled hanswer ⟨.refl fun _ _ _ => trivial, Nat.zero_le _⟩ hc
  obtain ⟨rfl, ignored, rfl⟩ := h.made_eq hsettled
  have hid : c.session.generator? id = some g := hkept.1.kept id g hg (by simp)
  have hlt : id < c.session.generators.size := (Array.getElem?_eq_some_iff.mp hid).1
  refine ⟨hstands, h.leaf_eq answer, ⟨g.copied.put .depth p.depth, ?_, ?_⟩, ?_, hlt.ne', ?_,
    fun c₁ c' hturn hreaches p' e' n' t' h' => h.ne_of_reaches hsettled hanswer hkept hturn hreaches h'⟩
  · exact Session.generator?_adding_size _ _ _
  · have hnumber := Value.wholeNumber?_inside hd c.frames.length
    rw [hvisit]
    exact Generator.holdsAt_copied hsettled hnumber (by omega)
  · exact Array.getElem?_eq_none (Nat.le_refl _)
  · exact Session.generator?_adding _ _ hid

/-- An object in a list, and another one in a list after it. -/
def handedSample : Value := .list [.extension .stateText, .list [.extension .stateText]]

/-- Objects that set the depth of what they are handed. -/
def deepening : Extension Value → Nat → Action Text := fun _ n => do
  Action.set n (.str (text "depth")) (.int 9)
  return []

theorem isPrivate_deepening (s : Session) : Extension.IsPrivate s deepening := by
  have hset {base : Session} {target : Option Nat} {n : Nat} (hn : base.Writable target n) :
      Ensures (base.Within target fun _ => True) (fun _ => True) (deepening .stateText n) :=
    (Action.ensures_set Generator.closed_all hn _ _).bind fun _ _ => Action.ensures_pure trivial
  refine ⟨fun e n hn => hset (.inl hn), fun e n t => ?_⟩
  exact (hset (.inr rfl) t (.refl fun _ _ _ => trivial)).1.grown

theorem render_handedSample :
    let s := { Session.initial true with generators := #[.initial] }
    let extend := Extension.handing .initial deepening
    handedSample.IsFinite ∧ Generator.initial.IsSettled ∧ Extension.IsPrivate s deepening ∧
      ∃ c p e n t h,
        (Render.Loop.start handedSample (.int 5) s).Reaches extend Generator.initial.format c ∧
        c.Hands .initial p e n t ∧ t.generator? n = some h ∧ Generator.initial.HoldsAt h 7 ∧
        c.session.generators.size = 2 ∧ c.session.generator? n = none ∧ n ≠ 0 ∧
        t.generator? 0 = some .initial := by
  intro s extend
  have hv : handedSample.IsFinite := ⟨trivial, ⟨trivial, trivial⟩, trivial⟩
  refine ⟨hv, Generator.initial_isSettled, isPrivate_deepening s, ?_⟩
  have hg : s.generator? 0 = some .initial := rfl
  have hd : ((some (.int 5)).getD Generator.initial.depth).wholeNumber? = some 5 := rfl
  obtain ⟨hcalls, -⟩ := render_hands hv hg Generator.initial_isSettled hd (by decide)
  -- The list, its first object, the other list, and the object in that.
  obtain ⟨c, hc, hframes, ⟨p, hp, he⟩, hsize⟩ : ∃ c : Render.Loop,
      (Render.Loop.start handedSample (.int 5) s).Reaches extend Generator.initial.format c ∧
        c.frames.length = 2 ∧ (∃ p ∈ c.pending, p.value.node = .extension .stateText) ∧
        c.session.generators.size = 2 :=
    ⟨_, .head (by rfl) (.head (by rfl) (.head (by rfl) (.head (by rfl) (.head (by rfl)
      (.head (by rfl) .refl))))), rfl, ⟨_, rfl, rfl⟩, rfl⟩
  obtain ⟨hcalled, hhanded⟩ := hcalls deepening (isPrivate_deepening s) c hc
  obtain ⟨n, t, h⟩ := hcalled p hp _ he
  obtain ⟨-, -, ⟨g, hg, hholds⟩, hnew, hne, hkept, -⟩ := hhanded p _ n t h
  rw [hframes] at hholds
  exact ⟨c, p, _, n, t, g, hc, h, hg, hholds, hsize, hnew, hne, hkept⟩

end JsonWriter
