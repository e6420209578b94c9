import JsonWriter.Generate
import JsonWriter.Proofs.Delegation.Reading
import JsonWriter.Proofs.Tree

/-!
# Objects that generate a value in their place

Some objects that write themselves only pass a value on, to be rendered with the generator that they
are given. Such an object can be replaced by the value. Main statement: `inline_isNative`, no object
that writes itself is left.
-/

namespace JsonWriter.Value

/-- The value is shown in the same way whatever generators there are. -/
def IsSteady (v : Value) : Prop :=
  ∀ describe describe' : List Nat → Nat → Option Text, v.shown? describe = v.shown? describe'

mutual

/-- The value is finite, the objects in it that write themselves only pass a value of this kind on,
and no text in it depends on a generator. -/
def Delegates : Value → Prop
  | sequence _ items => AllDelegate items
  | mapping _ entries => EntriesDelegate entries
  | selfList _ | selfDictionary _ | generator _ => False
  | derived base => base.Delegates
  | own _ v => v.Delegates
  | extension e => ExtensionDelegates e
  | _ => True
termination_by structural v => v

def AllDelegate : List Value → Prop
  | [] => True
  | v :: rest => v.Delegates ∧ AllDelegate rest
termination_by structural vs => vs

def EntriesDelegate : List (Value × Value) → Prop
  | [] => True
  | (key, v) :: rest => key.IsSteady ∧ v.Delegates ∧ EntriesDelegate rest
termination_by structural es => es

/-- The object passes a value on that is written out, and nothing else. -/
def ExtensionDelegates : Extension Value → Prop
  | .point x y => (x.IsPlain ∧ x.Delegates) ∧ y.IsPlain ∧ y.Delegates
  | .delegate v none => v.IsPlain ∧ v.Delegates
  | .mutator [] v => v.IsPlain ∧ v.Delegates
  | _ => False
termination_by structural e => e

end

def isExtension (v : Value) : Bool :=
  match v.content with
  | extension _ => true
  | _ => false

mutual

/-- The value with each object in it that passes a value on replaced by that value. -/
def inline : Value → Value
  | sequence kind items => sequence kind (inlineItems items)
  | mapping kind entries => mapping kind (inlineEntries entries)
  | derived base => if base.isExtension then base.inline else derived base.inline
  | own i v => if v.isExtension then v.inline else own i v.inline
  | extension e => inlineExtension e
  | v => v
termination_by structural v => v

def inlineItems : List Value → List Value
  | [] => []
  | v :: rest => v.inline :: inlineItems rest
termination_by structural vs => vs

def inlineEntries : List (Value × Value) → List (Value × Value)
  | [] => []
  | (key, v) :: rest => (key, v.inline) :: inlineEntries rest
termination_by structural es => es

/-- The value that an object passes on. -/
def inlineExtension : Extension Value → Value
  | .point x y => dictionary [(str (text "x"), x.inline), (str (text "y"), y.inline)]
  | .delegate v none => v.inline
  | .mutator [] v => v.inline
  | e => extension e
termination_by structural e => e

end

theorem inlineItems_eq_map (vs : List Value) : inlineItems vs = vs.map inline := by
  induction vs with
  | nil => rfl
  | cons v rest ih => rw [inlineItems, ih, List.map_cons]

theorem inlineEntries_eq_map (es : List (Value × Value)) :
    inlineEntries es = es.map fun e => (e.1, e.2.inline) := by
  induction es with
  | nil => rfl
  | cons e rest ih => rw [inlineEntries, ih, List.map_cons]

/-! ## The values in such a value -/

mutual

theorem Delegates.isFinite : (v : Value) → v.Delegates → v.IsFinite
  | sequence _ items, h => AllDelegate.areFinite items h
  | mapping _ entries, h => EntriesDelegate.areFinite entries h
  | derived base, h => Delegates.isFinite base h
  | own _ v, h => Delegates.isFinite v h
  | null, _ | bool _, _ | int _, _ | float _, _ | str _, _ | setting _, _ | binary _ _, _
  | memory _, _ | outer _, _ | object _, _ | type _, _ | extension _, _ | described _, _ => trivial

theorem AllDelegate.areFinite : (vs : List Value) → AllDelegate vs → AreTrees (fun _ => True) vs
  | [], _ => trivial
  | v :: rest, h => ⟨Delegates.isFinite v h.1, AllDelegate.areFinite rest h.2⟩

theorem EntriesDelegate.areFinite : (es : List (Value × Value)) → EntriesDelegate es →
    EntriesAreTrees (fun _ => True) es
  | [], _ => trivial
  | (_, v) :: rest, h => ⟨Delegates.isFinite v h.2.1, EntriesDelegate.areFinite rest h.2.2⟩

end

theorem delegates_content (v : Value) : v.content.Delegates ↔ v.Delegates :=
  Iff.of_eq (apply_content Delegates (fun _ => rfl) (fun _ _ => rfl) v)

theorem rank_content (v : Value) : v.content.rank = v.rank :=
  apply_content rank (fun _ => rfl) (fun _ _ => rfl) v

/-- A value that delegates, with no more levels of delegation than given. -/
def DelegatesWithin (level : Nat) (v : Value) : Prop := v.Delegates ∧ v.rank ≤ level

theorem AllDelegate.of_mem {w : Value} {vs : List Value} (h : AllDelegate vs) (hw : w ∈ vs) :
    w.Delegates ∧ w.rank ≤ rankItems vs := by
  induction hw with
  | head => exact ⟨h.1, Nat.le_max_left _ _⟩
  | tail _ _ ih => exact ⟨(ih h.2).1, Nat.le_trans (ih h.2).2 (Nat.le_max_right _ _)⟩

theorem EntriesDelegate.of_mem {e : Value × Value} {es : List (Value × Value)}
    (h : EntriesDelegate es) (he : e ∈ es) :
    e.1.IsSteady ∧ e.2.Delegates ∧ e.2.rank ≤ rankEntries es := by
  induction he with
  | head => exact ⟨h.1, h.2.1, Nat.le_trans (Nat.le_max_right _ _) (Nat.le_max_left _ _)⟩
  | tail _ _ ih =>
    obtain ⟨hkey, hv, hrank⟩ := ih h.2.2
    exact ⟨hkey, hv, Nat.le_trans hrank (Nat.le_max_right _ _)⟩

theorem DelegatesWithin.inherited (level : Nat) : Inherited (DelegatesWithin level) IsSteady where
  item {v} _ _ hv hc w hw := by
    obtain ⟨hv, hrank⟩ := hv
    rw [← delegates_content, hc] at hv
    rw [← rank_content, hc] at hrank
    exact ⟨(AllDelegate.of_mem hv hw).1, Nat.le_trans (AllDelegate.of_mem hv hw).2 hrank⟩
  entry {v} _ _ hv hc e he := by
    obtain ⟨hv, hrank⟩ := hv
    rw [← delegates_content, hc] at hv
    rw [← rank_content, hc] at hrank
    obtain ⟨hkey, hv, hrank'⟩ := EntriesDelegate.of_mem hv he
    exact ⟨hkey, hv, Nat.le_trans hrank' hrank⟩
  raw {v} _ data _ _ := by
    have hbytes (bytes : List UInt8) : AllDelegate (bytes.map fun b => int b.toNat) ∧
        rankItems (bytes.map fun b => int b.toNat) = 0 := by
      induction bytes with
      | nil => exact ⟨trivial, rfl⟩
      | cons b rest ih => exact ⟨⟨trivial, ih.1⟩, by simp [rankItems, ih.2, rank]⟩
    refine ⟨⟨fun _ _ => rfl, trivial, fun _ _ => rfl, (hbytes data).1, trivial⟩, ?_⟩
    simp [dictionary, rawEntries, list, rank, rankEntries, (hbytes data).2]

/-! ## Reading -/

theorem Numbered.isSteady {m n : Nat} {v w : Value} (h : Numbered m n v w) : w.IsSteady :=
  fun describe describe' =>
    (h.shown?_eq describe describe).trans (h.shown?_eq describe' describe).symm

mutual

theorem Numbered.rank_eq {m n : Nat} {v w : Value} : Numbered m n v w → w.rank = v.rank
  | .atom _ _ => rfl
  | .mark _ _ => rfl
  | .sequence _ hitems => hitems.rankItems_eq
  | .mapping _ hentries => hentries.rankEntries_eq
  | .derived hbase => hbase.rank_eq
  | .object _ => rfl

theorem NumberedItems.rankItems_eq {m n : Nat} {vs ws : List Value} : NumberedItems m n vs ws →
    rankItems ws = rankItems vs
  | .nil => rfl
  | .cons hv hrest => by rw [rankItems, rankItems, hv.rank_eq, hrest.rankItems_eq]

theorem NumberedEntries.rankEntries_eq {m n : Nat} {es fs : List (Value × Value)} :
    NumberedEntries m n es fs → rankEntries fs = rankEntries es
  | .nil => rfl
  | .cons hkey hv hrest => by
    rw [rankEntries, rankEntries, hkey.rank_eq, hv.rank_eq, hrest.rankEntries_eq]

end

mutual

/-- A value with identities delegates as the value without them does. -/
theorem Numbered.delegates {m n : Nat} {v w : Value} : Numbered m n v w → v.Delegates → w.Delegates
  | .atom _ _, h => h
  | .mark _ _, h => h
  | .sequence _ hitems, h => hitems.delegate h
  | .mapping _ hentries, h => hentries.delegate h
  | .derived hbase, h => hbase.delegates h
  | .object _, _ => trivial

theorem NumberedItems.delegate {m n : Nat} {vs ws : List Value} : NumberedItems m n vs ws →
    AllDelegate vs → AllDelegate ws
  | .nil, h => h
  | .cons hv hrest, h => ⟨hv.delegates h.1, hrest.delegate h.2⟩

theorem NumberedEntries.delegate {m n : Nat} {es fs : List (Value × Value)} :
    NumberedEntries m n es fs → EntriesDelegate es → EntriesDelegate fs
  | .nil, h => h
  | .cons hkey hv hrest, h => ⟨hkey.isSteady, hv.delegates h.2.1, hrest.delegate h.2.2⟩

end

/-! ## Inlining by content -/

theorem isExtension_iff {v : Value} : v.isExtension ↔ ∃ e, v.content = extension e := by
  unfold isExtension
  split <;> simp_all

theorem Numbered.isExtension_eq {m n : Nat} {v w : Value} :
    Numbered m n v w → w.isExtension = v.isExtension
  | .atom _ _ => rfl
  | .mark _ _ => rfl
  | .sequence _ _ => rfl
  | .mapping _ _ => rfl
  | .derived h => h.isExtension_eq
  | .object _ => rfl

theorem inline_of_extension {e : Extension Value} : (v : Value) → v.content = extension e →
    v.inline = inlineExtension e
  | derived base, h => by
    have hbase : base.isExtension := isExtension_iff.mpr ⟨e, h⟩
    rw [inline, if_pos hbase, inline_of_extension base h]
  | own _ v, h => by
    have hv : v.isExtension := isExtension_iff.mpr ⟨e, h⟩
    rw [inline, if_pos hv, inline_of_extension v h]
  | extension _, h => by
    obtain rfl := extension.inj h
    rw [inline]

/-- Wrappers stay around everything but the objects that are replaced. -/
theorem content_inline : (v : Value) → v.isExtension = false → v.inline.content = v.content.inline
  | derived base, h => by
    have hbase : base.isExtension = false := h
    rw [inline, hbase]
    exact content_inline base hbase
  | own _ v, h => by
    have hv : v.isExtension = false := h
    rw [inline, hv]
    exact content_inline v hv
  | extension _, h => nomatch h
  | null, _ | bool _, _ | int _, _ | float _, _ | str _, _ | setting _, _ | binary _ _, _
  | memory _, _ | sequence _ _, _ | mapping _ _, _ | selfList _, _ | selfDictionary _, _
  | outer _, _ | object _, _ | type _, _ | generator _, _ | described _, _ => rfl

theorem inline_eq_self : (v : Value) → v.isExtension = false → v.content.inline = v.content →
    v.inline = v
  | derived base, h, hc => by
    have hbase : base.isExtension = false := h
    rw [inline, hbase, inline_eq_self base hbase hc]
    rfl
  | own _ v, h, hc => by
    have hv : v.isExtension = false := h
    rw [inline, hv, inline_eq_self v hv hc]
    rfl
  | extension _, h, _ => nomatch h
  | null, _, hc | bool _, _, hc | int _, _, hc | float _, _, hc | str _, _, hc | setting _, _, hc
  | binary _ _, _, hc | memory _, _, hc | sequence _ _, _, hc | mapping _ _, _, hc
  | selfList _, _, hc | selfDictionary _, _, hc | outer _, _, hc | object _, _, hc | type _, _, hc
  | generator _, _, hc | described _, _, hc => hc

theorem content_inline_of_scalar : (v : Value) → Render.container? v = none →
    v.isExtension = false → v.content.inline = v.content
  | derived base, h, he => content_inline_of_scalar base h he
  | own _ v, h, he => content_inline_of_scalar v h he
  | sequence _ _, h, _ | mapping _ _, h, _ => by simp [Render.container?, node] at h
  | extension _, _, he => nomatch he
  | null, _, _ | bool _, _, _ | int _, _, _ | float _, _, _ | str _, _, _ | setting _, _, _
  | binary _ _, _, _ | memory _, _, _ | selfList _, _, _ | selfDictionary _, _, _ | outer _, _, _
  | object _, _, _ | type _, _, _ | generator _, _, _ | described _, _, _ => rfl

section

variable {v : Value}

theorem inline_of_sequence {kind : SequenceKind} {items : List Value}
    (h : v.content = sequence kind items) : v.inline.content = sequence kind (items.map inline) := by
  rw [content_inline v (by simp [isExtension, h]), h, inline, inlineItems_eq_map]

theorem inline_of_mapping {kind : MappingKind} {entries : List (Value × Value)}
    (h : v.content = mapping kind entries) :
    v.inline.content = mapping kind (entries.map fun e => (e.1, e.2.inline)) := by
  rw [content_inline v (by simp [isExtension, h]), h, inline, inlineEntries_eq_map]

theorem inline_of_binary {kind : BinaryKind} {data : List UInt8} (h : v.content = binary kind data) :
    v.inline = v :=
  inline_eq_self v (by simp [isExtension, h]) (by rw [h]; rfl)

theorem inline_of_scalar (h : Render.container? v = none) (he : v.isExtension = false) :
    v.inline = v :=
  inline_eq_self v he (content_inline_of_scalar v h he)

end

/-! ## What is left -/

theorem isExtension_of_isNative {v : Value} (h : v.IsNative) : v.isExtension = false := by
  refine Bool.eq_false_iff.mpr fun he => ?_
  obtain ⟨e, he⟩ := isExtension_iff.mp he
  rw [IsNative, ← isTree_content, he] at h
  exact h

mutual

theorem inline_isNative : (v : Value) → v.Delegates → v.inline.IsNative ∧ v.inline.Delegates
  | sequence _ items, h => inlineItems_areNative items h
  | mapping _ entries, h => inlineEntries_areNative entries h
  | derived base, h => by
    have hbase := inline_isNative base h
    rw [inline]
    split
    · exact hbase
    · exact hbase
  | own _ v, h => by
    have hv := inline_isNative v h
    rw [inline]
    split
    · exact hv
    · exact hv
  | extension e, h => inlineExtension_isNative e h
  | null, _ | bool _, _ | int _, _ | float _, _ | str _, _ | setting _, _
  | binary _ _, _ | memory _, _ | outer _, _ | object _, _ | type _, _ | described _, _ =>
    ⟨trivial, trivial⟩

theorem inlineItems_areNative : (vs : List Value) → AllDelegate vs →
    AreTrees (fun _ => False) (inlineItems vs) ∧ AllDelegate (inlineItems vs)
  | [], _ => ⟨trivial, trivial⟩
  | v :: rest, ⟨hv, hrest⟩ => by
    obtain ⟨hn, hd⟩ := inline_isNative v hv
    obtain ⟨hns, hds⟩ := inlineItems_areNative rest hrest
    exact ⟨⟨hn, hns⟩, hd, hds⟩

theorem inlineEntries_areNative : (es : List (Value × Value)) → EntriesDelegate es →
    EntriesAreTrees (fun _ => False) (inlineEntries es) ∧ EntriesDelegate (inlineEntries es)
  | [], _ => ⟨trivial, trivial⟩
  | (_, v) :: rest, ⟨hkey, hv, hrest⟩ => by
    obtain ⟨hn, hd⟩ := inline_isNative v hv
    obtain ⟨hns, hds⟩ := inlineEntries_areNative rest hrest
    exact ⟨⟨hn, hns⟩, hkey, hd, hds⟩

theorem inlineExtension_isNative : (e : Extension Value) → ExtensionDelegates e →
    (inlineExtension e).IsNative ∧ (inlineExtension e).Delegates
  | .point x y, ⟨⟨_, hx⟩, _, hy⟩ => by
    obtain ⟨hxn, hxd⟩ := inline_isNative x hx
    obtain ⟨hyn, hyd⟩ := inline_isNative y hy
    exact ⟨⟨hxn, hyn, trivial⟩, fun _ _ => rfl, hxd, fun _ _ => rfl, hyd, trivial⟩
  | .delegate v none, ⟨_, hv⟩ => inline_isNative v hv
  | .mutator [] v, ⟨_, hv⟩ => inline_isNative v hv

end

mutual

theorem inline_of_isNative : (v : Value) → v.IsNative → v.inline = v
  | sequence _ items, h => by rw [inline, inlineItems_of_areNative items h]
  | mapping _ entries, h => by rw [inline, inlineEntries_of_areNative entries h]
  | derived base, h => by
    have hbase : base.IsNative := h
    rw [inline, inline_of_isNative base hbase, isExtension_of_isNative hbase]
    rfl
  | own _ v, h => by
    have hv : v.IsNative := h
    rw [inline, inline_of_isNative v hv, isExtension_of_isNative hv]
    rfl
  | null, _ | bool _, _ | int _, _ | float _, _ | str _, _ | setting _, _ | binary _ _, _
  | memory _, _ | outer _, _ | object _, _ | type _, _ | generator _, _ | described _, _ => rfl

theorem inlineItems_of_areNative : (vs : List Value) → AreTrees (fun _ => False) vs →
    inlineItems vs = vs
  | [], _ => rfl
  | v :: rest, h => by
    rw [inlineItems, inline_of_isNative v h.1, inlineItems_of_areNative rest h.2]

theorem inlineEntries_of_areNative : (es : List (Value × Value)) →
    EntriesAreTrees (fun _ => False) es → inlineEntries es = es
  | [], _ => rfl
  | (_, v) :: rest, h => by
    rw [inlineEntries, inline_of_isNative v h.1, inlineEntries_of_areNative rest h.2]

end

end JsonWriter.Value
