import JsonWriter.Proofs.Layout.Settled

/-!
# The limit on nesting

A container may open at a depth if the depth one further in is within the limit. Main statement:
`render_nesting`, a value that goes wrong in no other way is too deep exactly if its lowest containers
are past the limit, wherever in it they are, and the fault names the first depth past the limit. A
depth of too many digits cannot be named, and is a fault of another kind.
-/

namespace JsonWriter

open Generator (Format)

namespace Value

mutual

/-- How many containers are open inside each other in a finite value. Bytes are an object with an
array in it. -/
def height : Value → Nat
  | sequence _ items => 1 + heightItems items
  | mapping _ entries => 1 + heightEntries entries
  | binary _ _ => 2
  | derived base => height base
  | own _ v => height v
  | _ => 0
termination_by structural v => v

def heightItems : List Value → Nat
  | [] => 0
  | v :: rest => max (height v) (heightItems rest)
termination_by structural vs => vs

def heightEntries : List (Value × Value) → Nat
  | [] => 0
  | (_, v) :: rest => max (height v) (heightEntries rest)
termination_by structural es => es

end

theorem height_content (v : Value) : v.content.height = v.height :=
  apply_content height (fun _ => rfl) (fun _ _ => rfl) v

theorem height_of_scalar : (v : Value) → Render.container? v = none → v.height = 0
  | derived base, h => height_of_scalar base h
  | own _ v, h => height_of_scalar v h
  | sequence _ _, h | mapping _ _, h | binary _ _, h => by simp [Render.container?, node] at h
  | null, _ | bool _, _ | int _, _ | float _, _ | str _, _ | setting _, _ | memory _, _
  | selfList _, _ | selfDictionary _, _ | outer _, _ | object _, _ | type _, _ | extension _, _
  | generator _, _ | described _, _ => rfl

theorem lt_heightItems (n : Nat) (vs : List Value) :
    n < heightItems vs ↔ ∃ v ∈ vs, n < v.height := by
  induction vs with
  | nil => simp [heightItems]
  | cons v rest ih =>
    simp only [heightItems, List.exists_mem_cons_iff, ← ih]
    omega

theorem lt_heightEntries (n : Nat) (es : List (Value × Value)) :
    n < heightEntries es ↔ ∃ e ∈ es, n < e.2.height := by
  induction es with
  | nil => simp [heightEntries]
  | cons e rest ih =>
    simp only [heightEntries, List.exists_mem_cons_iff, ← ih]
    omega

theorem height_le_heightItems {w : Value} {vs : List Value} (hw : w ∈ vs) :
    w.height ≤ heightItems vs :=
  Nat.not_lt.mp fun h => Nat.lt_irrefl _ ((lt_heightItems _ vs).mpr ⟨w, hw, h⟩)

theorem height_le_heightEntries {e : Value × Value} {es : List (Value × Value)} (he : e ∈ es) :
    e.2.height ≤ heightEntries es :=
  Nat.not_lt.mp fun h => Nat.lt_irrefl _ ((lt_heightEntries _ es).mpr ⟨e, he, h⟩)

theorem height_rawEntries (kind : BinaryKind) (data : List UInt8) :
    (dictionary (rawEntries kind data)).height = 2 := by
  have hbytes : heightItems (data.map fun b => int b.toNat) = 0 := by
    induction data with
    | nil => rfl
    | cons b rest ih => simp [heightItems, height, ih]
  simp [dictionary, rawEntries, list, height, heightEntries, hbytes]

theorem height_of_sequence {v : Value} {kind : SequenceKind} {items : List Value}
    (h : v.content = .sequence kind items) : v.height = 1 + heightItems items := by
  rw [← height_content, h, height]

theorem height_of_mapping {v : Value} {kind : MappingKind} {entries : List (Value × Value)}
    (h : v.content = .mapping kind entries) : v.height = 1 + heightEntries entries := by
  rw [← height_content, h, height]

theorem height_of_binary {v : Value} {kind : BinaryKind} {data : List UInt8}
    (h : v.content = .binary kind data) : v.height = (dictionary (rawEntries kind data)).height := by
  rw [← height_content, h, height_rawEntries, height]

end Value

/-! ## One container -/

theorem Number.exceeds_of_whole? {x : Number} {m : Int} (h : x.whole? = some m) (n : Int) :
    (Number.whole n).exceeds x = decide (m < n) := by
  cases x <;> simp_all [Number.whole?, exceeds, dyadic?]

theorem Number.isZero_of_whole? {x : Number} {m : Int} (h : x.whole? = some m) :
    x.isZero = decide (m = 0) := by
  cases x with
  | truth b =>
    obtain rfl := Option.some.inj h
    cases b <;> rfl
  | whole n =>
    obtain rfl := Option.some.inj h
    rfl
  | floating y => simp [Number.whole?] at h

/-- What comes of a container that opens at a depth, where a whole number limits nesting. -/
theorem checkNesting_eq {limit depth : Value} {x : Number} {m d : Int} (hx : limit.number? = some x)
    (hm : x.whole? = some m) (hd : depth.int? = some d) :
    Generator.checkNesting limit depth =
      if m ≠ 0 ∧ m < d + 1 then .error (.tooDeep (.whole (d + 1)) x) else .ok () := by
  have hzero : Generator.isUnlimited limit = decide (m = 0) := by
    simp [Generator.isUnlimited, hx, Number.isZero_of_whole? hm]
  have hbound (current : Number) : limit.bound current = .ok x := by simp [Value.bound, hx]
  simp only [Generator.checkNesting, hzero, Value.succ_of_int? hd, hbound, bind, Except.bind,
    Number.exceeds_of_whole? hm]
  by_cases h0 : m = 0
  · simp [h0]
  · simp [h0]

/-- The format without a limit on nesting. -/
def Generator.Format.unlimited (f : Format) : Format := { f with maxNesting := .int 0 }

namespace Render

section

variable {tokens : Value → Value → Except Fault Text} {keys : Value → Except Fault Text}
  {f : Format} {ι : Type} {entries : List ι}

/-- Of entries that go wrong in one way only, the fault is that of any of them. -/
theorem fill_limited {free limited : ι → Except Fault (List Part)} {bad : ι → Prop}
    [DecidablePred bad] {e : Fault}
    (h : ∀ a ∈ entries, ∀ ps, free a = .ok ps → limited a = if bad a then .error e else .ok ps)
    {newline : Text} {depth : Number} {first : Bool} {parts : List Part}
    (hfree : fill (.knowing tokens keys) f.unlimited newline depth first (entries.map free) =
      .ok parts) :
    fill (.knowing tokens keys) f newline depth first (entries.map limited) =
      if ∃ a ∈ entries, bad a then .error e else .ok parts := by
  induction entries generalizing first parts with
  | nil => simpa [fill] using hfree
  | cons a rest ih =>
    rw [List.map_cons, fill_cons_eq_ok] at hfree
    obtain ⟨before, entry, more, hgap, ha, hmore, rfl⟩ := hfree
    have hgap' : gap f newline depth first = .ok before := hgap
    have hrest := ih (fun b hb => h b (List.mem_cons_of_mem a hb)) hmore
    have hhead := h a List.mem_cons_self entry ha
    simp only [List.map_cons, fill, Scribe.knowing] at hrest ⊢
    rw [hgap', hhead, hrest]
    by_cases hbad : bad a
    · simp [hbad, bind, Except.bind]
    · by_cases hsome : ∃ b ∈ rest, bad b
      · simp [hbad, hsome, bind, Except.bind]
      · simp [hbad, hsome, bind, Except.bind, pure, Except.pure]

variable {x : Number} {m : Int} (hx : f.maxNesting.number? = some x) (hm : x.whole? = some m)

include hx hm

/-- A container one higher than its highest entry is too deep if it is past the limit itself, or else
if an entry is too deep. -/
theorem block_limited {height : ι → Nat} {top : Nat}
    (htop : ∀ n, n < top ↔ ∃ a ∈ entries, n < height a)
    {free limited : Number → ι → Except Fault (List Part)} {d : Int}
    (h : ∀ a ∈ entries, ∀ ps, free (.whole (d + 1)) a = .ok ps →
      limited (.whole (d + 1)) a =
        if m ≠ 0 ∧ (m - (d + 1)).toNat < height a then
          .error (.tooDeep (.whole (max (d + 1) m + 1)) x)
        else .ok ps)
    {shape : Shape} {depth : Value} (hd : depth.int? = some d) {parts : List Part}
    (hfree : block (.knowing tokens keys) f.unlimited shape depth (fun inner =>
      entries.map (free inner)) = .ok parts) :
    block (.knowing tokens keys) f shape depth (fun inner => entries.map (limited inner)) =
      if m ≠ 0 ∧ (m - d).toNat < 1 + top then .error (.tooDeep (.whole (max d m + 1)) x)
      else .ok parts := by
  rw [block_eq_ok] at hfree
  obtain ⟨_, newline, inner, body, last, hnewline, hinner, hbody, hlast, rfl⟩ := hfree
  rw [Value.succ_of_int? hd, Except.ok.injEq] at hinner
  subst hinner
  have hnewline' : shape.newline f = .ok newline := by cases shape <;> exact hnewline
  have hlast' : ending f shape newline (Number.whole (d + 1)).pred = .ok last := hlast
  have hfill := fill_limited h hbody
  simp only [block, Scribe.knowing] at hfill ⊢
  rw [checkNesting_eq hx hm hd, hnewline', Value.succ_of_int? hd]
  by_cases hdeep : m ≠ 0 ∧ m < d + 1
  · have hmax : max d m = d := by omega
    have hhigh : m ≠ 0 ∧ (m - d).toNat < 1 + top := by omega
    simp only [hdeep, hhigh, hmax, bind, Except.bind, ne_eq, not_false_eq_true, and_self, ↓reduceIte]
  · have hhigh : (m ≠ 0 ∧ (m - d).toNat < 1 + top) ↔
        ∃ a ∈ entries, m ≠ 0 ∧ (m - (d + 1)).toNat < height a := by
      have := htop (m - (d + 1)).toNat
      simp only [and_left_comm (b := m ≠ 0), exists_and_left, ← this]
      omega
    simp only [hdeep, ↓reduceIte, bind, Except.bind, hfill, hhigh]
    by_cases hsome : ∃ a ∈ entries, m ≠ 0 ∧ (m - (d + 1)).toNat < height a
    · obtain ⟨a, ha, hm0, hlt⟩ := hsome
      have hle : d + 1 ≤ m := Int.not_lt.mp fun h => hdeep ⟨hm0, h⟩
      have hmax : max (d + 1) m = max d m := by
        rw [Int.max_eq_right hle, Int.max_eq_right (by omega)]
      rw [if_pos ⟨a, ha, hm0, hlt⟩, if_pos ⟨a, ha, hm0, hlt⟩, hmax]
    · simp only [hsome, hlast', ↓reduceIte, pure, Except.pure]

/-- Under a limit a value is too deep exactly if its height takes it past the limit. -/
theorem layOut_limited {v : Value} (hv : v.IsNative) {depth : Value} {d : Int}
    (hd : depth.int? = some d) {parts : List Part}
    (hfree : layOut (.knowing tokens keys) f.unlimited depth v = .ok parts) :
    layOut (.knowing tokens keys) f depth v =
      if m ≠ 0 ∧ (m - d).toNat < v.height then .error (.tooDeep (.whole (max d m + 1)) x)
      else .ok parts := by
  induction v, hv using Value.tree_induction generalizing depth d parts with
  | scalar v h hv =>
    rw [layOut_of_scalar _ _ _ hv] at hfree ⊢
    simpa [Value.height_of_scalar v hv] using hfree
  | sequence v h kind items hv ih =>
    rw [layOut_of_sequence _ _ _ hv] at hfree ⊢
    rw [Value.height_of_sequence hv]
    refine block_limited hx hm (Value.lt_heightItems · items) (fun w hw _ => ?_) hd hfree
    have hinner : (Value.int (d + 1)).int? = some (d + 1) := rfl
    exact (ih w hw).2 hinner
  | mapping v h kind entries hv ih =>
    rw [layOut_of_mapping _ _ _ hv] at hfree ⊢
    rw [Value.height_of_mapping hv]
    refine block_limited hx hm (Value.lt_heightEntries · entries) (fun e he ps hps => ?_) hd hfree
    rw [pair_eq_ok] at hps
    obtain ⟨label, colon, value, hlabel, hcolon, hvalue, rfl⟩ := hps
    have hcolon' : f.colon = .ok colon := hcolon
    have hinner : (Value.int (d + 1)).int? = some (d + 1) := rfl
    have hvalue' := (ih e he).2 hinner hvalue
    simp only [pair, Scribe.knowing, Number.value] at hvalue' ⊢
    rw [hlabel, hcolon', hvalue']
    by_cases hdeep : m ≠ 0 ∧ (m - (d + 1)).toNat < e.2.height
    · simp only [hdeep, bind, Except.bind, ne_eq, not_false_eq_true, and_self, ↓reduceIte]
    · simp only [hdeep, bind, Except.bind, pure, Except.pure, List.cons_append, List.nil_append,
        ↓reduceIte]
  | binary v h kind data hv ih =>
    rw [layOut_of_binary _ _ _ hv] at hfree ⊢
    rw [Value.height_of_binary hv]
    exact ih.2 hd hfree

end

end Render

/-! ## Rendering -/

/-- The text of a value at a depth, without a limit on nesting. -/
def renderUnlimited (g : Generator) (v depth : Value) : Action Text := do
  let parts ← Render.parts (fun _ _ => Action.fail .endless) g.format.unlimited v depth
  Action.ofExcept (Render.Part.join parts)

theorem renderUnlimited_settles (g : Generator) {v : Value} (hv : v.IsNative) (depth : Value)
    (s : Session) :
    Action.Settles s.Alike (renderUnlimited g v depth) (do
      Render.Part.join (← Render.layOut (.outcome g.format s) g.format.unlimited depth v)) := by
  rw [renderUnlimited, Render.parts_eq_layOut _ _ hv.isFinite]
  exact (Render.layOut_settles _ _ s hv depth).bind fun parts _ => Action.settles_ofExcept _

/-- A value without objects that write themselves, all of whose nodes can be written, is written
unless there is a limit that a container in it exceeds. The fault then names the limit and the first
depth past it, or the depth of the value if that is past the limit already, as long as it has no more
digits than can be written. -/
theorem render_nesting {v : Value} (hv : v.IsNative) {s : Session} {id : Nat} {g : Generator}
    (hg : s.generator? id = some g) {limit : Number} {m : Int}
    (hlimit : g.maxNesting.number? = some limit) (hm : limit.whole? = some m) {depth : Option Value}
    {d : Int} (hd : (depth.getD g.depth).int? = some d) {t : Text}
    (hother : (renderUnlimited g v (depth.getD g.depth) s).1 = .ok t) :
    (render v id depth s).1 =
      if m ≠ 0 ∧ 0 < v.height ∧ m < d + v.height then
        if (max d m + 1).natAbs < Decimal.tenTo Decimal.digitLimit then
          .error (.nesting (.whole (max d m + 1)) limit)
        else .error (.value .tooManyDigits)
      else .ok t := by
  rw [(renderUnlimited_settles g hv _ s s (.refl s)).1, bind_eq_ok] at hother
  obtain ⟨parts, hfree, hjoin⟩ := hother
  have hrender := (renderAt_settles v.rank hv id depth s s (.refl s)).1
  simp only [hg, Option.getD_some] at hrender
  have hlimited := Render.layOut_limited hlimit hm hv hd hfree
  rw [render, hrender, Render.Scribe.outcome, hlimited]
  have hcond : (m ≠ 0 ∧ (m - d).toNat < v.height) ↔ (m ≠ 0 ∧ 0 < v.height ∧ m < d + v.height) := by
    omega
  simp only [hcond]
  split
  · simp only [bind, Except.bind, Fault.tooDeep, Number.IsShort, Decimal.ofInt?]
    split <;> simp_all
  · exact hjoin

/-- An object that holds an empty list and bytes beside each other. -/
def bytesSample : Value :=
  .dictionary [(.str (text "a"), .list []), (.str (text "b"), .binary .bytes [1])]

/-- The bytes end two levels further in than the list, which is one more than the limit allows. -/
theorem render_bytesSample :
    bytesSample.height = 3 ∧
      (render bytesSample 0 (some (.int 98))
        { Session.initial true with generators := #[.initial] }).1 =
          .error (.nesting (.whole 101) (.whole 100)) := by
  have hv : bytesSample.IsNative := ⟨trivial, trivial, trivial⟩
  have hother : (renderUnlimited .initial bytesSample (.int 98)
      { Session.initial true with generators := #[.initial] }).1 =
        .ok (text "\x7b\"a\":[],\"b\":\x7b\"json_class\":\"bytes\",\"raw\":[1]\x7d\x7d") := by
    rw [(renderUnlimited_settles _ hv _ _ _ (.refl _)).1]
    decide +kernel
  have hlimit : Generator.initial.maxNesting.number? = some (.whole 100) := rfl
  have hdepth : ((some (.int 98)).getD Generator.initial.depth).int? = some 98 := rfl
  refine ⟨rfl, ?_⟩
  rw [render_nesting hv rfl hlimit rfl hdepth hother]
  decide +kernel

/-- A generator whose depth has one digit more than can be written. -/
def farGenerator : Generator :=
  { Generator.initial with depth := .int (Decimal.tenTo Decimal.digitLimit : Nat) }

/-- An empty list is past the limit there, and nothing else is wrong with it, but the fault is not that
of nesting. -/
theorem render_farGenerator :
    (renderUnlimited farGenerator (.list []) farGenerator.depth
      { Session.initial true with generators := #[farGenerator] }).1 = .ok (text "[]") ∧
    farGenerator.maxNesting.int? = some 100 ∧ (Value.list []).height = 1 ∧
    (100 : Int) < (Decimal.tenTo Decimal.digitLimit : Nat) + 1 ∧
    (render (.list []) 0 none { Session.initial true with generators := #[farGenerator] }).1 =
      .error (.value .tooManyDigits) := by
  have hv : (Value.list []).IsNative := trivial
  refine ⟨?_, rfl, rfl, by decide +kernel, ?_⟩
  · rw [(renderUnlimited_settles _ hv _ _ _ (.refl _)).1]
    decide +kernel
  · rw [render, (renderAt_settles _ hv _ _ _ _ (.refl _)).1]
    decide +kernel

end JsonWriter
