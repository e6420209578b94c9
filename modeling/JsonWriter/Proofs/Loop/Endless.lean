import JsonWriter.Proofs.Loop.Depths
import JsonWriter.Proofs.Success

/-!
# Values that hold themselves

Under a limit on nesting the turns of the loop end for every value, also for one that holds itself: what
is opened is never further in than the limit, and each open container has finitely many entries. Main
statement: `render_endless`, a value with containers in each other without end is refused as too deep,
unless something before goes wrong in a way that it also does without the limit.
-/

namespace JsonWriter

open Generator (Format)

namespace Value

/-- What stands further in stands in an entry. -/
theorem nested_succ_iff {v : Value} {shape : Render.Shape} {entries : List Render.Entry}
    (h : Render.container? v = some (shape, entries)) {k : Nat} {u : Value} :
    v.Nested (k + 1) u ↔ ∃ e ∈ entries, e.value.Nested k u := by
  unfold Render.container? at h
  split at h
  · next items hnode =>
    obtain ⟨-, rfl⟩ := Prod.mk.inj (Option.some.inj h)
    simp only [List.mem_map, exists_exists_and_eq_and]
    constructor
    · intro hu
      cases hu with
      | item hv hw hu => exact ⟨_, Node.array.inj (hv.symm.trans hnode) ▸ hw, hu⟩
      | entry hv _ _ => cases hv.symm.trans hnode
    · rintro ⟨w, hw, hu⟩
      exact .item hnode hw hu
  · next es hnode =>
    obtain ⟨-, rfl⟩ := Prod.mk.inj (Option.some.inj h)
    simp only [List.mem_map, exists_exists_and_eq_and]
    constructor
    · intro hu
      cases hu with
      | item hv _ _ => cases hv.symm.trans hnode
      | entry hv he hu => exact ⟨_, Node.object.inj (hv.symm.trans hnode) ▸ he, hu⟩
    · rintro ⟨e, he, hu⟩
      exact .entry hnode he hu
  · cases h

/-- There is something in the value inside any number of containers. -/
def IsEndless (v : Value) : Prop := ∀ n, ∃ w, v.Nested n w

theorem Nested.of_le {v u : Value} {n : Nat} (h : v.Nested n u) {k : Nat} (hk : k ≤ n) :
    ∃ w, v.Nested k w := by
  induction h generalizing k with
  | self v =>
    obtain rfl := Nat.le_zero.mp hk
    exact ⟨v, .self v⟩
  | @item v items w u n hv hw _ ih =>
    cases k with
    | zero => exact ⟨v, .self v⟩
    | succ k =>
      obtain ⟨x, hx⟩ := ih (Nat.le_of_succ_le_succ hk)
      exact ⟨x, .item hv hw hx⟩
  | @entry v entries e u n hv he _ ih =>
    cases k with
    | zero => exact ⟨v, .self v⟩
    | succ k =>
      obtain ⟨x, hx⟩ := ih (Nat.le_of_succ_le_succ hk)
      exact ⟨x, .entry hv he hx⟩

theorem not_isEndless_of_scalar {v : Value} (h : Render.container? v = none) : ¬ v.IsEndless := by
  intro hendless
  obtain ⟨w, hw⟩ := hendless 1
  cases hw with
  | item hv _ _ | entry hv _ _ => simp [Render.container?, hv] at h

/-- Where there is something in one of finitely many entries inside any number of containers, one of them
is endless. -/
theorem exists_isEndless {entries : List Render.Entry}
    (h : ∀ n, ∃ e ∈ entries, ∃ w, e.value.Nested n w) : ∃ e ∈ entries, e.value.IsEndless := by
  induction entries with
  | nil =>
    obtain ⟨e, he, -⟩ := h 0
    cases he
  | cons e rest ih =>
    by_cases hendless : e.value.IsEndless
    · exact ⟨e, List.mem_cons_self, hendless⟩
    · obtain ⟨m, hm⟩ := Classical.not_forall.mp hendless
      have hrest : ∀ n, ∃ e ∈ rest, ∃ w, e.value.Nested n w := by
        intro n
        -- What is far enough in is not in the first entry.
        obtain ⟨e', he', w, hw⟩ := h (max m n)
        obtain rfl | he' := List.mem_cons.mp he'
        · exact absurd (hw.of_le (Nat.le_max_left m n)) hm
        · exact ⟨e', he', hw.of_le (Nat.le_max_right m n)⟩
      obtain ⟨e', he', hendless'⟩ := ih hrest
      exact ⟨e', List.mem_cons_of_mem _ he', hendless'⟩

/-- Of finitely many entries one is endless if the container is. -/
theorem IsEndless.entry {v : Value} (h : v.IsEndless) {shape : Render.Shape}
    {entries : List Render.Entry} (hv : Render.container? v = some (shape, entries)) :
    ∃ e ∈ entries, e.value.IsEndless := by
  refine exists_isEndless fun n => ?_
  obtain ⟨w, hw⟩ := h (n + 1)
  obtain ⟨e, he, hw⟩ := (nested_succ_iff hv).mp hw
  exact ⟨e, he, w, hw⟩

end Value

namespace Render

namespace Loop

section

variable {extend : Extender} {f : Format}

/-- The loop ends without a fault when nothing is pending and no container is open. -/
theorem nothing_left_of_turn {c : Loop} {parts : List Part} {s : Session}
    (h : c.turn extend f = .inr (.ok parts, s)) : c.pending = none ∧ c.frames = [] := by
  obtain ⟨_ | p, _ | ⟨fr, frames⟩, w, s'⟩ := c
  · exact ⟨rfl, rfl⟩
  · simp only [turn] at h
    split at h <;> split at h <;> cases h
  · simp only [turn] at h
    split at h <;> split at h <;> cases h
  · simp only [turn] at h
    split at h <;> split at h <;> cases h

/-- Something endless is still to come. -/
def HasEndless (c : Loop) : Prop :=
  (∃ p ∈ c.pending, p.value.IsEndless) ∨ ∃ fr ∈ c.frames, ∃ e ∈ fr.rest, e.value.IsEndless

/-- No turn gets past what is endless. -/
theorem HasEndless.turn {c c' : Loop} (h : c.HasEndless) (hturn : c.turn extend f = .inl c') :
    c'.HasEndless := by
  cases turned_of_turn hturn with
  | entered hv he =>
    obtain ⟨-, -, -, rfl⟩ := Visit.enter_eq_ok he
    obtain ⟨p, hp, hendless⟩ | ⟨fr, hfr, hentry⟩ := h
    · obtain rfl := Option.some.inj hp
      exact .inr ⟨_, List.mem_cons_self, hendless.entry hv⟩
    · exact .inr ⟨fr, List.mem_cons_of_mem _ hfr, hentry⟩
  | leaf hv ht =>
    obtain ⟨p, hp, hendless⟩ | hframes := h
    · obtain rfl := Option.some.inj hp
      exact absurd hendless (Value.not_isEndless_of_scalar hv)
    · exact .inr hframes
  | closed hr hc =>
    obtain ⟨p, hp, -⟩ | ⟨fr, hfr, e, he, hentry⟩ := h
    · cases hp
    · obtain rfl | hfr := List.mem_cons.mp hfr
      · simp [hr] at he
      · exact .inr ⟨fr, hfr, e, he, hentry⟩
  | advanced hr hl =>
    obtain ⟨p, hp, -⟩ | ⟨fr, hfr, e, he, hentry⟩ := h
    · cases hp
    · obtain rfl | hfr := List.mem_cons.mp hfr
      · obtain rfl | he := List.mem_cons.mp (hr ▸ he)
        · exact .inl ⟨_, rfl, hentry⟩
        · exact .inr ⟨_, List.mem_cons_self, e, he, hentry⟩
      · exact .inr ⟨fr, List.mem_cons_of_mem _ hfr, e, he, hentry⟩

theorem HasEndless.reaches {c c' : Loop} (h : c.HasEndless) (hreaches : c.Reaches extend f c') :
    c'.HasEndless := hreaches.keeps (fun _ _ hc hturn => hc.turn hturn) h

/-- The last turn goes wrong if something endless is still to come. -/
theorem HasEndless.isError {c : Loop} (h : c.HasEndless) {r : Outcome} (hlast : c.turn extend f = .inr r) :
    ∃ e, r.1 = .error e := by
  obtain ⟨_ | parts, s⟩ := r
  · exact ⟨_, rfl⟩
  · obtain ⟨hpending, hframes⟩ := nothing_left_of_turn hlast
    rw [HasEndless, hpending, hframes] at h
    simp at h

end

end Loop

/-! ## Under a limit -/

section

variable {extend : Extender} {f : Format} {x : Number} {m : Int} (hx : f.maxNesting.number? = some x)
  (hm : x.whole? = some m)

include hx hm

/-- A visited container is refused if it is past the limit, and opened as without a limit if not. -/
theorem enter_limited {p : Visit} {n : Int} (hn : p.depth.int? = some n) (shape : Shape)
    (entries : List Entry) :
    p.enter f shape entries =
      if m ≠ 0 ∧ m < n + 1 then .error (.tooDeep (.whole (n + 1)) x)
      else p.enter f.unlimited shape entries := by
  have hnewline : shape.newline f.unlimited = shape.newline f := by cases shape <;> rfl
  have hfree : Generator.checkNesting f.unlimited.maxNesting p.depth = .ok () := rfl
  simp only [Visit.enter, checkNesting_eq hx hm hn, hnewline, hfree]
  split
  · rfl
  · rfl

/-- Visits within the limit have the room that they need. -/
theorem hasRoom_limited (hm0 : m ≠ 0) :
    HasRoom f fun p => ∃ n, p.depth.int? = some n ∧ (m - n).toNat < p.room := by
  rintro p ⟨n, hn, hlt⟩ shape entries fr hv he
  obtain ⟨hdepth, -, -, -⟩ := Visit.enter_eq_ok he
  rw [p.depth_bare, Value.succ_of_int? hn, Except.ok.injEq] at hdepth
  have hle : n + 1 ≤ m := by
    rw [enter_limited hx hm (p := p.bare) hn] at he
    by_contra hlt
    rw [if_pos ⟨hm0, by omega⟩] at he
    cases he
  have hinner : fr.depth.value.int? = some (n + 1) := by rw [← hdepth]; rfl
  -- Whether the container holds itself or not, what is left covers what the limit still allows.
  unfold roomWithin
  split
  · cases hroom : p.room with
    | zero => omega
    | succ room => exact ⟨room, rfl, fun e _ => ⟨n + 1, hinner, by simp only; omega⟩⟩
  · exact ⟨p.room, rfl, fun e _ => ⟨n + 1, hinner, by simp only; omega⟩⟩

variable (extend) in
/-- Under a limit the turns end, and with what the writer comes to. -/
theorem comes_parts_limited (hm0 : m ≠ 0) (v : Value) {depth : Value} {d : Int}
    (hd : depth.int? = some d) (s : Session) :
    (Loop.start v depth s).Comes extend f (parts extend f v depth s) := by
  refine comes_parts extend (hasRoom_limited hx hm hm0) ⟨d, hd, ?_⟩ s
  obtain ⟨y, hy, hyd⟩ := Value.number?_of_int? hd
  have hfloor {z : Number} {k : Int} (h : z.whole? = some k) : z.floor? = some k := by
    cases z <;> simp_all [Number.whole?, Number.floor?]
  simp only [roomFor, hx, hy, Option.bind_some, hfloor hm, hfloor hyd]
  omega

namespace Loop

/-- No open container is further in than the limit. -/
def IsWithin (m d : Int) (c : Loop) : Prop := c.frames ≠ [] → d + c.frames.length ≤ m

variable {v depth : Value} {d : Int} (hd : depth.int? = some d) {c : Loop}
  (hc : c.IsPlaced v depth d) (hwithin : c.IsWithin m d)

include hd hc hwithin

variable (extend) in
/-- Under a limit the next turn is the one without a limit, or it refuses a container one past the
limit. -/
theorem turn_limited :
    c.turn extend f = c.turn extend f.unlimited ∨
      c.turn extend f = .inr (.error (.tooDeep (.whole (max d m + 1)) x), c.session) := by
  obtain ⟨_ | p, frames, w, s⟩ := c
  · cases frames with
    | nil => exact .inl rfl
    | cons fr frames => exact .inl rfl
  · cases hv : container? p.value with
    | none => exact .inl (by simp only [turn, hv]; rfl)
    | some container =>
      obtain ⟨shape, entries⟩ := container
      have hdepth : p.depth.int? = some (d + frames.length) := hc.int?_depth hd rfl
      simp only [turn, hv, enter_limited hx hm hdepth]
      by_cases hdeep : m ≠ 0 ∧ m < d + frames.length + 1
      · have hmax : max d m = d + frames.length := by
          cases frames with
          | nil => simp only [List.length_nil] at hdeep ⊢; omega
          | cons fr frames =>
            have hle : d + (fr :: frames).length ≤ m := hwithin (List.cons_ne_nil _ _)
            omega
        exact .inr (by rw [if_pos hdeep, hmax])
      · exact .inl (by rw [if_neg hdeep])

omit hwithin in
theorem IsWithin.turn (hm0 : m ≠ 0) (hwithin : c.IsWithin m d) {c' : Loop}
    (hturn : c.turn extend f = .inl c') : c'.IsWithin m d := by
  cases turned_of_turn hturn with
  | @entered p shape entries fr frames w s hv he =>
    have hdepth : p.depth.int? = some (d + frames.length) := hc.int?_depth hd rfl
    rw [enter_limited hx hm hdepth] at he
    intro _
    by_contra hlt
    rw [if_pos ⟨hm0, by simpa [add_assoc] using hlt⟩] at he
    cases he
  | leaf hv ht => exact hwithin
  | @closed fr frames w parts s hr hclose =>
    intro _
    have hle : d + (fr :: frames).length ≤ m := hwithin (List.cons_ne_nil _ _)
    simp only [List.length_cons] at hle ⊢
    omega
  | advanced hr hl => exact fun _ => hwithin (List.cons_ne_nil _ _)

/-- Under a limit the loop comes to what it comes to without one, or to the refusal of a container one
past the limit. -/
theorem Comes.limited (hm0 : m ≠ 0) {r : Outcome} (h : c.Comes extend f r) :
    r.1 = .error (.tooDeep (.whole (max d m + 1)) x) ∨ c.Comes extend f.unlimited r := by
  induction h with
  | last h =>
    obtain hfree | hrefused := turn_limited extend hx hm hd hc hwithin
    · exact .inr (.last (hfree ▸ h))
    · obtain rfl := Sum.inr.inj (h.symm.trans hrefused)
      exact .inl rfl
  | next h _ ih =>
    obtain hfree | hrefused := turn_limited extend hx hm hd hc hwithin
    · obtain hdeep | hrest := ih (hc.turn hd h) (hwithin.turn hx hm hd hc hm0 h)
      · exact .inl hdeep
      · exact .inr (.next (hfree ▸ h) hrest)
    · cases h.symm.trans hrefused

end Loop

end

end Render

/-! ## Rendering -/

/-- Whatever the objects in a value do that write themselves, under a limit the turns end, and with what
the writer comes to. A value with containers in each other without end is refused one past the limit, or
one past its own depth if that is past the limit already, unless something before that goes wrong: then
the turns lead there without the limit too, while something endless is still to come, and the outcome is
the same. Rendering comes to the text of what the writer comes to. A depth of too many digits cannot be
named. -/
theorem render_endless (v : Value) {s : Session} {id : Nat} {g : Generator}
    (hg : s.generator? id = some g) {limit : Number} {m : Int}
    (hlimit : g.maxNesting.number? = some limit) (hm : limit.whole? = some m) (hm0 : m ≠ 0)
    {depth : Option Value} {d : Int} (hd : (depth.getD g.depth).int? = some d) :
    (∀ extend : Render.Extender,
      let start := Render.Loop.start v (depth.getD g.depth) s
      let outcome := Render.parts extend g.format v (depth.getD g.depth) s
      start.Comes extend g.format outcome ∧
        (v.IsEndless →
          outcome.1 = .error (if (max d m + 1).natAbs < Decimal.tenTo Decimal.digitLimit then
              .nesting (.whole (max d m + 1)) limit
            else .value .tooManyDigits) ∨
          ∃ c, start.Reaches extend g.format.unlimited c ∧ c.HasEndless ∧
            c.turn extend g.format.unlimited = .inr outcome ∧ ∃ e, outcome.1 = .error e)) ∧
    (render v id depth s).1 = (Render.parts (Extension.writeAt g v.rank) g.format v
      (depth.getD g.depth) s).1 >>= Render.Part.join := by
  refine ⟨fun extend => ?_, render_eq_parts hg v depth⟩
  have hcomes : (Render.Loop.start v (depth.getD g.depth) s).Comes extend g.format
      (Render.parts extend g.format v (depth.getD g.depth) s) :=
    Render.comes_parts_limited extend hlimit hm hm0 v hd s
  refine ⟨hcomes, fun hendless => ?_⟩
  have hplaced := Render.Loop.isPlaced_start v (depth.getD g.depth) d s
  have hstart : (Render.Loop.start v (depth.getD g.depth) s).HasEndless := .inl ⟨_, rfl, hendless⟩
  obtain hdeep | hfree := hcomes.limited hlimit hm hd hplaced (fun h => absurd rfl h) hm0
  · refine .inl (hdeep.trans (congrArg _ ?_))
    simp only [Fault.tooDeep, Number.IsShort, Decimal.ofInt?]
    split <;> simp_all
  · obtain ⟨c, hc, hlast⟩ := Render.Loop.comes_iff.mp hfree
    have hleft := hstart.reaches hc
    exact .inr ⟨c, hc, hleft, hlast, hleft.isError hlast⟩

/-- A list that holds itself and nothing else. -/
def cycleSample : Value := .selfList [.outer 0]

theorem isEndless_cycleSample : cycleSample.IsEndless := by
  intro n
  induction n with
  | zero => exact ⟨_, .self _⟩
  | succ n ih =>
    obtain ⟨w, hw⟩ := ih
    exact ⟨w, .item (v := cycleSample) rfl List.mem_cons_self hw⟩

/-- The loop visits the list that holds itself, or has opened it and not yet taken its entry. -/
inductive InCycle : Render.Loop → Prop
  | visiting {depth : Value} {n : Int} {frames : List Render.Frame} {w : List Render.Part} {s : Session}
    (hd : depth.int? = some n) : InCycle ⟨some ⟨cycleSample, depth, 0⟩, frames, w, s⟩
  | opened {n : Int} {frames : List Render.Frame} {w : List Render.Part} {s : Session} :
    InCycle ⟨none, ⟨.array, [], .whole n, 0, [⟨none, cycleSample⟩], true⟩ :: frames, w, s⟩

/-- Without a limit the list is opened in itself for ever. -/
theorem InCycle.turn {extend : Render.Extender} {f : Format} (hlimit : f.maxNesting = .int 0)
    (hnewline : f.arrayNewline = .ok []) {c : Render.Loop} (h : InCycle c) :
    ∃ c', c.turn extend f = .inl c' ∧ InCycle c' := by
  cases h with
  | @visiting depth n frames w s hd =>
    refine ⟨⟨none, ⟨.array, [], .whole (n + 1), 0, [⟨none, cycleSample⟩], true⟩ :: frames,
      Render.opening ⟨.array, [], .whole (n + 1), 0, [⟨none, cycleSample⟩], true⟩ :: w, s⟩,
      ?_, .opened⟩
    have hentries : Render.container? cycleSample = some (.array, [⟨none, cycleSample⟩]) := rfl
    have hunlimited : Generator.checkNesting f.maxNesting depth = .ok () := by rw [hlimit]; rfl
    simp only [Render.Loop.turn, hentries, Render.Visit.enter, hunlimited, Render.Shape.newline,
      hnewline, Value.succ_of_int? hd]
    rfl
  | opened => exact ⟨_, rfl, .visiting rfl⟩

/-- A list that holds itself, after a null in another list. -/
def endlessSample : Value := .list [.null, cycleSample]

theorem render_endlessSample :
    endlessSample.IsEndless ∧
      (render endlessSample 0 (some (.int 98))
        { Session.initial true with generators := #[.initial] }).1 =
          .error (.nesting (.whole 101) (.whole 100)) := by
  have hendless : endlessSample.IsEndless := by
    intro n
    cases n with
    | zero => exact ⟨_, .self _⟩
    | succ n =>
      obtain ⟨w, hw⟩ := isEndless_cycleSample n
      exact ⟨w, .item (v := endlessSample) rfl (List.mem_cons_of_mem _ List.mem_cons_self) hw⟩
  refine ⟨hendless, ?_⟩
  have hg : { Session.initial true with generators := #[.initial] }.generator? 0 = some .initial := rfl
  have hm : (Number.whole 100).whole? = some 100 := rfl
  have hd : ((some (.int 98)).getD Generator.initial.depth).int? = some 98 := rfl
  obtain ⟨hcomes, hrender⟩ := render_endless endlessSample hg rfl hm (by decide) hd
  obtain ⟨-, hdeep⟩ := hcomes (Extension.writeAt .initial endlessSample.rank)
  rw [hrender]
  obtain hdeep | ⟨c, hc, -, hlast, -⟩ := hdeep hendless
  · rw [hdeep]
    decide +kernel
  · -- Without the limit the null is written and the list opened in itself for ever.
    have hfree := Render.Loop.comes_iff.mpr ⟨c, hc, hlast⟩
    have hopened := (Render.Loop.comes_of_turn (by rfl) _).mp hfree
    have hfirst := (Render.Loop.comes_of_turn (by rfl) _).mp hopened
    have hwritten := (Render.Loop.comes_of_turn (by rfl) _).mp hfirst
    have hsecond := (Render.Loop.comes_of_turn (by rfl) _).mp hwritten
    exact absurd hsecond (Render.Loop.not_comes (fun c (hc : InCycle c) => hc.turn rfl rfl)
      (InCycle.visiting rfl) _)

/-- At a depth of too many digits the list is past the limit, and nothing else is wrong with it, but the
fault is not that of nesting. -/
theorem render_farCycle :
    cycleSample.IsEndless ∧
      farGenerator.maxNesting.int? = some 100 ∧
      farGenerator.depth.int? = some (Decimal.tenTo Decimal.digitLimit : Nat) ∧
      (∀ extend s r,
        ¬ (Render.Loop.start cycleSample farGenerator.depth s).Comes extend
          farGenerator.format.unlimited r) ∧
      (render cycleSample 0 none { Session.initial true with generators := #[farGenerator] }).1 =
        .error (.value .tooManyDigits) := by
  refine ⟨isEndless_cycleSample, rfl, rfl, fun extend s r => ?_, ?_⟩
  · exact Render.Loop.not_comes (fun c (hc : InCycle c) => hc.turn rfl rfl) (InCycle.visiting rfl) r
  · have hrefused : Generator.checkNesting farGenerator.maxNesting farGenerator.depth =
        .error (.value .tooManyDigits) := by decide +kernel
    have hentries : Render.container? cycleSample = some (.array, [⟨none, cycleSample⟩]) := rfl
    have henter (room : Nat) : Render.enter farGenerator.format cycleSample .array [⟨none, cycleSample⟩]
        farGenerator.depth room = .error (.value .tooManyDigits) := congrArg (· >>= _) hrefused
    have hparts (extend : Render.Extender) (s : Session) :
        Render.parts extend farGenerator.format cycleSample farGenerator.depth s =
          (.error (.value .tooManyDigits), s) :=
      Render.run_refused (p := ⟨_, _, _⟩) _ _ _ _ _ hentries (henter _)
    have hg : { Session.initial true with generators := #[farGenerator] }.generator? 0 =
        some farGenerator := rfl
    rw [render_eq_parts hg, Option.getD_none, hparts]
    rfl

end JsonWriter
