import JsonWriter.Proofs.Counting.Rows
import JsonWriter.Proofs.Session.Uncounted

/-!
# The calls of an action

What an action counts does not depend on what was counted before, nor on the snapshot that is kept. So what
a script does to the counters is a list of calls and clears. Main statements: `counts_compositional`,
`Step.exists_runs` and `Step.kept_after`.
-/

namespace JsonWriter

/-- The sizes are whole numbers. -/
def Call.IsWhole (c : Call) : Prop := c.duration.int?.isSome ∧ c.size.int?.isSome

namespace Profile

/-- The counters after some calls. -/
def countAll (p : Profile) (calls : List Call) : Profile := p.after (calls.map .call)

@[simp] theorem countAll_nil (p : Profile) : p.countAll [] = p := rfl

theorem countAll_append (p : Profile) (calls more : List Call) :
    p.countAll (calls ++ more) = (p.countAll calls).countAll more := by
  rw [countAll, List.map_append, after_append]
  rfl

theorem countAll_singleton (p : Profile) (c : Call) : p.countAll [c] = p.count c := rfl

end Profile

namespace Session

/-- The session with other counters and another snapshot. -/
def holding (s : Session) (p : Profile) (kept : Snapshot) : Session := { s with profile := p, kept }

variable {s : Session} (p : Profile) (kept : Snapshot)

theorem describe_holding : (s.holding p kept).describe = s.describe := describe_congr rfl rfl

theorem compare_holding : (s.holding p kept).compare = s.compare := compare_congr rfl

theorem record_holding (hs : s.profiling = true) (name : Text) (size : Value) :
    ((s.holding p kept).record name size).2 = s.holding (p.count ⟨name, .int 0, size⟩) kept := by
  have hprofiling : (s.holding p kept).profiling = true := hs
  rw [record, if_pos hprofiling]
  rfl

end Session

namespace Action

variable {α β : Type}

/-- Where calls are counted the action counts some calls of whole sizes, and what else it does is the same
whatever was counted before. -/
def Counts (x : Action α) : Prop :=
  ∀ s : Session, s.profiling = true → ∃ (r : Except Fault α) (t : Session) (calls : List Call),
    t.profiling = true ∧ (∀ c ∈ calls, c.IsWhole) ∧
      ∀ p kept, x (s.holding p kept) = (r, t.holding (p.countAll calls) kept)

/-- What counts no calls. -/
theorem counts_of_eq {x : Action α} {r : Session → Except Fault α} {t : Session → Session}
    (ht : ∀ s, (t s).profiling = s.profiling)
    (h : ∀ s p kept, x (s.holding p kept) = (r s, (t s).holding p kept)) : Counts x :=
  fun s hs => ⟨r s, t s, [], (ht s).trans hs, List.forall_mem_nil _, fun p kept => h s p kept⟩

theorem Counts.bind {x : Action α} {k : α → Action β} (hx : Counts x) (hk : ∀ a, Counts (k a)) :
    Counts (x >>= k) := by
  intro s hs
  obtain ⟨r, t, calls, ht, hcalls, hx⟩ := hx s hs
  cases r with
  | error f =>
    refine ⟨.error f, t, calls, ht, hcalls, fun p kept => ?_⟩
    rw [bind_apply, hx, resume_error]
  | ok a =>
    obtain ⟨r, u, more, hu, hmore, hk⟩ := hk a t ht
    refine ⟨r, u, calls ++ more, hu, List.forall_mem_append.mpr ⟨hcalls, hmore⟩, fun p kept => ?_⟩
    rw [bind_apply, hx, resume_ok, hk, Profile.countAll_append]

theorem Counts.counted {x : Action α} (hx : Counts x) (name : Text) (size : Nat) :
    Counts (counted name size x) := by
  intro s hs
  obtain ⟨r, t, calls, ht, hcalls, hx⟩ := hx s hs
  refine ⟨r, t, calls ++ [⟨name, .int 0, .int size⟩], ht, ?_, fun p kept => ?_⟩
  · exact List.forall_mem_append.mpr ⟨hcalls, List.forall_mem_singleton.mpr ⟨rfl, rfl⟩⟩
  · rw [Action.counted, hx]
    simp only [Session.record_holding _ _ ht, Profile.countAll_append, Profile.countAll_singleton]

theorem Counts.logged {x : Action α} (hx : Counts x) : Counts (logged x) := by
  intro s hs
  obtain ⟨r, t, calls, ht, hcalls, hx⟩ := hx s hs
  cases r with
  | ok a => exact ⟨.ok a, t, calls, ht, hcalls, fun p kept => by rw [Action.logged, hx]⟩
  | error f =>
    refine ⟨.error f, if f.IsGeneration then { t with log := t.log.push (.failed f) } else t, calls, ?_,
      hcalls, fun p kept => ?_⟩
    · split
      · exact ht
      · exact ht
    · rw [Action.logged, hx]
      simp only
      split
      · rfl
      · rfl

theorem counts_compositional : Compositional fun _ x => Counts x where
  ofExcept r := counts_of_eq (fun _ => rfl) fun _ _ _ => rfl
  bind hx hk := hx.bind hk
  counted name size hx := hx.counted name size
  logged hx := hx.logged
  log r := counts_of_eq (t := fun s => { s with log := s.log.push r }) (fun _ => rfl) fun _ _ _ => rfl
  literal? v := counts_of_eq (r := fun s => .ok (v.literal? s.describe)) (fun _ => rfl) fun s p kept => by
    rw [literal?, Session.describe_holding]
  shown v := counts_of_eq (r := fun s => (shown v s).1) (t := id) (fun _ => rfl) fun s p kept => by
    simp only [shown, Session.describe_holding]
    split <;> rfl
  identity := counts_of_eq (r := fun s => .ok s.identities)
    (t := fun s => { s with identities := s.identities + 1 }) (fun _ => rfl) fun _ _ _ => rfl
  equal i j := counts_of_eq (r := fun s => (equal i j s).1) (t := id) (fun _ => rfl) fun s p kept => by
    simp only [equal, Session.compare_holding]
    split <;> rfl
  generator id := counts_of_eq (r := fun s => .ok ((s.generator? id).getD .initial)) (t := fun s => s)
    (fun _ => rfl) fun _ _ _ => rfl
  replace id g := counts_of_eq
    (t := fun s => { s with generators := s.generators.setIfInBounds id g }) (fun _ => rfl) fun _ _ _ => rfl
  add g := counts_of_eq (r := fun s => .ok s.generators.size)
    (t := fun s => { s with generators := s.generators.push g }) (fun _ => rfl) fun _ _ _ => rfl
  slot name := counts_of_eq (r := fun s => (slot name s).1) (t := id) (fun _ => rfl) fun s p kept => by
    have hslot : (s.holding p kept).slot? name = s.slot? name := rfl
    simp only [slot, hslot]
    split <;> rfl
  setSlot name id := counts_of_eq (t := fun s => s.setSlot name id) (fun _ => rfl) fun _ _ _ => rfl

/-- As `Counts`, but what the action comes to may depend on what was counted, and the sizes are whole
numbers if the condition holds. -/
def CountsIf (whole : Prop) (x : Action α) : Prop :=
  ∀ s : Session, s.profiling = true → ∃ (t : Session) (calls : List Call),
    t.profiling = true ∧ (whole → ∀ c ∈ calls, c.IsWhole) ∧
      ∀ p kept, (x (s.holding p kept)).2 = t.holding (p.countAll calls) kept

variable {whole : Prop}

theorem Counts.countsIf {x : Action α} (hx : Counts x) : CountsIf whole x := by
  intro s hs
  obtain ⟨r, t, calls, ht, hcalls, hx⟩ := hx s hs
  exact ⟨t, calls, ht, fun _ => hcalls, fun p kept => by rw [hx]⟩

theorem Counts.bind_countsIf {x : Action α} {k : α → Action β} (hx : Counts x)
    (hk : ∀ a (s : Session), (x (s.holding .empty [])).1 = .ok a → CountsIf whole (k a)) :
    CountsIf whole (x >>= k) := by
  intro s hs
  obtain ⟨r, t, calls, ht, hcalls, hx⟩ := hx s hs
  cases r with
  | error f =>
    refine ⟨t, calls, ht, fun _ => hcalls, fun p kept => ?_⟩
    rw [bind_apply, hx, resume_error]
  | ok a =>
    obtain ⟨u, more, hu, hmore, hk⟩ := hk a s (by rw [hx]) t ht
    refine ⟨u, calls ++ more, hu, fun h => List.forall_mem_append.mpr ⟨hcalls, hmore h⟩, fun p kept => ?_⟩
    rw [bind_apply, hx, resume_ok, hk, Profile.countAll_append]

theorem Counts.countedAs {x : Action α} (hx : Counts x) (name : Text) {size : Value}
    (hsize : whole → size.int?.isSome) : CountsIf whole (countedAs name size x) := by
  intro s hs
  obtain ⟨r, t, calls, ht, hcalls, hx⟩ := hx s hs
  refine ⟨t, calls ++ [⟨name, .int 0, size⟩], ht, fun h => ?_, fun p kept => ?_⟩
  · exact List.forall_mem_append.mpr ⟨hcalls, List.forall_mem_singleton.mpr ⟨rfl, hsize h⟩⟩
  · have hrecord := Session.record_holding (p.countAll calls) kept ht name size
    rw [Action.countedAs, hx, Profile.countAll_append, Profile.countAll_singleton]
    simp only
    generalize (t.holding (p.countAll calls) kept).record name size = recorded at hrecord
    obtain ⟨_ | _, u⟩ := recorded
    · exact hrecord
    · exact hrecord

end Action

/-! ## Steps -/

namespace Command

/-- The command clears the counters. -/
def isClear : Command → Bool
  | clearStatistics => true
  | _ => false

/-- The snapshot that is kept after the command, where counters and snapshot were these. -/
def kept (p : Profile) (before : Snapshot) : Command → Snapshot
  | keepStatistics => p.snapshot
  | _ => before

theorem kept_of_ne {c : Command} (h : c ≠ keepStatistics) (p : Profile) (before : Snapshot) :
    c.kept p before = before := by
  cases c with
  | keepStatistics => exact absurd rfl h
  | _ => rfl

theorem countsIf_count (name : Text) (size value : Option Value) (slot : Text) :
    Action.CountsIf (count name size value).CountsWhole ((count name size value).run slot) := by
  refine (Action.counts_compositional.readOptional size).bind_countsIf fun w s' hw => ?_
  refine (Action.counts_compositional.readOptional value).bind_countsIf fun v _ _ => ?_
  have hsize (h : (count name size value).CountsWhole) : (w.getD (.int 0)).int?.isSome := by
    have hwhole : (s'.holding .empty []).CountedWhole := nofun
    exact (ensures_size h _ hwhole).2 w hw
  have hcounted := (Action.counts_compositional.counting v).countedAs name hsize
  intro s hs
  obtain ⟨t, calls, ht, hcalls, hcounted⟩ := hcounted s hs
  exact ⟨t, calls, ht, hcalls, fun p kept => (Action.snd_bind_pure _ _ _).trans (hcounted p kept)⟩

/-- Any other command than a clear counts some calls. -/
theorem exists_calls {c : Command} (hc : c.isClear = false) (slot : Text) {s : Session}
    (hs : s.profiling = true) : ∃ (t : Session) (calls : List Call),
      t.profiling = true ∧ (c.CountsWhole → ∀ call ∈ calls, call.IsWhole) ∧
        ∀ p kept, (c.run slot (s.holding p kept)).2 = t.holding (p.countAll calls) (c.kept p kept) := by
  cases c with
  | clearStatistics => cases hc
  | statistics | keepStatistics | keptStatistics =>
    exact ⟨s, [], hs, fun _ => List.forall_mem_nil _, fun p kept => rfl⟩
  | count name size value => exact countsIf_count name size value slot s hs
  | _ => exact (Action.counts_compositional.command rfl slot).countsIf s hs

end Command

namespace Step

theorem snd_run_of_isClear {st : Step} (h : st.command.isClear = true) (s : Session) :
    (st.run s).2 = { s with profile := s.profile.clear } := by
  obtain ⟨slot, command⟩ := st
  cases command with
  | clearStatistics => rfl
  | _ => cases h

theorem exists_calls {st : Step} (h : st.command.isClear = false) {s : Session} (hs : s.profiling = true) :
    ∃ (t : Session) (calls : List Call),
      t.profiling = true ∧ (st.command.CountsWhole → ∀ call ∈ calls, call.IsWhole) ∧
        ∀ p kept, (st.run (s.holding p kept)).2 = t.holding (p.countAll calls) (st.command.kept p kept) :=
  Command.exists_calls h st.slot hs

/-- What a step does to the counters: it clears them, or it counts some calls. -/
inductive Does (st : Step) : List Event → Prop
  | clear (h : st.command.isClear = true) : Does st [.clear]
  | calls (h : st.command.isClear = false) (calls : List Call) : Does st (calls.map .call)

theorem exists_does (st : Step) {s : Session} (hs : s.profiling = true) :
    ∃ events, st.Does events ∧ (st.run s).2.profiling = true ∧
      (st.run s).2.profile = s.profile.after events ∧
      (st.run s).2.kept = st.command.kept s.profile s.kept := by
  cases hclear : st.command.isClear with
  | true =>
    refine ⟨[.clear], .clear hclear, ?_⟩
    have hkeep : st.command ≠ .keepStatistics := by
      intro hkeep
      rw [hkeep] at hclear
      cases hclear
    rw [snd_run_of_isClear hclear, Command.kept_of_ne hkeep]
    exact ⟨hs, rfl, rfl⟩
  | false =>
    obtain ⟨t, calls, ht, -, hrun⟩ := exists_calls hclear hs
    have hself : s.holding s.profile s.kept = s := rfl
    refine ⟨calls.map .call, .calls hclear calls, ?_⟩
    rw [← hself, hrun, hself]
    exact ⟨ht, rfl, rfl⟩

/-- What steps do to the counters is what each of them does, one after the other. -/
theorem exists_runs (steps : List Step) {s : Session} (hs : s.profiling = true) :
    ∃ runs, List.Forall₂ Does steps runs ∧ ∀ n,
      (after (steps.take n) s).profile = s.profile.after (runs.take n).flatten := by
  induction steps generalizing s with
  | nil => exact ⟨[], .nil, fun n => by rw [List.take_nil, List.take_nil]; rfl⟩
  | cons st rest ih =>
    obtain ⟨events, hdoes, hprofiling, hprofile, -⟩ := exists_does st hs
    obtain ⟨runs, hruns, hafter⟩ := ih hprofiling
    refine ⟨events :: runs, .cons hdoes hruns, fun n => ?_⟩
    cases n with
    | zero => rfl
    | succ n =>
      rw [List.take_succ_cons, List.take_succ_cons, after_cons, hafter n, hprofile, List.flatten_cons,
        Profile.after_append]

theorem profiling_after (steps : List Step) {s : Session} (hs : s.profiling = true) :
    (after steps s).profiling = true := by
  induction steps generalizing s with
  | nil => exact hs
  | cons st rest ih =>
    obtain ⟨-, -, hprofiling, -⟩ := exists_does st hs
    rw [after_cons]
    exact ih hprofiling

/-- The snapshot is what was in use when it was last taken. -/
theorem kept_after (steps : List Step) (slot : Text) {later : List Step}
    (h : ∀ st ∈ later, st.command ≠ .keepStatistics) {s : Session} (hs : s.profiling = true) :
    (after (steps ++ ⟨slot, .keepStatistics⟩ :: later) s).kept = (after steps s).profile.snapshot := by
  have hlater {t : Session} (ht : t.profiling = true) : (after later t).kept = t.kept := by
    induction later generalizing t with
    | nil => rfl
    | cons st rest ih =>
      obtain ⟨hst, hrest⟩ := List.forall_mem_cons.mp h
      obtain ⟨-, -, hprofiling, -, hkept⟩ := exists_does st ht
      rw [after_cons, ih hrest hprofiling, hkept, Command.kept_of_ne hst]
  have hkeep : ((⟨slot, .keepStatistics⟩ : Step).run (after steps s)).2 =
    { after steps s with kept := (after steps s).profile.snapshot } := rfl
  rw [after_append, after_cons, hkeep]
  exact hlater (profiling_after steps hs)

end Step

end JsonWriter
