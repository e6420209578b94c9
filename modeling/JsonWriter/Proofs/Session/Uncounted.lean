import JsonWriter.Proofs.Session.Counted
import JsonWriter.Proofs.Session.Steps

/-!
# Counting calls changes nothing else

A session in which calls are counted and the same session without counters stay the same but for the
counters, whatever is done in them, and what is done comes to the same: no primitive action reads a
counter, and nothing but a size that cannot be added makes counting fail. Main statement:
`run_uncounted`, for operations and scripts.
-/

namespace JsonWriter

/-! ## Sessions without counters -/

namespace Session

/-- The session with its generators, slots, identities and log, in which no calls are counted and none
were. -/
def uncounted (s : Session) : Session := { s with profiling := false, profile := .empty, kept := [] }

theorem uncounted_record (s : Session) (name : Text) (size : Value) :
    (s.record name size).2.uncounted = s.uncounted := by
  unfold record
  split <;> rfl

theorem record_uncounted (s : Session) (name : Text) (size : Value) :
    s.uncounted.record name size = (.ok (), s.uncounted) := rfl

/-- How generators show themselves depends on them and on the identities that were given. -/
theorem describe_congr {s s' : Session} (h : s'.generators = s.generators)
    (hidentities : s'.identities = s.identities) : s'.describe = s.describe := by
  funext entered id
  simp only [describe, describeAt_congr h, h, hidentities]

theorem compare_congr {s s' : Session} (h : s'.generators = s.generators) : s'.compare = s.compare := by
  have hlevel (level : Nat) : s'.compareAt level = s.compareAt level := by
    induction level with
    | zero => rfl
    | succ level ih =>
      funext i j
      simp only [compareAt, ih, generator?, h]
  funext i j
  simp only [compare, hlevel, h]

theorem describe_uncounted (s : Session) : s.uncounted.describe = s.describe := describe_congr rfl rfl

theorem compare_uncounted (s : Session) : s.uncounted.compare = s.compare := compare_congr rfl

end Session

/-! ## Actions that do not see counters -/

namespace Action

variable {α β : Type}

/-- Without counters the action comes to the same in this session, and leaves the same but for them. -/
def IsBlindIn (s : Session) (x : Action α) : Prop := x s.uncounted = ((x s).1, (x s).2.uncounted)

/-- The action comes to the same with and without counters. -/
def IsBlind (x : Action α) : Prop := ∀ s, IsBlindIn s x

theorem IsBlindIn.bind {s : Session} {x : Action α} {k : α → Action β} (hx : IsBlindIn s x)
    (hk : ∀ a, (x s).1 = .ok a → IsBlindIn (x s).2 (k a)) : IsBlindIn s (x >>= k) := by
  rw [IsBlindIn] at hx
  rw [IsBlindIn, bind_apply, bind_apply, hx]
  generalize x s = run at hk
  obtain ⟨_ | a, s'⟩ := run
  · rfl
  · exact hk a rfl

/-- What the second action leaves is the same but for counters if that is so in every session. -/
theorem IsBlind.snd_bind {x : Action α} {k : α → Action β} (hx : IsBlind x)
    (hk : ∀ a s, (k a s.uncounted).2 = (k a s).2.uncounted) (s : Session) :
    ((x >>= k) s.uncounted).2 = ((x >>= k) s).2.uncounted := by
  rw [bind_apply, bind_apply, hx s]
  generalize x s = run
  obtain ⟨_ | a, s'⟩ := run
  · rfl
  · exact hk a s'

theorem IsBlind.counted {x : Action α} (hx : IsBlind x) (name : Text) (size : Nat) :
    IsBlind (counted name size x) := by
  intro s
  rw [IsBlindIn, Action.counted, Action.counted, hx s]
  generalize x s = run
  obtain ⟨r, s'⟩ := run
  simp only [Session.record_uncounted, Session.uncounted_record]

theorem IsBlind.logged {x : Action α} (hx : IsBlind x) : IsBlind (logged x) := by
  intro s
  rw [IsBlindIn, Action.logged, Action.logged, hx s]
  generalize x s = run
  obtain ⟨_ | a, s'⟩ := run
  · simp only
    split <;> rfl
  · rfl

theorem isBlind_compositional : Compositional fun _ x => IsBlind x where
  ofExcept _ _ := rfl
  bind hx hk s := (hx s).bind fun a _ => hk a _
  counted name size hx := hx.counted name size
  logged hx := hx.logged
  log _ _ := rfl
  literal? v s := by rw [IsBlindIn, literal?, literal?, s.describe_uncounted]
  shown v s := by
    rw [IsBlindIn, shown, shown, s.describe_uncounted]
    split <;> rfl
  identity _ := rfl
  equal i j s := by
    rw [IsBlindIn, equal, equal, s.compare_uncounted]
    split <;> rfl
  generator _ _ := rfl
  replace _ _ _ := rfl
  add _ _ := rfl
  slot name s := by
    have hslot : s.uncounted.slot? name = s.slot? name := rfl
    rw [IsBlindIn, slot, slot, hslot]
    split <;> rfl
  setSlot _ _ _ := rfl

theorem snd_countedAs {x : Action α} (hx : IsBlind x) (name : Text) (size : Value) (s : Session) :
    (countedAs name size x s.uncounted).2 = (countedAs name size x s).2.uncounted := by
  rw [countedAs, countedAs, hx s]
  generalize x s = run
  obtain ⟨r, s'⟩ := run
  have hrecord := s'.uncounted_record name size
  simp only [Session.record_uncounted]
  generalize s'.record name size = recorded at hrecord
  obtain ⟨_ | _, s''⟩ := recorded
  · exact hrecord.symm
  · exact hrecord.symm

theorem IsBlindIn.countedAs {x : Action α} {s : Session} (hx : IsBlindIn s x) {name : Text} {size : Value}
    (hrecord : ((x s).2.record name size).1 = .ok ()) : IsBlindIn s (countedAs name size x) := by
  rw [IsBlindIn] at hx
  rw [IsBlindIn, Action.countedAs, Action.countedAs, hx]
  generalize x s = run at hrecord
  obtain ⟨r, s'⟩ := run
  have hrecorded := s'.uncounted_record name size
  simp only [Session.record_uncounted] at hrecord ⊢
  generalize s'.record name size = recorded at hrecord hrecorded
  obtain ⟨_, s''⟩ := recorded
  obtain rfl := hrecord
  exact congrArg (Prod.mk r) hrecorded.symm

theorem snd_bind_pure (x : Action α) (g : α → β) (s : Session) :
    ((x >>= fun a => pure (g a)) s).2 = (x s).2 := by
  rw [bind_apply]
  obtain ⟨_ | _, _⟩ := x s <;> rfl

end Action

/-! ## Commands -/

namespace Command

open JsonWriter.Action (IsBlindIn isBlind_compositional)

/-- The command returns what the counters hold. -/
def readsStatistics : Command → Bool
  | statistics | keptStatistics => true
  | _ => false

/-- Whatever a command does, and however it ends, it leaves the same without counters but for them. -/
theorem snd_run_uncounted (c : Command) (slot : Text) (s : Session) :
    (c.run slot s.uncounted).2 = (c.run slot s).2.uncounted := by
  cases c with
  | statistics | keepStatistics | keptStatistics | clearStatistics => rfl
  | count name size value =>
    -- With counters the size may be refused, which changes the outcome but not the session.
    refine (isBlind_compositional.readOptional size).snd_bind (fun w => ?_) s
    refine (isBlind_compositional.readOptional value).snd_bind fun value s => ?_
    rw [Action.snd_bind_pure, Action.snd_bind_pure]
    exact Action.snd_countedAs (isBlind_compositional.counting value) name _ s
  | _ => exact congrArg Prod.snd (isBlind_compositional.command rfl slot s)

/-- The command counts a call itself. -/
def isCount : Command → Bool
  | count _ _ _ => true
  | _ => false

/-- A command that does not read the counters comes to the same without them, unless it counts a call
itself and the size makes that fail. -/
theorem isBlindIn_run {c : Command} (hreads : c.readsStatistics = false) {s : Session}
    (h : c.isCount = true → c.CountsWhole ∧ s.CountedWhole) (slot : Text) : IsBlindIn s (c.run slot) := by
  cases c with
  | statistics | keptStatistics => cases hreads
  | keepStatistics | clearStatistics => rfl
  | count name size value =>
    obtain ⟨h, hs⟩ := h rfl
    have hsize := ensures_size h s hs
    refine (isBlind_compositional.readOptional size s).bind fun w hw => ?_
    have hvalue := Action.ensures_countedWhole.readOptional value _ hsize.1
    refine (isBlind_compositional.readOptional value _).bind fun v _ => ?_
    have hcounting := Action.ensures_countedWhole.counting v _ hvalue.1
    have hrecord := (Session.CountedWhole.record hcounting.1 name (hsize.2 w hw)).1
    exact ((isBlind_compositional.counting v _).countedAs hrecord).bind fun _ _ => rfl
  | _ => exact isBlind_compositional.command rfl slot s

/-- Reading the counters changes nothing, and there is nothing to read without them. -/
theorem run_of_readsStatistics {c : Command} (hreads : c.readsStatistics = true) (slot : Text)
    (s : Session) : ∃ ts, c.run slot s = (.ok (statisticsRows ts), s) ∧
      c.run slot s.uncounted = (.ok (statisticsRows []), s.uncounted) := by
  cases c with
  | statistics => exact ⟨_, rfl, rfl⟩
  | keptStatistics => exact ⟨_, rfl, rfl⟩
  | _ => cases hreads

end Command

/-! ## Steps and scripts -/

namespace Step

/-- The row that a step has without counters, given the one that it has with them. -/
def uncounted (st : Step) (row : Row) : Row :=
  if st.command.readsStatistics then { row with outcome := .ok (Command.statisticsRows []) } else row

theorem snd_run_uncounted (st : Step) (s : Session) :
    (st.run s.uncounted).2 = (st.run s).2.uncounted := st.command.snd_run_uncounted st.slot s

theorem after_uncounted (steps : List Step) (s : Session) :
    after steps s.uncounted = (after steps s).uncounted := by
  induction steps generalizing s with
  | nil => rfl
  | cons st rest ih => rw [after_cons, after_cons, snd_run_uncounted, ih]

theorem run_uncounted {st : Step} {s : Session}
    (h : st.command.isCount = true → st.command.CountsWhole ∧ s.CountedWhole) :
    st.run s.uncounted = (st.uncounted (st.run s).1, (st.run s).2.uncounted) := by
  cases hreads : st.command.readsStatistics with
  | true =>
    obtain ⟨ts, hrun, hrun'⟩ := Command.run_of_readsStatistics hreads st.slot s
    simp only [run, uncounted, hreads, hrun, hrun']
    rfl
  | false =>
    have hrun := Command.isBlindIn_run hreads h st.slot
    rw [Action.IsBlindIn] at hrun
    simp only [run, uncounted, hreads, hrun]
    rfl

theorem mapM_cons (st : Step) (rest : List Step) (s : Session) :
    ((st :: rest).mapM run : StateM Session (List Row)) s =
      ((st.run s).1 :: ((rest.mapM run : StateM Session (List Row)) (st.run s).2).1,
        ((rest.mapM run : StateM Session (List Row)) (st.run s).2).2) := by
  rw [List.mapM_cons]
  rfl

theorem mapM_uncounted {steps : List Step} (h : ∀ st ∈ steps, st.command.CountsWhole) {s : Session}
    (hs : s.CountedWhole) :
    (steps.mapM run : StateM Session (List Row)) s.uncounted =
      (List.zipWith uncounted steps ((steps.mapM run : StateM Session (List Row)) s).1,
        (after steps s).uncounted) := by
  induction steps generalizing s with
  | nil => rfl
  | cons st rest ih =>
    obtain ⟨hst, hrest⟩ := List.forall_mem_cons.mp h
    have hs' : (st.run s).2.CountedWhole := (Command.ensures_countedWhole hst st.slot s hs).1
    rw [mapM_cons, mapM_cons, run_uncounted fun _ => ⟨hst, hs⟩, ih hrest hs', after_cons]
    rfl

end Step

/-! ## Requests -/

/-- The answer to a script without counters, given the one with them. -/
def Answer.uncounted (steps : List Step) : Answer → Answer
  | rows rs => rows (List.zipWith Step.uncounted steps rs)
  | outcome r => outcome r

/-- Counting calls makes no difference to an operation, its log records included. After any steps of a
script the session is the same but for the counters, and so is the row of the next step, which has empty
statistics where it reads them. Only a step that counts a call itself may have a size that cannot be added;
if all such sizes are whole numbers, the whole answer is the same but for the statistics. -/
theorem requests_uncounted :
    (∀ o : Operation, (Request.operation o).run false = (Request.operation o).run true) ∧
    ∀ steps : List Step,
      Step.after steps (Session.initial false) = (Step.after steps (Session.initial true)).uncounted ∧
      (∀ st : Step, st.command.isCount = false →
        (st.run (Step.after steps (Session.initial false))).1 =
          st.uncounted (st.run (Step.after steps (Session.initial true))).1) ∧
      ((∀ st ∈ steps, st.command.CountsWhole) →
        (Request.script steps).run false =
          (((Request.script steps).run true).1.uncounted steps, ((Request.script steps).run true).2)) := by
  have hinitial : Session.initial false = (Session.initial true).uncounted := rfl
  have hwhole : (Session.initial true).CountedWhole := fun i t ht => by cases ht
  refine ⟨fun o => ?_, fun steps => ⟨?_, fun st hst => ?_, fun h => ?_⟩⟩
  · have hrun := Action.isBlind_compositional.operation o (Session.initial true)
    rw [Action.IsBlindIn] at hrun
    rw [Request.run, Request.run, hinitial, hrun]
    rfl
  · rw [hinitial, Step.after_uncounted]
  · rw [hinitial, Step.after_uncounted, Step.run_uncounted fun hcount => absurd (hst ▸ hcount) (by decide)]
  · have hrun := Step.mapM_uncounted h hwhole
    rw [Request.run, hinitial, hrun]
    rfl

/-- A call counted by hand, text that is escaped, and a list with an object that writes itself. -/
def countedSample : List Step :=
  [⟨text "s", .count (text "batch") (some (.int 3)) none⟩,
    ⟨text "s", .call (.escape false (.binary .bytes [0x61, 0x22]))⟩,
    ⟨text "s", .call (.generate (.list [.extension (.literal (.str (text "1"))), .float ⟨0x7FF8000000000000⟩])
      none)⟩]

/-- Asks for the counters. -/
def statisticsStep : Step := ⟨text "s", .statistics⟩

theorem requests_countedSample :
    (∀ st ∈ countedSample, st.command.CountsWhole) ∧ statisticsStep.command.isCount = false ∧
      (Request.script countedSample).run false =
        (((Request.script countedSample).run true).1.uncounted countedSample,
          ((Request.script countedSample).run true).2) ∧
      (statisticsStep.run (Step.after (countedSample.take 2) (Session.initial true))).1.outcome =
        .ok (Command.statisticsRows
          [⟨text "batch", 1, .whole 0, .whole 3⟩, ⟨text "escape_utf8", 1, .whole 0, .whole 2⟩]) ∧
      (statisticsStep.run (Step.after (countedSample.take 2) (Session.initial false))).1.outcome =
        .ok (Command.statisticsRows []) := by
  have hsize : ∀ st ∈ countedSample, st.command.CountsWhole := by
    intro st hst
    simp only [countedSample, List.mem_cons, List.not_mem_nil, or_false] at hst
    obtain rfl | rfl | rfl := hst
    · intro v hv s w hw
      obtain rfl := Option.some.inj hv
      obtain rfl := Except.ok.inj hw
      rfl
    · trivial
    · trivial
  obtain ⟨-, hscripts⟩ := requests_uncounted
  obtain ⟨-, -, hanswer⟩ := hscripts countedSample
  obtain ⟨-, hrows, -⟩ := hscripts (countedSample.take 2)
  refine ⟨hsize, rfl, hanswer hsize, by with_unfolding_all rfl, ?_⟩
  rw [hrows statisticsStep rfl]
  rfl

end JsonWriter
