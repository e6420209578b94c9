import JsonWriter.Proofs.Counting.Escapes

/-!
# What generating counts

Generating a value counts one call of its own and one of rendering, and the escaping of each string that is
written, also where it ends in a fault. Main statement: `generate_counts`.
-/

namespace JsonWriter

open Generator (Format)

namespace Action

variable {α : Type} (x : Action α) {s : Session}

theorem counted_apply (hs : (x s).2.profiling = true) (name : Text) (size : Nat) :
    counted name size x s = ((x s).1, (x s).2.countAll [⟨name, .int 0, .int size⟩]) :=
  Prod.ext rfl (Session.record_eq_countAll hs name (.int size))

theorem profile_logged : (logged x s).2.profile = (x s).2.profile := by
  unfold logged
  generalize x s = run
  obtain ⟨_ | a, t⟩ := run
  · simp only
    split
    · rfl
    · rfl
  · rfl

end Action

/-- A call of a block of the writer itself. -/
def Call.block (name : Text) : Call := ⟨name, .int 0, .int 0⟩

/-- The block is called once under its name, for no bytes. -/
theorem Call.totalOf_block (block name : Text) :
    Call.totalOf name [.block block] = if name = block then (1, 0) else 0 := by
  have hname : (Call.block block).name = block := rfl
  rw [Call.totalOf_singleton, hname]
  by_cases h : name = block
  · rw [if_pos h.symm, if_pos h]
    rfl
  · rw [if_neg (Ne.symm h), if_neg h]

namespace Session

variable (s : Session) (g : Generator) (v : Value)

/-- The marks of a value that are written with a generator, up to the first one that ends in a fault. -/
def marksWritten : List Render.Mark :=
  Render.written (Extension.writeAt g v.rank) g.format s (Render.marks g.depth v)

/-- The strings among them. -/
def textsWritten : List Text := (s.marksWritten g v).filterMap (Render.Mark.text? s.describe)

/-- The calls in a call of rendering: the escaper is called for each of them. -/
def renderCalls : List Call := (s.textsWritten g v).map (.escaping g.asciiOnly.isTrue)

/-- The call of generating and those in it. -/
def generateCalls : List Call := s.renderCalls g v ++ [.block (text "render"), .block (text "generate")]

end Session

/-- Each of the strings is written as its text. -/
theorem Session.length_textsWritten (s : Session) (g : Generator) (v : Value) :
    (s.textsWritten g v).length = (s.marksWritten g v).countP Render.Mark.isString := by
  rw [textsWritten, List.length_filterMap_eq_countP]
  refine List.countP_congr fun m hm => Eq.congr_left ?_
  have hwritten : m.isWritten (Extension.writeAt g v.rank) g.format s = true :=
    List.mem_takeWhile_imp hm
  exact Render.Mark.isSome_text? hwritten

theorem Session.isWhole_generateCalls (s : Session) (g : Generator) (v : Value) :
    ∀ c ∈ s.generateCalls g v, c.IsWhole := by
  refine List.forall_mem_append.mpr ⟨List.forall_mem_map.mpr fun t _ => ⟨rfl, rfl⟩, ?_⟩
  exact List.forall_mem_cons.mpr ⟨⟨rfl, rfl⟩, List.forall_mem_singleton.mpr ⟨rfl, rfl⟩⟩

theorem Session.totalOf_generateCalls (s : Session) (g : Generator) (v : Value) (name : Text) :
    Call.totalOf name (s.generateCalls g v) =
      (if name = text "generate" then (1, 0) else 0) + (if name = text "render" then (1, 0) else 0) +
        if name = Render.escaperName g.asciiOnly.isTrue then
          ((s.marksWritten g v).countP Render.Mark.isString,
            (((s.textsWritten g v).map Utf8.length).sum : Int))
        else 0 := by
  have hblocks : Call.totalOf name [.block (text "render"), .block (text "generate")] =
      Call.totalOf name [.block (text "render")] + Call.totalOf name [.block (text "generate")] :=
    Call.totalOf_append name [.block (text "render")] [.block (text "generate")]
  rw [generateCalls, renderCalls, Call.totalOf_append, hblocks, Call.totalOf_block, Call.totalOf_block,
    Call.totalOf_escaping, s.length_textsWritten g v]
  abel

section

variable {v : Value} (hv : v.IsNative) {s : Session} (hs : s.profiling = true) (g : Generator)

include hv hs

theorem parts_counts :
    (Render.parts (Extension.writeAt g v.rank) g.format v g.depth s).2 = s.countAll (s.renderCalls g v) ∧
      (∀ parts, (Render.parts (Extension.writeAt g v.rank) g.format v g.depth s).1 = .ok parts →
        s.marksWritten g v = Render.marks g.depth v) ∧
      ∀ e, (Render.parts (Extension.writeAt g v.rank) g.format v g.depth s).1 = .error e →
        ∃ m after, Render.marks g.depth v = s.marksWritten g v ++ m :: after ∧
          (m.write (Extension.writeAt g v.rank) g.format s).1 = .error e := by
  rw [Render.parts_eq_layOut _ _ hv.isFinite, Render.layOut_eq_writeAll]
  exact Render.writeAll_counts _ _ hs (Render.isNative_marks g.depth hv)

variable {id : Nat} {g} (hg : s.generator? id = some g)

include hg

theorem render_counts :
    render v id none s =
      ((Render.parts (Extension.writeAt g v.rank) g.format v g.depth s).1 >>= Render.Part.join,
        s.countAll (s.renderCalls g v ++ [.block (text "render")])) := by
  obtain ⟨hsnd, -⟩ := parts_counts hv hs g
  have hcounted := Action.counted_apply (Render.parts (Extension.writeAt g v.rank) g.format v g.depth)
    (s := s) (by rw [hsnd]; exact hs) (text "render") 0
  rw [render, renderAt_eq, Action.bind_apply, Action.generator, hg, Action.resume_ok, Action.bind_apply,
    Option.getD_some, Option.getD_none, hcounted, hsnd, ← Session.countAll_append]
  cases (Render.parts (Extension.writeAt g v.rank) g.format v g.depth s).1 with
  | error e => rfl
  | ok parts => rfl

theorem checked_counts :
    (do
      let t ← render v id none
      Action.ofExcept (checkOutput (← Action.generator id).asciiOnly.isTrue t)
      return t : Action Text) s =
      ((do
        let parts ← (Render.parts (Extension.writeAt g v.rank) g.format v g.depth s).1
        let t ← Render.Part.join parts
        checkOutput g.asciiOnly.isTrue t
        return t), s.countAll (s.renderCalls g v ++ [.block (text "render")])) := by
  have hgenerator : (s.countAll (s.renderCalls g v ++ [.block (text "render")])).generator? id = some g := hg
  rw [Action.bind_apply, render_counts hv hs hg, ← bind_assoc]
  generalize (Render.parts (Extension.writeAt g v.rank) g.format v g.depth s).1 >>= Render.Part.join = r
  cases r with
  | error e => rfl
  | ok t =>
    rw [Action.resume_ok, Action.bind_apply, Action.generator, hgenerator, Action.resume_ok,
      Option.getD_some, Action.bind_apply, Action.ofExcept]
    change Action.resume (checkOutput g.asciiOnly.isTrue t, _) _ =
      (checkOutput g.asciiOnly.isTrue t >>= fun _ => .ok t, _)
    cases checkOutput g.asciiOnly.isTrue t with
    | error e => rfl
    | ok _ => rfl

theorem generate_run :
    (generate v id s).1 = (do
        let parts ← (Render.parts (Extension.writeAt g v.rank) g.format v g.depth s).1
        let t ← Render.Part.join parts
        checkOutput g.asciiOnly.isTrue t
        return t) ∧
      (generate v id s).2.profile = s.profile.countAll (s.generateCalls g v) := by
  have hchecked := checked_counts hv hs hg
  rw [generate, generateWith, Action.fst_logged, Action.profile_logged,
    Action.counted_apply _ (by rw [hchecked]; exact hs), hchecked, ← Session.countAll_append,
    List.append_assoc]
  exact ⟨rfl, rfl⟩

end

/-! ## The totals -/

/-- What generating a value without objects that write themselves counts, whether it ends in a text or in a
fault: one call of `generate` and one of `render`, for no bytes, and one call of the escaper of the generator
for each string that is written, for its bytes in UTF-8. If it ends in a text then all of the value is
written. If it ends in a fault then that is the fault of the first mark that is not written, or all is written
and it is refused as a whole. Over any calls and clears the totals are the sums over the calls since the last
clear, and over the steps of a script they are the sums of what the steps since then count, each of them on
its own. -/
theorem generate_counts :
    (∀ v : Value, v.IsNative → ∀ s : Session, s.profiling = true → ∀ id g, s.generator? id = some g →
      (generate v id s).2.profile = s.profile.countAll (s.generateCalls g v) ∧
      (s.profile.IsExact → ∀ name, (generate v id s).2.profile.total name = s.profile.total name +
        (if name = text "generate" then (1, 0) else 0) + (if name = text "render" then (1, 0) else 0) +
        if name = Render.escaperName g.asciiOnly.isTrue then
          ((s.marksWritten g v).countP Render.Mark.isString,
            (((s.textsWritten g v).map Utf8.length).sum : Int))
        else 0) ∧
      (∀ t, (generate v id s).1 = .ok t → s.marksWritten g v = Render.marks g.depth v) ∧
      ∀ e, (generate v id s).1 = .error e →
        (∃ m after, Render.marks g.depth v = s.marksWritten g v ++ m :: after ∧
          (m.write (Extension.writeAt g v.rank) g.format s).1 = .error e) ∨
        s.marksWritten g v = Render.marks g.depth v ∧
          ∃ parts, (Render.parts (Extension.writeAt g v.rank) g.format v g.depth s).1 = .ok parts ∧
            (Render.Part.join parts = .error e ∨
              ∃ t, Render.Part.join parts = .ok t ∧ checkOutput g.asciiOnly.isTrue t = .error e)) ∧
    (∀ events : List Event, (∀ c, .call c ∈ events → c.IsWhole) → ∀ name,
      (Profile.empty.after events).total name = Call.totalOf name (Event.sinceClear [] events)) ∧
    ∀ steps : List Step, (∀ st ∈ steps, st.command.CountsWhole) →
      (Step.after steps (Session.initial true)).profile.IsExact ∧
      ∀ name, (Step.after steps (Session.initial true)).profile.total name =
        Step.totals name steps (Session.initial true) 0 := by
  refine ⟨fun v hv s hs id g hg => ?_, fun events h name => Profile.isExact_empty.total_after h rfl,
    fun steps h => Step.total_after h (s := Session.initial true) rfl Profile.isExact_empty⟩
  obtain ⟨hout, hprofile⟩ := generate_run hv hs hg
  obtain ⟨-, hok, herror⟩ := parts_counts hv hs g
  refine ⟨hprofile, fun hexact name => ?_, fun t ht => ?_, fun e he => ?_⟩
  · rw [hprofile, hexact.total_countAll (s.isWhole_generateCalls g v), s.totalOf_generateCalls g v,
      add_assoc, add_assoc, add_assoc]
  · rw [hout, bind_eq_ok] at ht
    obtain ⟨parts, hparts, -⟩ := ht
    exact hok parts hparts
  · rw [hout, bind_eq_error] at he
    obtain hparts | ⟨parts, hparts, he⟩ := he
    · exact .inl (herror e hparts)
    refine .inr ⟨hok parts hparts, parts, hparts, ?_⟩
    rw [bind_eq_error] at he
    obtain hjoin | ⟨t, hjoin, he⟩ := he
    · exact .inl hjoin
    rw [bind_eq_error] at he
    obtain hcheck | ⟨_, -, hpure⟩ := he
    · exact .inr ⟨t, hjoin, hcheck⟩
    · cases hpure

/-- A text, bytes under the key of null, an object, a text with a surrogate, and another text. -/
def refusedSample : Value :=
  .list [.str [.ofNat 0xE9], .dictionary [(.null, .binary .bytes [7]), (.int 1, .object (.str (text "x")))],
    .str [.ofNat 0xD800], .str (text "a")]

/-- A generator for ASCII in a session that counts calls. -/
def countingSession : Session :=
  { Session.initial true with generators := #[{ Generator.initial with asciiOnly := .bool true }] }

/-- Counts calls, and clears the counters in between. -/
def clearingSteps : List Step :=
  [⟨text "s", .count (text "batch") (some (.int 3)) none⟩, ⟨text "s", .clearStatistics⟩,
    ⟨text "s", .call (.escape false (.binary .bytes [0x61, 0x22]))⟩,
    ⟨text "s", .count (text "batch") (some (.int 4)) none⟩,
    ⟨text "s", .count (text "batch") none none⟩]

/-- A call, a clear, and another call of the same name. -/
def clearingEvents : List Event :=
  [.call ⟨text "batch", .int 0, .int 3⟩, .clear, .call ⟨text "batch", .int 0, .int 4⟩]

theorem countsWhole_clearingSteps : ∀ st ∈ clearingSteps, st.command.CountsWhole := by
  intro st hst
  simp only [clearingSteps, List.mem_cons, List.not_mem_nil, or_false] at hst
  obtain rfl | rfl | rfl | rfl | rfl := hst
  · exact Command.countsWhole_int _ 3 none
  · trivial
  · trivial
  · exact Command.countsWhole_int _ 4 none
  · exact nofun

theorem isWhole_clearingEvents : ∀ c, .call c ∈ clearingEvents → c.IsWhole := by
  intro c hc
  simp only [clearingEvents, List.mem_cons, Event.call.injEq, List.not_mem_nil, or_false] at hc
  obtain rfl | hclear | rfl := hc
  · exact ⟨rfl, rfl⟩
  · cases hclear
  · exact ⟨rfl, rfl⟩

theorem generate_refusedSample :
    let g := { Generator.initial with asciiOnly := .bool true }
    let total := (generate refusedSample 0 countingSession).2.profile.total
    refusedSample.IsNative ∧ countingSession.generator? 0 = some g ∧
      (∀ st ∈ clearingSteps, st.command.CountsWhole) ∧
      total (text "generate") = (1, 0) ∧ total (text "render") = (1, 0) ∧
      total (text "escape_ascii") = (7, 26) ∧ total (text "escape_utf8") = 0 ∧
      (∃ m after, Render.marks g.depth refusedSample =
        countingSession.marksWritten g refusedSample ++ m :: after ∧
        (m.write (Extension.writeAt g refusedSample.rank) g.format countingSession).1 =
          .error (.encoding (.surrogate [.ofNat 0xD800] (text "'\\ud800'")))) ∧
      (Profile.empty.after clearingEvents).total (text "batch") = (1, 4) ∧
      (Step.after clearingSteps (Session.initial true)).profile.total (text "batch") = (2, 4) := by
  intro g total
  have hv : refusedSample.IsNative := ⟨trivial, ⟨trivial, trivial, trivial⟩, trivial, trivial, trivial⟩
  have hg : countingSession.generator? 0 = some g := rfl
  obtain ⟨hgenerate, hcalls, hscripts⟩ := generate_counts
  obtain ⟨-, htotal, -, herror⟩ := hgenerate refusedSample hv countingSession rfl 0 g hg
  have htotal (name : Text) : total name = _ := htotal Profile.isExact_empty name
  have hfault : (generate refusedSample 0 countingSession).1 =
      .error (.encoding (.surrogate [.ofNat 0xD800] (text "'\\ud800'"))) := by
    rw [generate_outcome hv hg]
    decide +kernel
  refine ⟨hv, hg, countsWhole_clearingSteps, ?_, ?_, ?_, ?_, ?_,
    (hcalls clearingEvents isWhole_clearingEvents _).trans rfl, ?_⟩
  · rw [htotal]
    decide +kernel
  · rw [htotal]
    decide +kernel
  · rw [htotal]
    decide +kernel
  · rw [htotal]
    decide +kernel
  · obtain hmark | ⟨hall, -⟩ := herror _ hfault
    · exact hmark
    · exact absurd (congrArg List.length hall) (by decide +kernel)
  · rw [(hscripts clearingSteps countsWhole_clearingSteps).2]
    with_unfolding_all rfl

end JsonWriter
