import JsonWriter.Proofs.Counting.Marks
import JsonWriter.Proofs.Counting.Totals
import JsonWriter.Proofs.Json.Normal
import JsonWriter.Proofs.RoundTrip
import Mathlib.Data.List.TakeWhile

/-!
# Counting what is escaped

A string at a mark is counted if it is written: a text with a surrogate is refused before the escaper is
called, and no other text is refused. So what a value adds to the counters are the strings at its marks, up
to the first mark that ends in a fault. Main statement: `writeAll_counts`.
-/

namespace JsonWriter

open Generator (Format)

/-- The number of bytes of a text in UTF-8. -/
def Utf8.length (t : Text) : Nat := (t.flatMap encodePoint).length

/-- The call of an escaper for a text. -/
def Call.escaping (asciiOnly : Bool) (t : Text) : Call :=
  ⟨Render.escaperName asciiOnly, .int 0, .int (Utf8.length t)⟩

/-- The escaper is called once for each text, for the bytes of all of them. -/
theorem Call.totalOf_escaping (asciiOnly : Bool) (ts : List Text) (name : Text) :
    Call.totalOf name (ts.map (.escaping asciiOnly)) =
      if name = Render.escaperName asciiOnly then (ts.length, ((ts.map Utf8.length).sum : Int)) else 0 := by
  induction ts with
  | nil => exact (ite_self _).symm
  | cons t rest ih =>
    have hsplit : Call.totalOf name ((t :: rest).map (.escaping asciiOnly)) =
        Call.totalOf name [.escaping asciiOnly t] + Call.totalOf name (rest.map (.escaping asciiOnly)) :=
      Call.totalOf_append name [.escaping asciiOnly t] (rest.map (.escaping asciiOnly))
    rw [hsplit, ih, Call.totalOf_singleton, Call.escaping]
    by_cases h : name = Render.escaperName asciiOnly
    · rw [if_pos h.symm, if_pos h, if_pos h, List.length_cons, List.map_cons, List.sum_cons, Nat.cast_add,
        Nat.add_comm rest.length]
      rfl
    · rw [if_neg (Ne.symm h), if_neg h, if_neg h, add_zero]

/-- The session after some calls. -/
def Session.countAll (s : Session) (calls : List Call) : Session :=
  { s with profile := s.profile.countAll calls }

namespace Session

theorem countAll_nil (s : Session) : s.countAll [] = s := rfl

theorem countAll_append (s : Session) (calls more : List Call) :
    s.countAll (calls ++ more) = (s.countAll calls).countAll more := by
  rw [countAll, Profile.countAll_append]
  rfl

theorem alike_countAll (s : Session) (calls : List Call) : s.Alike (s.countAll calls) := ⟨_, rfl⟩

theorem record_eq_countAll {s : Session} (hs : s.profiling = true) (name : Text) (size : Value) :
    (s.record name size).2 = s.countAll [⟨name, .int 0, size⟩] := by
  rw [record, if_pos hs]
  rfl

end Session

/-! ## Single texts -/

namespace Action

variable {α β : Type} {asciiOnly : Bool} {text? : (List Nat → Nat → Option Text) → Option Text}

/-- Where calls are counted, the action counts the escaping of the text, if there is one, unless it ends in
a fault. It changes nothing else. -/
def Escapes (asciiOnly : Bool) (text? : (List Nat → Nat → Option Text) → Option Text) (x : Action α) :
    Prop :=
  ∀ s : Session, s.profiling = true → (x s).2 =
    if (x s).1.isOk then s.countAll ((text? s.describe).toList.map (.escaping asciiOnly)) else s

theorem escapes_ofExcept (r : Except Fault α) : Escapes asciiOnly (fun _ => none) (ofExcept r) :=
  fun _ _ => (ite_self _).symm

theorem escapes_fail (f : Fault) : Escapes asciiOnly text? (fail f : Action α) := fun _ _ => rfl

theorem Escapes.map {x : Action α} (hx : Escapes asciiOnly text? x) (g : α → β) :
    Escapes asciiOnly text? (g <$> x) := by
  intro s hs
  rw [← bind_pure_comp, bind_apply]
  have hxs := hx s hs
  generalize x s = run at hxs
  obtain ⟨_ | a, t⟩ := run
  · exact hxs
  · exact hxs

theorem escapes_shown {v : Value} {k : Text → Action α}
    (hk : ∀ t, Escapes asciiOnly (fun _ => some t) (k t)) :
    Escapes asciiOnly (v.shown? ·) (shown v >>= k) := by
  intro s hs
  have hleft : (shown v s).2 = s := by
    unfold shown
    split <;> rfl
  have hok (t : Text) := Render.shown_eq_ok (v := v) (s := s) (t := t)
  rw [bind_apply]
  generalize shown v s = run at hleft hok
  obtain ⟨_ | t, s'⟩ := run
  · exact hleft
  · obtain rfl : s' = s := hleft
    simp only [resume_ok, (hok t).mp rfl]
    exact hk t s' hs

end Action

namespace Render

open JsonWriter.Action (Escapes escapes_ofExcept escapes_fail escapes_shown)

/-- A text is counted unless there is a surrogate in it. -/
theorem escapes_quoted (asciiOnly : Bool) (t shown : Text) :
    Escapes asciiOnly (fun _ => some t) (quoted asciiOnly t shown) := by
  intro s hs
  by_cases ht : t.IsScalar
  · have hquoted : quoted asciiOnly t shown s =
        (.ok (Json.quote :: t.flatMap (Escape.point asciiOnly) ++ [Json.quote]),
          (s.record (escaperName asciiOnly) (.int (Utf8.length t))).2) := by
      simp only [quoted, Utf8.encode?, if_pos ht, escape, Escape.escape_encode ht, Action.bind_apply,
        Action.counted, Action.ofExcept, Action.resume_ok, Action.pure_apply]
      rfl
    rw [hquoted, Session.record_eq_countAll hs]
    rfl
  · rw [quoted, Utf8.encode?, if_neg ht]
    rfl

theorem escapes_number {asciiOnly : Bool} (n : Int) : Escapes asciiOnly (fun _ => none) (number n) := by
  unfold number
  generalize Decimal.ofInt? n = digits?
  cases digits? with
  | some t => exact escapes_ofExcept (.ok t)
  | none => exact escapes_fail _

theorem escapes_float {asciiOnly : Bool} (f : Format) (x : Binary64) :
    Escapes asciiOnly (fun _ => none) (float f x) := by
  simp only [float]
  split
  · exact escapes_ofExcept (.ok _)
  · split
    · exact escapes_ofExcept (.ok _)
    · exact escapes_fail _

theorem escapes_label (f : Format) (key : Value) :
    Escapes f.asciiOnly (key.keyText? ·) (label f key) := by
  have hquoted (t : Text) := escapes_quoted f.asciiOnly t (shownText key t)
  unfold label keyText Value.keyText?
  cases key.text? with
  | some t => exact hquoted t
  | none =>
    cases key with
    | bool b => exact hquoted _
    | null => exact hquoted _
    | _ => exact escapes_shown hquoted

/-! ## Marks -/

namespace Mark

/-- A key, or a scalar that is written as a string: a text, or what only shows itself as one. -/
def isString : Mark → Bool
  | key _ => true
  | scalar v _ =>
    match v.node with
    | .null | .bool _ | .int _ | .float _ | .extension _ => false
    | _ => true
  | _ => false

/-- The text of a string, given the texts of generators. -/
def text? (describe : List Nat → Nat → Option Text) : Mark → Option Text
  | key k => k.keyText? describe
  | scalar v _ =>
    match v.node with
    | .str t => some t
    | .null | .bool _ | .int _ | .float _ | .extension _ => none
    | _ => v.shown? describe
  | _ => none

/-- At the mark is no object that writes itself. -/
def IsNative : Mark → Prop
  | scalar v _ => ∀ e, v.node ≠ .extension e
  | _ => True

variable (extend : Extender) (f : Format) {m : Mark} (hm : m.IsNative)

include hm

theorem write_isCalm : Action.IsCalm (m.write extend f) := by
  cases m with
  | opening | separator | closing => exact Action.isCalm_ofExcept _
  | key k => exact (label_isCalm f k).bind fun _ => Action.isCalm_pure _
  | colon => exact (Action.isCalm_ofExcept _).bind fun _ => Action.isCalm_pure _
  | scalar v depth => exact (leaf_isCalm extend f v depth hm).bind fun _ => Action.isCalm_pure _

/-- A mark counts its text, if it has one. -/
theorem escapes_write : Escapes f.asciiOnly m.text? (m.write extend f) := by
  cases m with
  | opening | separator | closing => exact escapes_ofExcept _
  | key k =>
    have hkey := (escapes_label f k).map fun t => [Part.text t]
    rwa [← bind_pure_comp] at hkey
  | colon =>
    have hcolon : Escapes f.asciiOnly (fun _ => none) (Action.ofExcept f.colon) := escapes_ofExcept _
    have hpart := hcolon.map fun t => [Part.text t]
    rwa [← bind_pure_comp] at hpart
  | scalar v depth =>
    have hleaf : Escapes f.asciiOnly (scalar v depth).text? (leaf extend f v depth) := by
      cases hnode : v.node with
      | null | bool b =>
        simp only [leaf, text?, hnode]
        exact escapes_ofExcept (.ok _)
      | str t =>
        simp only [leaf, text?, hnode]
        exact escapes_quoted _ _ _
      | int n =>
        simp only [leaf, text?, hnode]
        exact escapes_number n
      | float x =>
        simp only [leaf, text?, hnode]
        exact escapes_float f x
      | extension e => exact absurd hnode (hm e)
      | other | array items | object entries =>
        simp only [leaf, text?, hnode]
        exact escapes_shown fun t => escapes_quoted _ _ _
    have hscalar := hleaf.map fun t => [Part.text t]
    rwa [← bind_pure_comp] at hscalar

omit hm in
variable {extend f} in
/-- What is written at a mark for a string has a text. -/
theorem isSome_text? {s : Session} (h : (m.write extend f s).1.isOk = true) :
    (m.text? s.describe).isSome = m.isString := by
  cases m with
  | opening | separator | colon | closing => rfl
  | key k =>
    rw [write, Action.bind_apply] at h
    generalize hlabel : label f k s = run at h
    obtain ⟨_ | t, s'⟩ := run
    · cases h
    · have hok : (label f k s).1 = .ok t := by rw [hlabel]
      obtain ⟨name, hname, -⟩ := label_spells hok
      rw [text?, hname]
      rfl
  | scalar v depth =>
    have hshown (hleaf : leaf extend f v depth =
        Action.shown v >>= fun t => quoted f.asciiOnly t (shownText v t)) :
        (v.shown? s.describe).isSome := by
      rw [write, hleaf, Action.bind_apply, Action.bind_apply] at h
      generalize hrun : Action.shown v s = run at h
      obtain ⟨_ | t, s'⟩ := run
      · cases h
      · rw [shown_eq_ok.mp (by rw [hrun])]
        rfl
    cases hnode : v.node with
    | null | bool b | str t | int n | float x | extension e =>
      simp only [text?, isString, hnode]
      rfl
    | other | array items | object entries =>
      simp only [text?, isString, hnode]
      exact hshown (by rw [leaf, hnode])

end Mark

/-! ## Values -/

theorem isNative_blockMarks (shape : Shape) (depth : Value) {entries : List (List Mark)}
    (h : ∀ ms ∈ entries, ∀ m ∈ ms, m.IsNative) : ∀ m ∈ blockMarks shape depth entries, m.IsNative := by
  have hfill (first : Bool) : ∀ m ∈ fillMarks shape depth first entries, m.IsNative := by
    induction entries generalizing first with
    | nil => exact List.forall_mem_nil _
    | cons entry rest ih =>
      obtain ⟨hentry, hrest⟩ := List.forall_mem_cons.mp h
      exact List.forall_mem_append.mpr ⟨List.forall_mem_cons.mpr ⟨trivial, hentry⟩, ih hrest false⟩
  refine List.forall_mem_append.mpr ⟨List.forall_mem_cons.mpr ⟨trivial, hfill true⟩, ?_⟩
  exact List.forall_mem_singleton.mpr trivial

theorem isNative_pairMarks (key : Value) {ms : List Mark} (h : ∀ m ∈ ms, m.IsNative) :
    ∀ m ∈ pairMarks key ms, m.IsNative :=
  List.forall_mem_cons.mpr ⟨trivial, List.forall_mem_cons.mpr ⟨trivial, h⟩⟩

mutual

theorem isNative_marksAs (depth : Value) {whole : Value} (hwhole : ∀ e, whole.node ≠ .extension e) :
    (v : Value) → v.IsNative → ∀ m ∈ marksAs depth whole v, m.IsNative
  | .derived base, h => isNative_marksAs depth hwhole base h
  | .own _ v, h => isNative_marksAs depth hwhole v h
  | .sequence _ items, h => isNative_blockMarks .array depth (isNative_itemMarks (insideOf depth) items h)
  | .mapping _ entries, h =>
    isNative_blockMarks .object depth (isNative_entryMarks (insideOf depth) entries h)
  | .binary kind data, _ => by
    have hscalar (v depth : Value) (hv : ∀ e, v.node ≠ .extension e) :
        ∀ m ∈ [Mark.scalar v depth], m.IsNative := List.forall_mem_singleton.mpr hv
    refine isNative_blockMarks .object depth (List.forall_mem_cons.mpr ⟨?_, List.forall_mem_singleton.mpr ?_⟩)
    · exact isNative_pairMarks _ (hscalar _ _ nofun)
    · refine isNative_pairMarks _ (isNative_blockMarks .array _ (List.forall_mem_map.mpr fun b _ => ?_))
      exact hscalar _ _ nofun
  | .null, _ | .bool _, _ | .int _, _ | .float _, _ | .str _, _ | .setting _, _ | .memory _, _
  | .outer _, _ | .object _, _ | .type _, _ | .generator _, _ | .described _, _ =>
    List.forall_mem_singleton.mpr hwhole
termination_by structural v => v

theorem isNative_itemMarks (depth : Value) : (vs : List Value) → Value.AreTrees (fun _ => False) vs →
    ∀ ms ∈ itemMarks depth vs, ∀ m ∈ ms, m.IsNative
  | [], _ => List.forall_mem_nil _
  | v :: rest, h => List.forall_mem_cons.mpr
    ⟨isNative_marksAs depth (fun _ => Value.allowed_of_node v h.1) v h.1, isNative_itemMarks depth rest h.2⟩
termination_by structural vs => vs

theorem isNative_entryMarks (depth : Value) : (es : List (Value × Value)) →
    Value.EntriesAreTrees (fun _ => False) es → ∀ ms ∈ entryMarks depth es, ∀ m ∈ ms, m.IsNative
  | [], _ => List.forall_mem_nil _
  | (key, v) :: rest, h => List.forall_mem_cons.mpr
    ⟨isNative_pairMarks key (isNative_marksAs depth (fun _ => Value.allowed_of_node v h.1) v h.1),
      isNative_entryMarks depth rest h.2⟩
termination_by structural es => es

end

theorem isNative_marks (depth : Value) {v : Value} (hv : v.IsNative) :
    ∀ m ∈ marks depth v, m.IsNative :=
  isNative_marksAs depth (fun _ => Value.allowed_of_node v hv) v hv

section

variable (extend : Extender) (f : Format) (s : Session)

/-- The mark does not end in a fault in a session. -/
def Mark.isWritten (m : Mark) : Bool := (m.write extend f s).1.isOk

variable (ms : List Mark)

/-- The marks before the first one that ends in a fault. -/
def written : List Mark := ms.takeWhile (Mark.isWritten extend f s)

/-- The calls of the escaper for the strings at some marks. -/
def escapings : List Call := (ms.filterMap (Mark.text? s.describe)).map (.escaping f.asciiOnly)

theorem escapings_append (more : List Mark) :
    escapings f s (ms ++ more) = escapings f s ms ++ escapings f s more := by
  rw [escapings, List.filterMap_append, List.map_append]
  rfl

end

section

variable (extend : Extender) (f : Format) {s : Session} (hs : s.profiling = true)

include hs

/-- Whatever was counted before, a mark comes to the same, and counts the string at it if it is written. -/
theorem write_countAll {m : Mark} (hm : m.IsNative) (calls : List Call) :
    m.write extend f (s.countAll calls) = ((m.write extend f s).1,
      s.countAll (calls ++ if m.isWritten extend f s then escapings f s [m] else [])) := by
  obtain ⟨hfst, -⟩ := Mark.write_isCalm extend f hm s _ (s.alike_countAll calls)
  have hsnd := Mark.escapes_write extend f hm (s.countAll calls) hs
  rw [hfst, (s.alike_countAll calls).describe, ← Session.countAll_append] at hsnd
  refine Prod.ext hfst (hsnd.trans ?_)
  rw [Mark.isWritten]
  split
  · cases htext : m.text? s.describe <;> simp [escapings, htext]
  · rw [List.append_nil]

theorem writeAll_of_written {ms : List Mark} (h : ∀ m ∈ ms, m.IsNative)
    (hwritten : ∀ m ∈ ms, m.isWritten extend f s = true) (calls : List Call) :
    ∃ parts, writeAll extend f ms (s.countAll calls) =
      (.ok parts, s.countAll (calls ++ escapings f s ms)) := by
  induction ms generalizing calls with
  | nil => exact ⟨[], by rw [escapings, List.filterMap_nil, List.map_nil, List.append_nil]; rfl⟩
  | cons m rest ih =>
    obtain ⟨hm, hrest⟩ := List.forall_mem_cons.mp h
    obtain ⟨hfirst, hafter⟩ := List.forall_mem_cons.mp hwritten
    obtain ⟨more, hmore⟩ := ih hrest hafter (calls ++ escapings f s [m])
    have hwrite := write_countAll extend f hs hm calls
    rw [if_pos hfirst] at hwrite
    have hsplit : escapings f s (m :: rest) = escapings f s [m] ++ escapings f s rest :=
      escapings_append f s [m] rest
    cases hparts : (m.write extend f s).1 with
    | error e =>
      rw [Mark.isWritten, hparts] at hfirst
      cases hfirst
    | ok parts =>
      rw [hparts] at hwrite
      refine ⟨parts ++ more, ?_⟩
      rw [writeAll, Action.bind_apply, hwrite, Action.resume_ok, Action.bind_apply, hmore, hsplit,
        ← List.append_assoc]
      rfl

/-- A fault at a mark ends the writing. The strings at the marks before are counted. -/
theorem writeAll_of_fault {ms after : List Mark} {m : Mark} (h : ∀ m' ∈ ms ++ m :: after, m'.IsNative)
    (hwritten : ∀ m' ∈ ms, m'.isWritten extend f s = true) {e : Fault}
    (he : (m.write extend f s).1 = .error e) :
    writeAll extend f (ms ++ m :: after) s = (.error e, s.countAll (escapings f s ms)) := by
  obtain ⟨hms, hrest⟩ := List.forall_mem_append.mp h
  obtain ⟨parts, hparts⟩ := writeAll_of_written extend f hs hms hwritten []
  have hwrite := write_countAll extend f hs (List.forall_mem_cons.mp hrest).1 (escapings f s ms)
  have hunwritten : ¬ m.isWritten extend f s = true := by
    rw [Mark.isWritten, he]
    exact Bool.false_ne_true
  rw [Session.countAll_nil, List.nil_append] at hparts
  rw [if_neg hunwritten, he, List.append_nil] at hwrite
  rw [writeAll_append, Action.bind_apply, hparts, Action.resume_ok, Action.bind_apply, writeAll,
    Action.bind_apply, hwrite]
  rfl

/-- Marks are written up to the first one that ends in a fault, and the strings at these are counted. -/
theorem writeAll_counts {ms : List Mark} (h : ∀ m ∈ ms, m.IsNative) :
    (writeAll extend f ms s).2 = s.countAll (escapings f s (written extend f s ms)) ∧
      (∀ parts, (writeAll extend f ms s).1 = .ok parts → written extend f s ms = ms) ∧
      ∀ e, (writeAll extend f ms s).1 = .error e →
        ∃ m after, ms = written extend f s ms ++ m :: after ∧ (m.write extend f s).1 = .error e := by
  have hsplit : written extend f s ms ++ ms.dropWhile (Mark.isWritten extend f s) = ms :=
    List.takeWhile_append_dropWhile
  have hwritten : ∀ m ∈ written extend f s ms, m.isWritten extend f s = true := fun m hm =>
    List.mem_takeWhile_imp hm
  have hfirst := List.head?_dropWhile_not (Mark.isWritten extend f s) ms
  cases hrest : ms.dropWhile (Mark.isWritten extend f s) with
  | nil =>
    have hall : written extend f s ms = ms := by rwa [hrest, List.append_nil] at hsplit
    rw [hall] at hwritten ⊢
    obtain ⟨parts, hparts⟩ := writeAll_of_written extend f hs h hwritten []
    rw [Session.countAll_nil, List.nil_append] at hparts
    rw [hparts]
    exact ⟨rfl, fun _ _ => rfl, by simp⟩
  | cons m after =>
    rw [hrest] at hsplit hfirst
    cases he : (m.write extend f s).1 with
    | ok parts =>
      have hunwritten : m.isWritten extend f s = false := hfirst
      rw [Mark.isWritten, he] at hunwritten
      cases hunwritten
    | error e =>
      have hrun := writeAll_of_fault extend f hs (hsplit.symm ▸ h) hwritten he
      rw [hsplit] at hrun
      rw [hrun]
      refine ⟨rfl, by simp, fun e' he' => ⟨m, after, hsplit.symm, ?_⟩⟩
      rw [he]
      exact he'

end

end Render

end JsonWriter
