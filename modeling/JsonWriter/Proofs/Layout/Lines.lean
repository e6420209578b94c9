import JsonWriter.Proofs.Layout.Blanks

/-!
# Lines

Where containers take line feeds, the lines of the text are indented by the brackets that are open. What
is shown line by line is put together from what holds after each line feed of a part. Main statements:
`Aligned.append`, `layOut_laid` and `generate_lines`.
-/

namespace JsonWriter

open Generator (Format)
open Json (IsBlank IsClosing IsOpening IsToken IsWhole balance bracket lineFeed)

/-! ## Texts and their lines -/

namespace Text

variable {c : CodePoint}

theorem not_mem_of_mem_splitOn {t line : Text} (h : line ∈ t.splitOn c) : c ∉ line := by
  induction t generalizing line with
  | nil =>
    rw [List.splitOn_nil, List.mem_singleton] at h
    exact h ▸ List.not_mem_nil
  | cons d t ih =>
    rw [List.splitOn_cons_eq_if_modifyHead] at h
    split at h
    · obtain rfl | h := List.mem_cons.mp h
      · exact List.not_mem_nil
      · exact ih h
    · next hne =>
      obtain ⟨first, more, hsplit⟩ := List.exists_cons_of_ne_nil (List.splitOn_ne_nil c t)
      rw [hsplit, List.modifyHead_cons] at h
      obtain rfl | h := List.mem_cons.mp h
      · have hfirst : c ∉ first := ih (hsplit ▸ List.mem_cons_self)
        exact List.not_mem_cons_of_ne_of_not_mem (fun heq => hne (by simp [heq])) hfirst
      · exact ih (hsplit ▸ List.mem_cons_of_mem _ h)

theorem intercalate_append {before after : List Text} (hbefore : before ≠ []) (hafter : after ≠ []) :
    [c].intercalate (before ++ after) = [c].intercalate before ++ c :: [c].intercalate after := by
  induction before with
  | nil => exact absurd rfl hbefore
  | cons line before ih =>
    cases before with
    | nil => rw [List.singleton_append, List.intercalate_cons_of_ne_nil hafter, List.intercalate_singleton,
        List.append_assoc, List.singleton_append]
    | cons next before =>
      rw [List.cons_append, List.intercalate_cons_of_ne_nil (by simp), ih (List.cons_ne_nil _ _),
        List.intercalate_cons_of_ne_nil (List.cons_ne_nil _ _), List.append_assoc, List.append_assoc,
        List.append_assoc]

/-- After some of its lines a text goes on with the other ones. -/
theorem exists_of_splitOn {t line : Text} {before after : List Text}
    (h : t.splitOn c = before ++ line :: after) (hbefore : before ≠ []) :
    ∃ rest, t = [c].intercalate before ++ c :: rest ∧ rest.splitOn c = line :: after := by
  refine ⟨[c].intercalate (line :: after), ?_, ?_⟩
  · rw [← intercalate_append hbefore (List.cons_ne_nil _ _), ← h, List.intercalate_splitOn]
  · refine List.splitOn_intercalate c (fun l hl => ?_) (List.cons_ne_nil _ _)
    exact not_mem_of_mem_splitOn (t := t) (h ▸ List.mem_append_right _ hl)

/-- What comes before the separator is at the start of the first line. -/
theorem splitOn_append {s t : Text} (h : c ∉ s) :
    ∃ line more, (s ++ t).splitOn c = (s ++ line) :: more := by
  induction s with
  | nil => exact List.exists_cons_of_ne_nil (List.splitOn_ne_nil c t)
  | cons d s ih =>
    obtain ⟨hd, hs⟩ := List.ne_and_not_mem_of_not_mem_cons h
    obtain ⟨line, more, hsplit⟩ := ih hs
    refine ⟨line, more, ?_⟩
    rw [List.cons_append, List.splitOn_cons_eq_if_modifyHead, if_neg (by simpa using hd.symm), hsplit,
      List.modifyHead_cons, List.cons_append]

end Text

/-! ## After a line feed -/

/-- A space or a tab. -/
def IsSpace (c : CodePoint) : Prop := c.val = 0x20 ∨ c.val = 0x09

instance (c : CodePoint) : Decidable (IsSpace c) := inferInstanceAs (Decidable (_ ∨ _))

/-- A character that starts neither a string nor a line and is no bracket. -/
def IsInert (c : CodePoint) : Prop := c ≠ Json.quote ∧ c ≠ lineFeed ∧ bracket c = 0

instance (c : CodePoint) : Decidable (IsInert c) := inferInstanceAs (Decidable (_ ∧ _ ∧ _))

theorem IsSpace.isInert {c : CodePoint} (h : IsSpace c) : IsInert c := by
  have hne {d : CodePoint} (hd : ¬ IsSpace d) : c ≠ d := fun heq => hd (heq ▸ h)
  have hclosing : ¬ IsClosing c := not_or.mpr ⟨hne (by decide), hne (by decide)⟩
  refine ⟨hne (by decide), hne (by decide), ?_⟩
  rw [bracket, if_neg (not_or.mpr ⟨hne (by decide), hne (by decide)⟩), if_neg hclosing]

/-- Between the brackets of an empty container is an empty line. -/
def InEmpty (indent before rest : Text) : Prop :=
  ∃ shape : Render.Shape, ∃ start k more, before = start ++ [shape.opening] ∧
    rest = lineFeed :: (copies indent k ++ shape.closing :: more)

/-- After `n` open brackets comes that many times the indentation, once less before a bracket that
closes. -/
def IsIndented (indent : Text) (n : Int) (before rest : Text) : Prop :=
  ∃ k c more, rest = copies indent k ++ c :: more ∧ ¬ IsBlank c ∧
    (k : Int) = n + balance before - if IsClosing c then 1 else 0

/-- Each line feed in a text is outside strings, and a line starts after it as it should, where `n`
brackets are open before the text. -/
def Aligned (indent : Text) (n : Int) (t : Text) : Prop :=
  ∀ before rest, t = before ++ lineFeed :: rest →
    IsWhole before ∧ (InEmpty indent before rest ∨ IsIndented indent n before rest)

section

variable {indent : Text} {n : Int} {u v : Text}

theorem aligned_of_not_mem (h : lineFeed ∉ u) : Aligned indent n u := by
  rintro before rest rfl
  simp at h

/-- The lines of a part stay as they are in a text that the part ends. -/
theorem shift {before rest : Text} (hwhole : IsWhole u) (h : IsWhole before)
    (hline : InEmpty indent before rest ∨ IsIndented indent (n + balance u) before rest) :
    IsWhole (u ++ before) ∧
      (InEmpty indent (u ++ before) rest ∨ IsIndented indent n (u ++ before) rest) := by
  refine ⟨hwhole.append h, hline.imp ?_ ?_⟩
  · rintro ⟨shape, start, k, more, rfl, hrest⟩
    exact ⟨shape, u ++ start, k, more, (List.append_assoc _ _ _).symm, hrest⟩
  · rintro ⟨k, c, more, hrest, hc, hk⟩
    refine ⟨k, c, more, hrest, hc, ?_⟩
    rw [hk, Json.balance_append hwhole, Int.add_assoc]

theorem Aligned.append (hu : Aligned indent n u) (hwhole : IsWhole u)
    (hv : Aligned indent (n + balance u) v) : Aligned indent n (u ++ v) := by
  intro before rest h
  obtain ⟨a, rfl, hsplit⟩ | ⟨a, hsplit, ha⟩ := List.append_eq_append_iff.mp h
  · obtain ⟨hbefore, hline⟩ := hv a rest hsplit
    exact shift hwhole hbefore hline
  · cases a with
    | nil =>
      obtain rfl : u = before := by simpa using hsplit
      obtain ⟨hbefore, hline⟩ := hv [] rest ha.symm
      simpa using shift hwhole hbefore hline
    | cons c a =>
      obtain ⟨rfl, rfl⟩ := List.cons.inj ha
      obtain ⟨hbefore, hline⟩ := hu before a hsplit
      refine ⟨hbefore, hline.imp ?_ ?_⟩
      · rintro ⟨shape, start, k, more, hstart, rfl⟩
        exact ⟨shape, start, k, more ++ v, hstart, by simp⟩
      · rintro ⟨k, c, more, rfl, hc, hk⟩
        exact ⟨k, c, more ++ v, by simp, hc, hk⟩

section

variable (hindent : ∀ c ∈ indent, IsSpace c)

include hindent

theorem copies_level (k : Nat) : IsWhole (lineFeed :: copies indent k) ∧
    balance (lineFeed :: copies indent k) = 0 ∧ lineFeed ∉ copies indent k := by
  have hinert (c : CodePoint) (hc : c ∈ copies indent k) : IsInert c :=
    (forall_mem_copies hindent k c hc).isInert
  have hquote : Json.quote ∉ lineFeed :: copies indent k :=
    List.not_mem_cons_of_ne_of_not_mem (by decide) fun hmem => (hinert _ hmem).1 rfl
  refine ⟨Json.isWhole_of_ne_quote hquote, Json.balance_eq_zero hquote ?_,
    fun hmem => (hinert _ hmem).2.1 rfl⟩
  exact List.forall_mem_cons.mpr ⟨by decide, fun c hc => (hinert c hc).2.2⟩

/-- A line feed and the right indentation before a text. -/
theorem aligned_line {c : CodePoint} {w : Text} {k : Nat} (hc : ¬ IsBlank c)
    (hk : (k : Int) = n - if IsClosing c then 1 else 0) (h : Aligned indent n (c :: w)) :
    Aligned indent n (lineFeed :: (copies indent k ++ c :: w)) := by
  obtain ⟨hwhole, hbalance, hcopies⟩ := copies_level hindent k
  intro before rest hsplit
  cases before with
  | nil =>
    obtain rfl := (List.cons.inj hsplit).2
    exact ⟨rfl, .inr ⟨k, c, w, rfl, hc, by rw [hk, show balance [] = 0 from rfl, Int.add_zero]⟩⟩
  | cons d before =>
    obtain ⟨rfl, hrest⟩ := List.cons.inj hsplit
    obtain ⟨a, rfl, hw⟩ | ⟨a, ha, hw⟩ := List.append_eq_append_iff.mp hrest
    · obtain ⟨hbefore, hline⟩ := h a rest hw
      exact shift hwhole hbefore (by rwa [hbalance, Int.add_zero])
    · cases a with
      | nil =>
        obtain rfl := (List.cons.inj hw).1
        exact absurd (by decide) hc
      | cons d a =>
        obtain ⟨rfl, -⟩ := List.cons.inj hw
        exact absurd (ha ▸ List.mem_append_right _ List.mem_cons_self) hcopies

end

/-- A part that leaves as many brackets open as there were before it, with all of its lines indented. -/
structure Level (indent : Text) (n : Int) (t : Text) : Prop where
  whole : IsWhole t
  balanced : balance t = 0
  aligned : Aligned indent n t

/-- The text of a value: it starts with a character that is not blank and closes nothing. -/
structure Laid (indent : Text) (n : Int) (t : Text) : Prop extends Level indent n t where
  starts : ∃ c rest, t = c :: rest ∧ IsOpening c

theorem Level.append (hu : Level indent n u) (hv : Level indent n v) : Level indent n (u ++ v) where
  whole := hu.whole.append hv.whole
  balanced := by rw [Json.balance_append hu.whole, hu.balanced, hv.balanced, Int.add_zero]
  aligned := hu.aligned.append hu.whole (by rw [hu.balanced, Int.add_zero]; exact hv.aligned)

theorem level_of_isInert (h : ∀ c ∈ u, IsInert c) : Level indent n u where
  whole := Json.isWhole_of_ne_quote fun hmem => (h _ hmem).1 rfl
  balanced := Json.balance_eq_zero (fun hmem => (h _ hmem).1 rfl) fun c hc => (h c hc).2.2
  aligned := aligned_of_not_mem fun hmem => (h _ hmem).2.1 rfl

theorem Json.IsToken.laid (h : IsToken u) : Laid indent n u where
  whole := h.isWhole
  balanced := h.balance_eq_zero
  aligned := aligned_of_not_mem h.not_mem_lineFeed
  starts := h.isOpening

/-- A line feed, the indentation for the brackets that are open, and a value. -/
theorem Laid.level_line (hindent : ∀ c ∈ indent, IsSpace c) {k : Nat} (h : Laid indent k u) :
    Level indent k (lineFeed :: copies indent k ++ u) := by
  obtain ⟨hwhole, hbalance, -⟩ := copies_level hindent k
  obtain ⟨c, rest, rfl, hc⟩ := h.starts
  refine ⟨hwhole.append h.whole, by rw [Json.balance_append hwhole, hbalance, h.balanced]; rfl, ?_⟩
  have hclosing : ¬ IsClosing c := by
    obtain rfl | rfl | rfl | hword := hc
    · decide
    · decide
    · decide
    · rintro (rfl | rfl) <;> exact absurd hword (by decide)
  refine aligned_line hindent (Json.not_isBlank_of_isOpening hc) ?_ h.aligned
  rw [if_neg hclosing, Int.sub_zero]

section

variable (shape : Render.Shape)

theorem opening_level : IsOpening shape.opening ∧ shape.opening ≠ lineFeed ∧
    IsWhole [shape.opening] ∧ balance [shape.opening] = 1 ∧ IsWhole [shape.opening, lineFeed] ∧
    balance [shape.opening, lineFeed] = 1 := by
  cases shape <;> decide

theorem closing_level : ¬ IsBlank shape.closing ∧ IsClosing shape.closing ∧
    IsWhole [shape.closing] ∧ balance [shape.closing] = -1 ∧ lineFeed ∉ [shape.closing] := by
  cases shape <;> decide

variable (hindent : ∀ c ∈ indent, IsSpace c) {k : Nat}

include hindent

/-- The end of a container: a line feed, the indentation for the brackets that are still open then, and a
bracket. -/
theorem aligned_ending :
    let ending := lineFeed :: (copies indent k ++ [shape.closing])
    IsWhole ending ∧ balance ending = -1 ∧ Aligned indent (k + 1) ending := by
  intro ending
  obtain ⟨hwhole, hbalance, -⟩ := copies_level hindent k
  obtain ⟨hblank, hclosing, hwhole', hbalance', hmem⟩ := closing_level shape
  have hsplit : ending = (lineFeed :: copies indent k) ++ [shape.closing] := rfl
  refine ⟨hsplit ▸ hwhole.append hwhole', ?_, ?_⟩
  · rw [hsplit, Json.balance_append hwhole, hbalance, hbalance', Int.zero_add]
  · refine aligned_line hindent hblank ?_ (aligned_of_not_mem hmem)
    rw [if_pos hclosing, Int.add_sub_cancel]

theorem laid_empty : Laid indent k
    (shape.opening :: lineFeed :: lineFeed :: (copies indent k ++ [shape.closing])) := by
  obtain ⟨hopening, hne, hwhole, -, hwhole', hbalance'⟩ := opening_level shape
  obtain ⟨hend, hbalance, haligned⟩ := aligned_ending shape hindent (k := k)
  generalize hw : lineFeed :: (copies indent k ++ [shape.closing]) = w at hend hbalance haligned ⊢
  refine ⟨⟨hwhole'.append hend, ?_, ?_⟩, _, _, rfl, hopening⟩
  · have hsplit : shape.opening :: lineFeed :: w = [shape.opening, lineFeed] ++ w := rfl
    rw [hsplit, Json.balance_append hwhole', hbalance', hbalance]
    rfl
  · intro before rest h
    match before with
    | [] => exact absurd (List.cons.inj h).1 hne
    | [_] =>
      simp only [List.cons_append, List.nil_append, List.cons.injEq] at h
      obtain ⟨rfl, -, rfl⟩ := h
      exact ⟨hwhole, .inl ⟨shape, [], k, [], rfl, hw.symm⟩⟩
    | _ :: _ :: before =>
      simp only [List.cons_append, List.cons.injEq] at h
      obtain ⟨rfl, rfl, h⟩ := h
      obtain ⟨hbefore, hline⟩ := haligned before rest h
      exact shift hwhole' hbefore (by rwa [hbalance'])

/-- A container with lines in it. -/
theorem laid_block (h : Level indent (k + 1) u) :
    Laid indent k (shape.opening :: u ++ lineFeed :: (copies indent k ++ [shape.closing])) := by
  obtain ⟨hopening, hne, hwhole, hbalance, -, -⟩ := opening_level shape
  obtain ⟨hend, hbalance', haligned⟩ := aligned_ending shape hindent (k := k)
  generalize lineFeed :: (copies indent k ++ [shape.closing]) = w at hend hbalance' haligned ⊢
  have hsplit : shape.opening :: u ++ w = [shape.opening] ++ (u ++ w) := rfl
  rw [hsplit]
  refine ⟨⟨hwhole.append (h.whole.append hend), ?_, ?_⟩, _, _, rfl, hopening⟩
  · rw [Json.balance_append hwhole, Json.balance_append h.whole, hbalance, h.balanced, hbalance']
    rfl
  · refine (aligned_of_not_mem (by simpa using hne.symm)).append hwhole ?_
    rw [hbalance]
    exact h.aligned.append h.whole (by rwa [h.balanced, Int.add_zero])

end

end

/-! ## Layouts with line feeds -/

/-- Containers take line feeds, and spaces and tabs are all else between tokens. -/
structure Generator.Format.HasLines (f : Format) (indent : Text) : Prop where
  text : f.indent.text? = some indent
  spaces : ∀ c ∈ indent, IsSpace c
  colon : ∃ before after, f.colon = .ok (before ++ .ofChar ':' :: after) ∧
    (∀ c ∈ before, IsSpace c) ∧ ∀ c ∈ after, IsSpace c
  newline : ∀ shape : Render.Shape, shape.newline f = .ok [lineFeed]

namespace Render

section

variable {f : Format} {indent : Text} (hf : f.HasLines indent)
  {tokens : Value → Value → Except Fault Text} {keys : Value → Except Fault Text}

include hf

theorem margin_join {n : Nat} {parts : List Part}
    (h : margin f [lineFeed] (.whole n) = .ok parts) : Part.join parts = .ok (copies indent n) := by
  obtain ⟨w, hw, rfl⟩ := map_eq_ok.mp h
  obtain ⟨k, hk, rfl⟩ := Value.times_eq_ok hf.text hw
  obtain rfl : (n : Int) = k := Option.some.inj hk
  exact Part.join_text (copies indent n)

theorem gap_join {n : Nat} {first : Bool} {parts : List Part}
    (h : gap f [lineFeed] (.whole n) first = .ok parts) :
    Part.join parts = .ok (if first then copies indent n else
      .ofChar ',' :: lineFeed :: copies indent n) := by
  obtain ⟨m, hm, rfl⟩ := map_eq_ok.mp h
  have hjoin := margin_join hf hm
  cases first with
  | true => exact hjoin
  | false => exact Part.join_cons_eq_ok.mpr ⟨_, hjoin, rfl⟩

theorem ending_join {n : Nat} {shape : Shape} {parts : List Part}
    (h : ending f shape [lineFeed] (.whole n) = .ok parts) :
    Part.join parts = .ok (lineFeed :: (copies indent n ++ [shape.closing])) := by
  obtain ⟨m, hm, rfl⟩ := map_eq_ok.mp h
  have hclosing := Part.join_append_eq_ok.mpr
    ⟨_, _, margin_join hf hm, Part.join_text [shape.closing], rfl⟩
  exact Part.join_cons_eq_ok.mpr ⟨_, hclosing, rfl⟩

/-- What comes of a value joins to a text that is laid out after so many open brackets. -/
def IsLaid (indent : Text) (n : Nat) (r : Except Fault (List Part)) : Prop :=
  ∀ parts t, r = .ok parts → Part.join parts = .ok t → Laid indent n t

/-- The entries of a container, with the line feed that comes before the first one. -/
theorem fill_level {n : Nat} {entries : List (Except Fault (List Part))}
    (hentries : ∀ r ∈ entries, IsLaid indent n r) {first : Bool} (hne : entries ≠ [] ∨ first = false)
    {parts : List Part} {t : Text}
    (h : fill (.knowing tokens keys) f [lineFeed] (.whole n) first entries = .ok parts)
    (ht : Part.join parts = .ok t) : Level indent n (if first then lineFeed :: t else t) := by
  induction entries generalizing first parts t with
  | nil =>
    obtain rfl : first = false := hne.resolve_left fun hne => hne rfl
    obtain rfl := Except.ok.inj h
    obtain rfl := Except.ok.inj ht
    exact level_of_isInert (List.forall_mem_nil _)
  | cons r rest ih =>
    obtain ⟨before, entry, more, hbefore, hr, hmore, rfl⟩ := fill_cons_eq_ok.mp h
    obtain ⟨_, w, huv, hw, rfl⟩ := Part.join_append_eq_ok.mp ht
    obtain ⟨_, v, hu, hv, rfl⟩ := Part.join_append_eq_ok.mp huv
    obtain rfl := Except.ok.inj ((gap_join hf hbefore).symm.trans hu)
    obtain ⟨hlaid, hrest⟩ := List.forall_mem_cons.mp hentries
    have hmore : Level indent n w := ih hrest (.inr rfl) hmore hw
    have hline := ((hlaid entry v hr hv).level_line hf.spaces).append hmore
    cases first with
    | true => simpa using hline
    | false =>
      have hcomma : Level indent n [.ofChar ','] := level_of_isInert (by decide)
      simpa using hcomma.append hline

theorem block_laid {shape : Shape} {depth : Value} {d : Nat} (hd : depth.int? = some (d : Int))
    {entries : Number → List (Except Fault (List Part))}
    (hentries : ∀ r ∈ entries (.whole (d + 1)), IsLaid indent (d + 1) r) :
    IsLaid indent d (block (.knowing tokens keys) f shape depth entries) := by
  intro parts t h ht
  obtain ⟨-, newline, inner, body, last, hnewline, hinner, hbody, hlast, rfl⟩ := block_eq_ok.mp h
  obtain rfl := Except.ok.inj ((hf.newline shape).symm.trans hnewline)
  obtain rfl := Except.ok.inj ((Value.succ_of_int? hd).symm.trans hinner)
  obtain ⟨_, w, hu, hw, rfl⟩ := Part.join_append_eq_ok.mp ht
  obtain ⟨v, hv, rfl⟩ := Part.join_cons_eq_ok.mp hu
  rw [Number.pred_succ] at hlast
  obtain rfl := Except.ok.inj ((ending_join hf hlast).symm.trans hw)
  cases hentries' : entries (.whole (d + 1)) with
  | nil =>
    rw [hentries'] at hbody
    obtain rfl := Except.ok.inj hbody
    obtain rfl := Except.ok.inj hv
    exact laid_empty shape hf.spaces
  | cons r rest =>
    have hne : entries (.whole (d + 1)) ≠ [] := by simp [hentries']
    have hlevel : Level indent (d + 1 : Nat) (lineFeed :: v) :=
      fill_level hf hentries (.inl hne) hbody hv
    exact laid_block shape hf.spaces hlevel

theorem pair_laid {n : Nat} {key : Value} (hkey : ∀ t, keys key = .ok t → IsToken t)
    {r : Except Fault (List Part)} (hr : IsLaid indent n r) :
    IsLaid indent n (pair (.knowing tokens keys) f key r) := by
  intro parts t h ht
  obtain ⟨label, colon, entry, hlabel, hcolon, hentry, rfl⟩ := pair_eq_ok.mp h
  obtain ⟨_, hrest, rfl⟩ := Part.join_cons_eq_ok.mp ht
  obtain ⟨u, hu, rfl⟩ := Part.join_cons_eq_ok.mp hrest
  obtain ⟨before, after, hcolon', hbefore, hafter⟩ := hf.colon
  obtain rfl := Except.ok.inj (hcolon'.symm.trans hcolon)
  have htoken : Laid indent n label := (hkey label hlabel).laid
  obtain ⟨c, rest, rfl, hc⟩ := htoken.starts
  have hcolon : Level indent n (before ++ .ofChar ':' :: after) :=
    level_of_isInert (List.forall_mem_append.mpr ⟨fun c hc => (hbefore c hc).isInert,
      List.forall_mem_cons.mpr ⟨by decide, fun c hc => (hafter c hc).isInert⟩⟩)
  exact ⟨htoken.toLevel.append (hcolon.append (hr entry u hentry hu).toLevel), _, _, rfl, hc⟩

/-- A value is laid out with its lines indented. -/
theorem layOut_laid
    (htoken : ∀ v depth t, v.IsNative → container? v = none → tokens v depth = .ok t → IsToken t)
    (hkey : ∀ key t, keys key = .ok t → IsToken t) {v : Value} (hv : v.IsNative) {depth : Value} {d : Nat}
    (hd : depth.int? = some (d : Int)) : IsLaid indent d (layOut (.knowing tokens keys) f depth v) := by
  induction v, hv using Value.tree_induction generalizing depth d with
  | scalar v h hscalar =>
    rw [layOut_of_scalar _ _ _ hscalar]
    intro parts t hparts ht
    obtain ⟨u, hu, rfl⟩ := token_eq_ok.mp hparts
    obtain rfl := Except.ok.inj ((Part.join_text u).symm.trans ht)
    exact (htoken v depth u h hscalar hu).laid
  | sequence v h kind items hcontent ih =>
    rw [layOut_of_sequence _ _ _ hcontent]
    refine block_laid hf hd (List.forall_mem_map.mpr fun w hw => ?_)
    exact (ih w hw).2 rfl
  | mapping v h kind entries hcontent ih =>
    rw [layOut_of_mapping _ _ _ hcontent]
    refine block_laid hf hd (List.forall_mem_map.mpr fun e he => ?_)
    obtain ⟨_, ih⟩ := ih e he
    exact pair_laid hf (hkey e.1) (ih rfl)
  | binary v h kind data hcontent ih =>
    rw [layOut_of_binary _ _ _ hcontent]
    exact ih.2 hd

end

end Render

/-! ## Generating -/

/-- Containers take line feeds, and spaces and tabs are all else that is set between tokens. -/
structure Generator.HasLines (g : Generator) (indent : Text) : Prop where
  text : g.indent.text? = some indent
  spaces : ∀ s ∈ [Setting.indent, .space, .spaceBefore], ∃ t, (g.get s).text? = some t ∧
    ∀ c ∈ t, IsSpace c
  newlines : ∀ s ∈ [Setting.objectNewline, .arrayNewline], (g.get s).text? = some [lineFeed]

theorem Generator.HasLines.format {g : Generator} {indent : Text} (h : g.HasLines indent) :
    g.format.HasLines indent := by
  obtain ⟨htext, hspaces, hnewlines⟩ := h
  obtain ⟨indent', hindent, hindent'⟩ := hspaces .indent (by decide)
  obtain ⟨space, hspace, hspace'⟩ := hspaces .space (by decide)
  obtain ⟨before, hbefore, hbefore'⟩ := hspaces .spaceBefore (by decide)
  obtain rfl : indent = indent' := Option.some.inj (htext.symm.trans hindent)
  refine ⟨htext, hindent', ⟨before, space, format_colon hbefore hspace, hbefore', hspace'⟩,
    fun shape => ?_⟩
  cases shape with
  | array => exact Value.textAfter_of_text? (hnewlines .arrayNewline (by decide))
  | object => exact Value.textAfter_of_text? (hnewlines .objectNewline (by decide))

/-- Lines with what is between them. -/
def Text.unlines (lines : List Text) : Text := [lineFeed].intercalate lines

/-- The line is empty and between the brackets of an empty container. -/
def IsEmptyLine (indent : Text) (before : List Text) (line : Text) (after : List Text) : Prop :=
  line = [] ∧ ∃ shape : Render.Shape, ∃ start k rest more,
    Text.unlines before = start ++ [shape.opening] ∧
      after = (copies indent k ++ shape.closing :: rest) :: more

/-- The line is indented by the number of brackets that are open before it, where `d` count as open before
the text, and one less if the line starts with a closing one. -/
def IsIndentedLine (indent : Text) (d : Int) (before : List Text) (line : Text) : Prop :=
  ∃ k c rest, line = copies indent k ++ c :: rest ∧ ¬ IsBlank c ∧
    (k : Int) = d + balance (Text.unlines before) - if IsClosing c then 1 else 0

theorem Aligned.lines {indent : Text} (hindent : ∀ c ∈ indent, IsSpace c) {d : Int} {t : Text}
    (h : Aligned indent d t) {before : List Text} {line : Text} {after : List Text}
    (hlines : t.splitOn lineFeed = before ++ line :: after) (hbefore : before ≠ []) :
    IsEmptyLine indent before line after ∨ IsIndentedLine indent d before line := by
  obtain ⟨rest, ht, hrest⟩ := Text.exists_of_splitOn hlines hbefore
  have hcopies (k : Nat) : lineFeed ∉ copies indent k := (copies_level hindent k).2.2
  obtain ⟨-, ⟨shape, start, k, more, hstart, rfl⟩ | ⟨k, c, more, rfl, hc, hk⟩⟩ := h _ rest ht
  · refine .inl ?_
    have hne : shape.closing ≠ lineFeed := by cases shape <;> decide
    have hmem : lineFeed ∉ copies indent k ++ [shape.closing] := by simp [hcopies k, hne.symm]
    obtain ⟨last, lines, hlast⟩ := Text.splitOn_append (t := more) hmem
    rw [List.splitOn_cons_eq_if_modifyHead, if_pos (by simp)] at hrest
    obtain ⟨rfl, hafter⟩ := List.cons.inj hrest
    refine ⟨rfl, shape, start, k, last, lines, hstart, ?_⟩
    rw [← hafter]
    simpa using hlast
  · refine .inr ?_
    have hne : c ≠ lineFeed := by
      rintro rfl
      exact hc (by decide)
    have hmem : lineFeed ∉ copies indent k ++ [c] := by simp [hcopies k, hne.symm]
    obtain ⟨last, lines, hlast⟩ := Text.splitOn_append (t := more) hmem
    rw [List.append_assoc, List.singleton_append, hrest] at hlast
    exact ⟨k, c, last, by simpa using (List.cons.inj hlast).1, hc, hk⟩

/-- Where containers take line feeds, each line feed in a text is outside strings, and each line but the
first is the empty one in an empty container or starts with as many indentations as brackets are open,
counted from the depth of the generator. -/
theorem generate_lines {v : Value} (hv : v.IsNative) {s : Session} {id : Nat} {g : Generator}
    (hg : s.generator? id = some g) {d : Nat} (hd : g.depth.int? = some (d : Int)) {indent : Text}
    (hlines : g.HasLines indent) {t : Text} (ht : (generate v id s).1 = .ok t) :
    (∀ before rest, t = before ++ lineFeed :: rest → IsWhole before) ∧
      ∀ before line after, t.splitOn lineFeed = before ++ line :: after → before ≠ [] →
        IsEmptyLine indent before line after ∨ IsIndentedLine indent d before line := by
  obtain ⟨parts, hparts, hjoin, -⟩ := (generate_eq_ok hv hg).mp ht
  have hlaid : Laid indent d t := Render.layOut_laid hlines.format (fun _ _ _ => Render.leaf_isToken)
    (fun _ _ => Render.label_isToken) hv hd parts t hparts hjoin
  exact ⟨fun before rest h => (hlaid.aligned before rest h).1,
    fun _ _ _ => hlaid.aligned.lines hlines.format.spaces⟩

/-- A list with an empty list and an object in it, where keys and strings hold brackets and a line feed. -/
def bracketSample : Value :=
  .sequence .tuple [.list [], .mapping .view [(.str (text "[\n"), .str (text "\x7d"))]]

/-- One level in, with a space and a tab as the indentation and a space around colons. -/
def lineGenerator : Generator :=
  { Generator.initial with
    indent := .str (text " \t"), space := .str (text " "), spaceBefore := .str (text " "),
    objectNewline := .str (text "\n"), arrayNewline := .str (text "\n"), depth := .int 1 }

def bracketText : Text :=
  text "[\n \t \t[\n\n \t \t],\n \t \t\x7b\n \t \t \t\"[\\n\" : \"\x7d\"\n \t \t\x7d\n \t]"

theorem generate_bracketSample :
    let s := { Session.initial true with generators := #[lineGenerator] }
    bracketSample.IsNative ∧ lineGenerator.HasLines (text " \t") ∧
      (generate bracketSample 0 s).1 = .ok bracketText ∧
      ∀ before line after, bracketText.splitOn lineFeed = before ++ line :: after → before ≠ [] →
        IsEmptyLine (text " \t") before line after ∨ IsIndentedLine (text " \t") 1 before line := by
  intro s
  have hv : bracketSample.IsNative := ⟨trivial, ⟨trivial, trivial⟩, trivial⟩
  have hg : s.generator? 0 = some lineGenerator := rfl
  have hlines : lineGenerator.HasLines (text " \t") := by
    refine ⟨rfl, ?_, ?_⟩
    · simp only [List.forall_mem_cons]
      exact ⟨⟨_, rfl, by decide⟩, ⟨_, rfl, by decide⟩, ⟨_, rfl, by decide⟩, List.forall_mem_nil _⟩
    · simp only [List.forall_mem_cons]
      exact ⟨rfl, rfl, List.forall_mem_nil _⟩
  have ht : (generate bracketSample 0 s).1 = .ok bracketText := by
    rw [generate_outcome hv hg]
    decide +kernel
  exact ⟨hv, hlines, ht, (generate_lines hv hg (d := 1) rfl hlines ht).2⟩

end JsonWriter
