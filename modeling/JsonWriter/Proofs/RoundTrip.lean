import JsonWriter.Proofs.Json.Normal
import JsonWriter.Proofs.Json.Reader
import JsonWriter.Proofs.Layout.Parts

/-!
# Generated text reads back

With blanks as the texts between tokens, what is generated for a value without objects that write
themselves is one JSON value, and to a reader it is the normal form of the value. Main statement:
`generate_spells`.
-/

namespace JsonWriter

open Json (AllBlank Spells SpellsText SpellsItems SpellsMembers SpellsString SpellsName)

namespace Json

/-- One item or more, with commas between. -/
inductive Separated {β : Type} (item : Text → β → Prop) : Text → List β → Prop
  | last {t : Text} {b : β} (h : item t b) : Separated item t [b]
  | more {t rest : Text} {b : β} {bs : List β} (h : item t b) (hrest : Separated item rest bs) :
    Separated item (t ++ .ofChar ',' :: rest) (b :: bs)

/-- A name, a colon and a value. -/
inductive SpellsMember (nan : Bool) : Text → Text × Json → Prop
  | intro {name key t : Text} {j : Json} (hkey : SpellsName name key) (h : SpellsText nan t j) :
    SpellsMember nan (name ++ .ofChar ':' :: t) (key, j)

theorem Separated.spellsItems {nan : Bool} {t : Text} {items : List Json}
    (h : Separated (SpellsText nan) t items) : SpellsItems nan t items := by
  induction h with
  | last h => exact .last h
  | more h _ ih => exact .more h ih

theorem Separated.spellsMembers {nan : Bool} {t : Text} {members : List (Text × Json)}
    (h : Separated (SpellsMember nan) t members) : SpellsMembers nan t members := by
  induction h with
  | last h =>
    obtain ⟨hkey, h⟩ := h
    exact .last hkey h
  | more h _ ih =>
    obtain ⟨hkey, h⟩ := h
    exact .more hkey h ih

theorem Spells.spellsText {nan : Bool} {t : Text} {j : Json} (h : Spells nan t j) : SpellsText nan t j := by
  simpa using SpellsText.intro (List.forall_mem_nil _) h (List.forall_mem_nil _)

theorem allBlank_append {s t : Text} (hs : AllBlank s) (ht : AllBlank t) : AllBlank (s ++ t) :=
  List.forall_mem_append.mpr ⟨hs, ht⟩

end Json

namespace Render

open Generator (Format)
open Json (Separated SpellsMember allBlank_append IsBlank)

section

variable {tokens : Value → Value → Except Fault Text} {keys : Value → Except Fault Text} {f : Format}
  (hf : f.HasLayout IsBlank)

include hf

section

variable {ι β : Type} {item : Text → β → Prop} {normal? : ι → Option β}

/-- An entry is written as an item, whatever blanks come before and after it. -/
def IsWritten (item : Text → β → Prop) (normal? : ι → Option β) (r : Except Fault (List Part))
    (a : ι) : Prop :=
  ∀ parts t, r = .ok parts → Part.join parts = .ok t → ∃ b, normal? a = some b ∧
    ∀ before after, AllBlank before → AllBlank after → item (before ++ t ++ after) b

theorem fill_separated {out : ι → Except Fault (List Part)} {entries : List ι} (hne : entries ≠ [])
    (h : ∀ a ∈ entries, IsWritten item normal? (out a) a) {newline : Text}
    (hnewline : AllBlank newline) {depth : Number} {first : Bool} {parts : List Part} {t : Text}
    (hfill : fill (.knowing tokens keys) f newline depth first (entries.map out) = .ok parts)
    (ht : Part.join parts = .ok t) {before after : Text} (hbefore : AllBlank before)
    (hafter : AllBlank after) :
    ∃ bs body, entries.mapM normal? = some bs ∧
      t = (if first then body else .ofChar ',' :: body) ∧
      Separated item (before ++ body ++ after) bs := by
  induction entries generalizing first parts t before with
  | nil => exact absurd rfl hne
  | cons a rest ih =>
    rw [List.map_cons, fill_cons_eq_ok] at hfill
    obtain ⟨start, entry, more, hgap, ha, hmore, rfl⟩ := hfill
    obtain ⟨_, w, huv, hw, rfl⟩ := Part.join_append_eq_ok.mp ht
    obtain ⟨_, v, hu, hv, rfl⟩ := Part.join_append_eq_ok.mp huv
    obtain ⟨blank, hu', hblank⟩ := gap_joins hf hnewline hgap
    obtain rfl := Except.ok.inj (hu.symm.trans hu')
    obtain ⟨b, hb, hitem⟩ := h a List.mem_cons_self entry v ha hv
    cases rest with
    | nil =>
      obtain rfl := Except.ok.inj hmore
      obtain rfl := Except.ok.inj hw
      refine ⟨[b], blank ++ v, by simp [hb], by cases first <;> simp, ?_⟩
      have hlast := hitem (before ++ blank) after (allBlank_append hbefore hblank) hafter
      exact .last (by simpa using hlast)
    | cons a' rest =>
      obtain ⟨bs, body, hbs, rfl, hseparated⟩ := ih (by simp)
        (fun c hc => h c (List.mem_cons_of_mem a hc)) hmore hw (List.forall_mem_nil _)
      refine ⟨b :: bs, blank ++ v ++ .ofChar ',' :: body, by simp [hb, hbs],
        by cases first <;> simp, ?_⟩
      have hmember := hitem (before ++ blank) [] (allBlank_append hbefore hblank)
        (List.forall_mem_nil _)
      have hmore := Separated.more hmember hseparated
      simpa using hmore

theorem block_separated {out : Number → ι → Except Fault (List Part)} {entries : List ι}
    (h : ∀ inner, ∀ a ∈ entries, IsWritten item normal? (out inner a) a) {shape : Shape}
    {depth : Value} {parts : List Part} {t : Text}
    (hblock : block (.knowing tokens keys) f shape depth (fun inner => entries.map (out inner)) =
      .ok parts)
    (ht : Part.join parts = .ok t) :
    ∃ bs body, entries.mapM normal? = some bs ∧ t = shape.opening :: body ++ [shape.closing] ∧
      (bs = [] ∧ AllBlank body ∨ Separated item body bs) := by
  rw [block_eq_ok] at hblock
  obtain ⟨-, newline, inner, body, last, hnewline, -, hbody, hlast, rfl⟩ := hblock
  obtain ⟨newline', hnewline', hblank⟩ := hf.newline shape
  obtain rfl := Except.ok.inj (hnewline.symm.trans hnewline')
  obtain ⟨u, w, hu, hw, rfl⟩ := Part.join_append_eq_ok.mp ht
  obtain ⟨v, hv, rfl⟩ := Part.join_cons_eq_ok.mp hu
  obtain ⟨after, hw', hafter⟩ := ending_joins hf hblank hlast
  obtain rfl := Except.ok.inj (hw.symm.trans hw')
  cases entries with
  | nil =>
    obtain rfl := Except.ok.inj hbody
    obtain rfl := Except.ok.inj hv
    exact ⟨[], newline ++ after, rfl, by simp, .inl ⟨rfl, allBlank_append hblank hafter⟩⟩
  | cons a rest =>
    obtain ⟨bs, inside, hbs, hv, hseparated⟩ := fill_separated hf (by simp) (h inner) hblank hbody hv
      hblank hafter
    exact ⟨bs, newline ++ inside ++ after, hbs, by simp [hv], .inr hseparated⟩

end

theorem pair_written {nan : Bool} {describe : List Nat → Nat → Option Text} {e : Value × Value}
    {value : Except Fault (List Part)}
    (hkey : ∀ label, keys e.1 = .ok label →
      ∃ name, e.1.keyText? describe = some name ∧ SpellsString label name)
    (hvalue : ∀ parts t, value = .ok parts → Part.join parts = .ok t →
      ∃ j, e.2.normal? describe = some j ∧ Spells nan t j) :
    IsWritten (SpellsMember nan) (Value.normalMember? describe)
      (pair (.knowing tokens keys) f e.1 value) e := by
  intro parts t h ht
  rw [pair_eq_ok] at h
  obtain ⟨label, colon, entry, hlabel, hcolon, hentry, rfl⟩ := h
  obtain ⟨_, hrest, rfl⟩ := Part.join_cons_eq_ok.mp ht
  obtain ⟨u, hu, rfl⟩ := Part.join_cons_eq_ok.mp hrest
  obtain ⟨name, hname, hspells⟩ := hkey label hlabel
  obtain ⟨j, hj, hvalue⟩ := hvalue entry u hentry hu
  obtain ⟨left, right, hcolon', hleft, hright⟩ := hf.colon
  obtain rfl := Except.ok.inj (hcolon.symm.trans hcolon')
  refine ⟨(name, j), by simp [Value.normalMember?, hname, hj], fun before after hbefore hafter => ?_⟩
  have hmember := SpellsMember.intro (SpellsName.intro hbefore hspells hleft)
    (SpellsText.intro hright hvalue hafter)
  simpa using hmember

end

/-- A layout with blanks between the tokens spells the normal form of the value. -/
theorem layOut_spells {f : Format} (hf : f.HasLayout IsBlank) {s : Session} {v : Value} (hv : v.IsNative)
    {depth : Value} {parts : List Part} {t : Text}
    (h : layOut (.outcome f s) f depth v = .ok parts) (ht : Part.join parts = .ok t) :
    ∃ j, v.normal? s.describe = some j ∧ Spells f.allowNan t j := by
  induction v, hv using Value.tree_induction generalizing depth parts t with
  | scalar v h' hv =>
    rw [layOut_of_scalar _ _ _ hv, Scribe.outcome, token_eq_ok] at h
    obtain ⟨u, hu, rfl⟩ := h
    obtain ⟨_, hnil, rfl⟩ := Part.join_cons_eq_ok.mp ht
    obtain rfl : [] = _ := Except.ok.inj hnil
    rw [Value.normal?_of_scalar _ hv, List.append_nil]
    exact leaf_spells h' hv hu
  | sequence v h' kind items hv ih =>
    rw [layOut_of_sequence _ _ _ hv] at h
    have hitem (inner : Number) (w : Value) (hw : w ∈ items) :
        IsWritten (SpellsText f.allowNan) (Value.normal? s.describe)
          (layOut (.outcome f s) f inner.value w) w := by
      intro ps u hps hu
      obtain ⟨j, hj, hspells⟩ := (ih w hw).2 hps hu
      exact ⟨j, hj, fun before after hbefore hafter => .intro hbefore hspells hafter⟩
    obtain ⟨js, body, hjs, rfl, hbody⟩ := block_separated hf hitem h ht
    refine ⟨.array js, by rw [Value.normal?_of_sequence _ hv, hjs]; rfl, ?_⟩
    obtain ⟨rfl, hblank⟩ | hitems := hbody
    · exact .emptyArray hblank
    · exact .array hitems.spellsItems
  | mapping v h' kind entries hv ih =>
    rw [layOut_of_mapping _ _ _ hv] at h
    have hmember (inner : Number) (e : Value × Value) (he : e ∈ entries) :
        IsWritten (SpellsMember f.allowNan) (Value.normalMember? s.describe)
          (pair (.outcome f s) f e.1 (layOut (.outcome f s) f inner.value e.2)) e :=
      pair_written hf (fun label => label_spells) fun ps u hps hu => (ih e he).2 hps hu
    obtain ⟨js, body, hjs, rfl, hbody⟩ := block_separated hf hmember h ht
    refine ⟨.object js, by rw [Value.normal?_of_mapping _ hv, hjs]; rfl, ?_⟩
    obtain ⟨rfl, hblank⟩ | hmembers := hbody
    · exact .emptyObject hblank
    · exact .object hmembers.spellsMembers
  | binary v h' kind data hv ih =>
    rw [layOut_of_binary _ _ _ hv] at h
    obtain ⟨j, hj, hspells⟩ := ih.2 h ht
    exact ⟨j, by rw [Value.normal?_of_binary _ hv, hj], hspells⟩

end Render

/-! ## Generating -/

theorem Action.fst_logged {α : Type} (x : Action α) (s : Session) : (logged x s).1 = (x s).1 := by
  unfold logged
  split
  all_goals
    rename_i h
    rw [h]

theorem Action.logged_congr {α : Type} {x y : Action α} {s : Session} (h : x s = y s) :
    logged x s = logged y s := by
  simp only [logged, h]

/-- Generating text for a value without objects that write themselves changes only the counters of calls,
apart from the record of its fault. -/
theorem generate_eq {v : Value} (hv : v.IsNative) {s : Session} {id : Nat} {g : Generator}
    (hg : s.generator? id = some g) :
    ∃ p, generate v id s = Action.logged (fun _ => (do
      let t ← Render.Part.join (← Render.layOut (.outcome g.format s) g.format g.depth v)
      checkOutput g.asciiOnly.isTrue t
      return t, { s with profile := p })) s := by
  have hrender := renderAt_settles v.rank hv id none s
  simp only [hg, Option.getD_some, Option.getD_none] at hrender
  have hcheck (t : Text) : Action.Settles s.Alike (do
      Action.ofExcept (checkOutput (← Action.generator id).asciiOnly.isTrue t)
      return t) (do
        checkOutput g.asciiOnly.isTrue t
        return t) := by
    refine Action.settles_generator (fun s' h => by rw [h.generator? id, hg, Option.getD_some]) ?_
    exact (Action.settles_ofExcept _).bind fun _ _ => Action.settles_pure _
  have hgenerate := hrender.bind fun t _ => hcheck t
  rw [bind_assoc] at hgenerate
  obtain ⟨houtcome, p, hp⟩ := (hgenerate.counted (fun _ name size h => h.record name size)
    (text "generate") 0) s (.refl s)
  exact ⟨p, Action.logged_congr (Prod.ext houtcome hp)⟩

/-- What comes of generating text for a value without objects that write themselves. -/
theorem generate_outcome {v : Value} (hv : v.IsNative) {s : Session} {id : Nat} {g : Generator}
    (hg : s.generator? id = some g) :
    (generate v id s).1 = do
      let t ← Render.Part.join (← Render.layOut (.outcome g.format s) g.format g.depth v)
      checkOutput g.asciiOnly.isTrue t
      return t := by
  obtain ⟨p, hrun⟩ := generate_eq hv hg
  rw [hrun, Action.fst_logged]

/-- A text is generated exactly if there is a layout, which joins to the text, and nothing in the text is
refused. -/
theorem generate_eq_ok {v : Value} (hv : v.IsNative) {s : Session} {id : Nat} {g : Generator}
    (hg : s.generator? id = some g) {t : Text} :
    (generate v id s).1 = .ok t ↔
      ∃ parts, Render.layOut (.outcome g.format s) g.format g.depth v = .ok parts ∧
        Render.Part.join parts = .ok t ∧ checkOutput g.asciiOnly.isTrue t = .ok () := by
  simp only [generate_outcome hv hg, bind_eq_ok, pure, Except.pure, Except.ok.injEq]
  constructor
  · rintro ⟨parts, hparts, _, hjoin, _, hcheck, rfl⟩
    exact ⟨parts, hparts, hjoin, hcheck⟩
  · rintro ⟨parts, hparts, hjoin, hcheck⟩
    exact ⟨parts, hparts, t, hjoin, (), hcheck, rfl⟩

/-- Text that is generated between blanks for a value without objects that write themselves is one
JSON value, with names of numbers only if they are allowed, and what is read from it is the normal
form of the value. -/
theorem generate_spells {v : Value} (hv : v.IsNative) {s : Session} {id : Nat} {g : Generator}
    (hg : s.generator? id = some g) (hblank : g.HasLayout Json.IsBlank) {t : Text}
    (ht : (generate v id s).1 = .ok t) :
    ∃ j, v.normal? s.describe = some j ∧ Spells g.allowNan.isTrue t j ∧
      Json.read? g.allowNan.isTrue t = some j := by
  simp only [generate_outcome hv hg, bind_eq_ok, pure, Except.pure, Except.ok.injEq] at ht
  obtain ⟨parts, hparts, u, hu, _, _, rfl⟩ := ht
  obtain ⟨j, hj, hspells⟩ := Render.layOut_spells hblank.format hv hparts hu
  refine ⟨j, hj, hspells, Json.read?_of_spells ?_⟩
  have htext : SpellsText g.allowNan.isTrue ([] ++ u ++ []) j :=
    .intro (List.forall_mem_nil _) hspells (List.forall_mem_nil _)
  rwa [List.nil_append, List.append_nil] at htext

/-- New lines in objects only, names of numbers that are not finite, and ASCII. -/
def spacedGenerator : Generator :=
  { Generator.initial with
    indent := .str (text "\t"), space := .str (text " "), objectNewline := .str (text "\n"),
    allowNan := .bool true, asciiOnly := .int 1 }

/-- Two keys that are the same, with a quote in them, NaN, a key that is a number, a character past the
first plane, a negative zero and bytes. -/
def pairsSample : Value :=
  .mapping .pairs
    [(.str (text "k\""), .list []), (.str (text "k\""), .sequence .tuple [.float .nan, .bool true]),
      (.int 7, .derived (.str [.ofNat 0x1F600])), (.null, .float ⟨0x8000000000000000⟩),
      (.bool false, .binary .bytes [1])]

def pairsText : Text :=
  text "\x7b\n\t\"k\\\"\": [],\n\t\"k\\\"\": [NaN,true],\n\t\"7\": \"\\ud83d\\ude00\",\n\t\"null\": -0.0,\n" ++
    text "\t\"false\": \x7b\n\t\t\"json_class\": \"bytes\",\n\t\t\"raw\": [1]\n\t\x7d\n\x7d"

theorem generate_pairsSample :
    let s := { Session.initial true with generators := #[spacedGenerator] }
    pairsSample.IsNative ∧ spacedGenerator.HasLayout Json.IsBlank ∧
      (generate pairsSample 0 s).1 = .ok pairsText ∧
      ∃ j, pairsSample.normal? s.describe = some j ∧ Spells true pairsText j ∧
        Json.read? true pairsText = some j := by
  intro s
  have hv : pairsSample.IsNative :=
    ⟨trivial, ⟨trivial, trivial, trivial⟩, trivial, trivial, trivial, trivial⟩
  have hg : s.generator? 0 = some spacedGenerator := rfl
  have hblank : spacedGenerator.HasLayout Json.IsBlank := by
    simp only [Generator.HasLayout, Setting.layout, List.forall_mem_cons]
    exact ⟨⟨_, rfl, by decide⟩, ⟨_, rfl, by decide⟩, ⟨_, rfl, by decide⟩, ⟨_, rfl, by decide⟩,
      ⟨_, rfl, by decide⟩, List.forall_mem_nil _⟩
  have ht : (generate pairsSample 0 s).1 = .ok pairsText := by
    rw [generate_outcome hv hg]
    decide +kernel
  exact ⟨hv, hblank, ht, generate_spells hv hg hblank ht⟩

end JsonWriter
