import JsonWriter.Generate
import JsonWriter.Proofs.Tree
import JsonWriter.Render.Printer
import Mathlib.Control.Monad.Basic

/-!
# The layout of a value, by recursion on the value

A scalar is its token. A container checks how deep it is, opens, sets its entries out one level
deeper, each on a line of its own if the container takes new lines, and closes. Bytes are laid out as
the tagged object that carries them. Main statement: `renderAt_eq_layOut`, the loop over open
containers does just this, with the same outcome and the same effects in the same order, whatever the
objects do that write themselves.
-/

namespace JsonWriter

/-! ## Whole depths -/

namespace Value

theorem number?_of_int? {v : Value} {n : Int} (h : v.int? = some n) :
    ∃ x, v.number? = some x ∧ x.whole? = some n := by
  unfold int? at h
  unfold number?
  split at h <;> simp_all [Number.whole?]

theorem succ_of_int? {v : Value} {n : Int} (h : v.int? = some n) : v.succ = .ok (.whole (n + 1)) := by
  obtain ⟨x, hx, hn⟩ := number?_of_int? h
  have hadd : x.add? (.whole 1) = some (.whole (n + 1)) := by
    simp only [Number.add?, hn]
    rfl
  simp [succ, hx, Number.succ, Number.shift, hadd]

end Value

theorem Number.pred_succ (n : Int) : (Number.whole (n + 1)).pred = .whole n := by
  have hsum : (whole (n + 1)).add? (whole (-1)) = some (whole (n + 1 + -1)) := rfl
  rw [pred, shift, hsum, Option.getD_some, Int.add_neg_cancel_right]

namespace Render

open Generator (Format)

/-! ## The recursion -/

/-- How the texts of scalars and keys come about, in a kind of computation that can end in a
fault. -/
structure Scribe (m : Type → Type) where
  settle {α : Type} : Except Fault α → m α
  token : Value → Value → m Text
  key : Value → m Text

section

variable {m : Type → Type} [Monad m] (k : Scribe m) (f : Format)

/-- What comes before an entry: a comma unless it is the first one, and a new line with its margin if
the container takes new lines. -/
def gap (newline : Text) (depth : Number) (first : Bool) : Except Fault (List Part) :=
  (margin f newline depth).map fun margin =>
    if first then margin else .text (.ofChar ',' :: newline) :: margin

/-- The entries of a container in order. -/
def fill (newline : Text) (depth : Number) : Bool → List (m (List Part)) → m (List Part)
  | _, [] => return []
  | first, entry :: rest => do
    let before ← k.settle (gap f newline depth first)
    let parts ← entry
    return before ++ parts ++ (← fill newline depth false rest)

/-- What comes after the entries. -/
def ending (shape : Shape) (newline : Text) (depth : Number) : Except Fault (List Part) :=
  (margin f newline depth).map fun margin => .text newline :: margin ++ [.text [shape.closing]]

/-- A container at a depth. For a whole depth `d` its entries are at `d + 1` and its end is at `d`. -/
def block (shape : Shape) (depth : Value) (entries : Number → List (m (List Part))) :
    m (List Part) := do
  k.settle (Generator.checkNesting f.maxNesting depth)
  let newline ← k.settle (shape.newline f)
  let inner ← k.settle depth.succ
  let parts ← fill k f newline inner true (entries inner)
  return .text (shape.opening :: newline) :: parts ++ (← k.settle (ending f shape newline inner.pred))

/-- The token of a scalar. -/
def token (depth v : Value) : m (List Part) := do return [.text (← k.token v depth)]

/-- A key, the text between a key and its value, and the value. -/
def pair (key : Value) (value : m (List Part)) : m (List Part) := do
  let label ← k.key key
  let colon ← k.settle f.colon
  return [.text label, .text colon] ++ (← value)

/-- The tagged object that carries bytes. -/
def rawBlock (depth : Value) (kind : BinaryKind) (data : List UInt8) : m (List Part) :=
  block k f .object depth fun inner =>
    [pair k f (.str (text "json_class")) (token k inner.value (.str (Value.binary kind data).kind)),
      pair k f (.str (text "raw")) <| block k f .array inner.value fun inner =>
        data.map fun b => token k inner.value (.int b.toNat)]

mutual

/-- The parts of a value at a depth, where the value is what `whole` comes to. -/
def layOutAs (depth whole : Value) : Value → m (List Part)
  | .derived base => layOutAs depth whole base
  | .own _ v => layOutAs depth whole v
  | .sequence _ items => block k f .array depth fun inner => layOutItems inner.value items
  | .mapping _ entries => block k f .object depth fun inner => layOutEntries inner.value entries
  | .binary kind data => rawBlock k f depth kind data
  | _ => token k depth whole
termination_by structural v => v

def layOutItems (depth : Value) : List Value → List (m (List Part))
  | [] => []
  | v :: rest => layOutAs depth v v :: layOutItems depth rest
termination_by structural vs => vs

def layOutEntries (depth : Value) : List (Value × Value) → List (m (List Part))
  | [] => []
  | (key, v) :: rest => pair k f key (layOutAs depth v v) :: layOutEntries depth rest
termination_by structural es => es

end

/-- The parts of a value at a depth. -/
def layOut (depth v : Value) : m (List Part) := layOutAs k f depth v v

theorem layOutItems_eq_map (depth : Value) (vs : List Value) :
    layOutItems k f depth vs = vs.map (layOut k f depth) := by
  induction vs with
  | nil => rfl
  | cons v rest ih => rw [layOutItems, ih, List.map_cons, layOut]

theorem layOutEntries_eq_map (depth : Value) (es : List (Value × Value)) :
    layOutEntries k f depth es = es.map fun e => pair k f e.1 (layOut k f depth e.2) := by
  induction es with
  | nil => rfl
  | cons e rest ih => rw [layOutEntries, ih, List.map_cons, layOut]

theorem layOutAs_content (depth whole v : Value) :
    layOutAs k f depth whole v.content = layOutAs k f depth whole v :=
  Value.apply_content (layOutAs k f depth whole) (fun _ => rfl) (fun _ _ => rfl) v

variable (depth : Value) {v : Value}

theorem layOutAs_of_scalar (whole : Value) :
    (v : Value) → container? v = none → layOutAs k f depth whole v = token k depth whole
  | .derived base, h => layOutAs_of_scalar whole base h
  | .own _ v, h => layOutAs_of_scalar whole v h
  | .sequence _ _, h | .mapping _ _, h | .binary _ _, h => by simp [container?, Value.node] at h
  | .null, _ | .bool _, _ | .int _, _ | .float _, _ | .str _, _ | .setting _, _ | .memory _, _
  | .selfList _, _ | .selfDictionary _, _ | .outer _, _ | .object _, _ | .type _, _
  | .extension _, _ | .generator _, _ | .described _, _ => rfl

theorem layOut_of_scalar (h : container? v = none) : layOut k f depth v = token k depth v :=
  layOutAs_of_scalar k f depth v v h

theorem layOut_of_sequence {kind : SequenceKind} {items : List Value}
    (h : v.content = .sequence kind items) :
    layOut k f depth v = block k f .array depth fun inner =>
      items.map (layOut k f inner.value) := by
  simp only [layOut, ← layOutAs_content k f depth v v, h, layOutAs, layOutItems_eq_map]

theorem layOut_of_mapping {kind : MappingKind} {entries : List (Value × Value)}
    (h : v.content = .mapping kind entries) :
    layOut k f depth v = block k f .object depth fun inner =>
      entries.map fun e => pair k f e.1 (layOut k f inner.value e.2) := by
  simp only [layOut, ← layOutAs_content k f depth v v, h, layOutAs, layOutEntries_eq_map]

/-- Bytes are laid out as the tagged object that carries them. -/
theorem layOut_of_binary {kind : BinaryKind} {data : List UInt8} (h : v.content = .binary kind data) :
    layOut k f depth v = layOut k f depth (.dictionary (Value.rawEntries kind data)) := by
  have htext (t : Text) (depth : Value) : layOut k f depth (.str t) = token k depth (.str t) := rfl
  have hlist (depth : Value) : layOut k f depth (.list (data.map fun b => .int b.toNat)) =
      block k f .array depth fun inner => data.map fun b => token k inner.value (.int b.toNat) := by
    rw [layOut_of_sequence k f depth rfl]
    simp only [List.map_map]
    rfl
  rw [layOut, ← layOutAs_content, h, Value.dictionary, layOut_of_mapping k f depth rfl]
  simp only [layOutAs, rawBlock, Value.rawEntries, List.map_cons, List.map_nil, htext, hlist]

end

/-! ## The loop computes it -/

/-- The scribe of the writer, for objects that write themselves in a given way. -/
def Scribe.acting (extend : Extender) (f : Format) : Scribe Action where
  settle := Action.ofExcept
  token := leaf extend f
  key := label f

theorem ofExcept_ok {α : Type} (a : α) : Action.ofExcept (.ok a) = pure a := rfl

section

variable (extend : Extender) (f : Format)

/-- An entry as it is printed. -/
def printEntry (depth : Value) (room : Nat) (e : Entry) : Action (List Part) :=
  match e.key? with
  | none => print extend f ⟨e.value, depth, room⟩
  | some key => pair (.acting extend f) f key (print extend f ⟨e.value, depth, room⟩)

theorem printFrame_eq_fill (shape : Shape) (newline : Text) (depth : Number) (room : Nat)
    (entries : List Entry) (first : Bool) :
    printFrame extend f ⟨shape, newline, depth, room, entries, first⟩ = do
      let parts ← fill (.acting extend f) f newline depth first
        (entries.map (printEntry extend f depth.value room))
      return parts ++ (← Action.ofExcept (ending f shape newline depth.pred)) := by
  induction entries generalizing first with
  | nil =>
    rw [printFrame_closed rfl]
    simp [fill, closing, ending]
  | cons e rest ih =>
    rw [printFrame_entry rfl, Frame.advance, ih]
    cases hk : e.key? <;>
      simp [fill, lead, printEntry, pair, member, separator, gap, hk, Scribe.acting, Frame.visit,
        -bind_pure_comp]

/-- A container that does not hold itself is printed as a block of its printed entries. -/
theorem print_eq_block {whole : Value} {shape : Shape} {entries : List Entry} (depth : Value)
    (room : Nat) (hv : container? whole = some (shape, entries)) (hc : isCyclic whole = false) :
    print extend f ⟨whole, depth, room⟩ =
      block (.acting extend f) f shape depth fun inner =>
        entries.map (printEntry extend f inner.value room) := by
  have hroom : roomWithin whole room = .ok room := by simp [roomWithin, hc]
  simp only [block, Scribe.acting]
  cases hn : Generator.checkNesting f.maxNesting depth with
  | error e => exact print_refused hv (by simp [enter, hn, bind, Except.bind])
  | ok _ =>
    cases hl : shape.newline f with
    | error e => exact print_refused hv (by simp [enter, hn, hl, bind, Except.bind])
    | ok newline =>
      cases hd : depth.succ with
      | error e => exact print_refused hv (by simp [enter, hn, hl, hd, bind, Except.bind])
      | ok inner =>
        have he : enter f whole shape entries depth room =
            .ok ⟨shape, newline, inner, room, entries, true⟩ := by
          simp [enter, hn, hl, hd, hroom, bind, Except.bind, pure, Except.pure]
        rw [print_entered hv he, printFrame_eq_fill]
        simp [ofExcept_ok, opening, Scribe.acting, -bind_pure_comp]

theorem print_eq_token {whole : Value} (depth : Value) (room : Nat) (hv : container? whole = none) :
    print extend f ⟨whole, depth, room⟩ = token (.acting extend f) depth whole := print_leaf hv

theorem print_eq_layOut {v : Value} (hv : v.IsFinite) (depth : Value) (room : Nat) :
    print extend f ⟨v, depth, room⟩ = layOut (.acting extend f) f depth v := by
  induction v, hv using Value.tree_induction generalizing depth with
  | scalar v h hv => rw [print_eq_token extend f depth room hv, layOut_of_scalar _ _ _ hv]
  | sequence v h kind items hv ih =>
    have hc := Value.container?_of_content (v := .sequence kind items) hv
    rw [print_eq_block extend f depth room hc (by rw [isCyclic, hv]), layOut_of_sequence _ _ _ hv]
    congr 1
    funext inner
    rw [List.map_map]
    refine List.map_congr_left fun w hw => ?_
    obtain ⟨_, ih⟩ := ih w hw
    exact ih inner.value
  | mapping v h kind entries hv ih =>
    have hc := Value.container?_of_content (v := .mapping kind entries) hv
    rw [print_eq_block extend f depth room hc (by rw [isCyclic, hv]), layOut_of_mapping _ _ _ hv]
    congr 1
    funext inner
    rw [List.map_map]
    refine List.map_congr_left fun e he => ?_
    obtain ⟨_, ih⟩ := ih e he
    simp only [Function.comp_apply, printEntry, ih inner.value]
  | binary v h kind data hv ih =>
    obtain ⟨_, ih⟩ := ih
    have hc := Value.container?_of_content (v := .binary kind data) hv
    rw [layOut_of_binary _ _ _ hv, ← ih depth, print_eq_block extend f depth room hc
      (by rw [isCyclic, hv]), print_eq_block extend f depth room rfl rfl]

/-- The loop over open containers lays out a finite value. -/
theorem parts_eq_layOut {v : Value} (hv : v.IsFinite) (depth : Value) :
    parts extend f v depth = layOut (.acting extend f) f depth v := by
  rw [parts_eq_print, print_eq_layOut extend f hv]

end

end Render

/-! ## Rendering -/

/-- What comes of the objects in a value that write themselves, with so many levels of them. -/
def Extension.writeAt (g : Generator) : Nat → Render.Extender
  | 0 => fun _ _ => Action.fail .endless
  | level + 1 => Extension.write (renderAt level) g

theorem renderAt_eq (level : Nat) (v : Value) (id : Nat) (depth : Option Value) :
    renderAt level v id depth = (do
      let g ← Action.generator id
      let parts ← Action.counted (text "render") 0
        (Render.parts (Extension.writeAt g level) g.format v (depth.getD g.depth))
      Action.ofExcept (Render.Part.join parts)) := by
  cases level <;> rfl

theorem renderAt_of_finite {v : Value} (hv : v.IsFinite) (level id : Nat) (depth : Option Value) :
    renderAt level v id depth = (do
      let g ← Action.generator id
      let parts ← Action.counted (text "render") 0
        (Render.layOut (.acting (Extension.writeAt g level) g.format) g.format
          (depth.getD g.depth) v)
      Action.ofExcept (Render.Part.join parts)) := by
  simp only [renderAt_eq, Render.parts_eq_layOut _ _ hv]

/-- For all finite values, the loop and the recursion have the same outcome and the same effects in
the same order: first for any way at all in which objects write themselves, then for the way they
have. -/
theorem renderAt_eq_layOut {v : Value} (hv : v.IsFinite) :
    (∀ (extend : Render.Extender) (f : Generator.Format) (depth : Value),
      Render.parts extend f v depth = Render.layOut (.acting extend f) f depth v) ∧
    ∀ (level id : Nat) (depth : Option Value),
      renderAt level v id depth = (do
        let g ← Action.generator id
        let parts ← Action.counted (text "render") 0
          (Render.layOut (.acting (Extension.writeAt g level) g.format) g.format
            (depth.getD g.depth) v)
        Action.ofExcept (Render.Part.join parts)) :=
  ⟨fun extend f depth => Render.parts_eq_layOut extend f hv depth, renderAt_of_finite hv⟩

/-- A list that holds a number, a tuple in an object, an object that writes its depth, and bytes. -/
def mixedSample : Value :=
  .list [.int 1, .dictionary [(.str (text "a"), .sequence .tuple [.int 2])], .extension .depthText,
    .binary .bytes [7]]

/-- New lines, an indentation of two spaces and four levels of nesting. -/
def airyGenerator : Generator :=
  { Generator.initial with
    indent := .str (text "  "), objectNewline := .str (text "\n"), arrayNewline := .str (text "\n"),
    maxNesting := .int 4 }

/-- At depth 1 the sample just fits the limit, and at depth 2 the tuple does not. -/
theorem renderAt_mixedSample :
    let s := { Session.initial true with generators := #[.initial, airyGenerator] }
    mixedSample.IsFinite ∧
      (renderAt 1 mixedSample 0 (some (.int 1)) s).1 =
        .ok (text "[1,\x7b\"a\":[2]\x7d,2,\x7b\"json_class\":\"bytes\",\"raw\":[7]\x7d]") ∧
      (renderAt 1 mixedSample 1 (some (.int 1)) s).1 = .ok (
        text "[\n    1,\n    \x7b\n      \"a\":[\n        2\n      ]\n    \x7d,\n    2,\n    \x7b\n" ++
        text "      \"json_class\":\"bytes\",\n      \"raw\":[\n        7\n      ]\n    \x7d\n  ]") ∧
      (renderAt 1 mixedSample 1 (some (.int 2)) s).1 = .error (.nesting (.whole 5) (.whole 4)) := by
  intro s
  have hv : mixedSample.IsFinite := by
    simp [mixedSample, Value.list, Value.dictionary, Value.IsFinite, Value.IsTree, Value.AreTrees,
      Value.EntriesAreTrees]
  have heq := (renderAt_eq_layOut hv).2
  refine ⟨hv, ?_, ?_, ?_⟩
  · rw [heq 1 0 (some (.int 1))]
    decide +kernel
  · rw [heq 1 1 (some (.int 1))]
    decide +kernel
  · rw [heq 1 1 (some (.int 2))]
    decide +kernel

end JsonWriter
