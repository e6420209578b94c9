import JsonWriter.Proofs.Layout.Recursion

/-!
# The marks of a value

What is written of a value, one mark after the other in the order of the document: the brackets and the
separators of its containers, its keys and its scalars. Bytes have the marks of the tagged object that
carries them. Main statement: `layOut_eq_writeAll`, the layout of a value is what its marks come to, up to
the first one that ends in a fault.
-/

namespace JsonWriter

open Generator (Format)

namespace Render

/-- What is written at one place of a document: the ends of a container at a depth, what comes before an
entry of it, a key, what stands between a key and its value, and a scalar at a depth. -/
inductive Mark
  | opening (shape : Shape) (depth : Value)
  | separator (shape : Shape) (depth : Value) (first : Bool)
  | key (k : Value)
  | colon
  | scalar (v depth : Value)
  | closing (shape : Shape) (depth : Value)

/-- The depth of what is in a container, the same where there is none. -/
def insideOf (depth : Value) : Value :=
  match depth.succ with
  | .ok inner => inner.value
  | .error _ => depth

theorem insideOf_of_succ {depth : Value} {inner : Number} (h : depth.succ = .ok inner) :
    insideOf depth = inner.value := by rw [insideOf, h]

/-! ## The marks in order -/

section

variable (shape : Shape) (depth : Value)

/-- The entries of a container in order. -/
def fillMarks : Bool → List (List Mark) → List Mark
  | _, [] => []
  | first, entry :: rest => .separator shape depth first :: entry ++ fillMarks false rest

def blockMarks (entries : List (List Mark)) : List Mark :=
  .opening shape depth :: fillMarks shape depth true entries ++ [.closing shape depth]

end

def pairMarks (key : Value) (value : List Mark) : List Mark := .key key :: .colon :: value

/-- The tagged object that carries bytes. -/
def rawMarks (depth : Value) (kind : BinaryKind) (data : List UInt8) : List Mark :=
  blockMarks .object depth
    [pairMarks (.str (text "json_class"))
        [.scalar (.str (Value.binary kind data).kind) (insideOf depth)],
      pairMarks (.str (text "raw")) <| blockMarks .array (insideOf depth) <|
        data.map fun b => [.scalar (.int b.toNat) (insideOf (insideOf depth))]]

mutual

/-- The marks of a value at a depth, where the value is what `whole` comes to. -/
def marksAs (depth whole : Value) : Value → List Mark
  | .derived base => marksAs depth whole base
  | .own _ v => marksAs depth whole v
  | .sequence _ items => blockMarks .array depth (itemMarks (insideOf depth) items)
  | .mapping _ entries => blockMarks .object depth (entryMarks (insideOf depth) entries)
  | .binary kind data => rawMarks depth kind data
  | _ => [.scalar whole depth]
termination_by structural v => v

def itemMarks (depth : Value) : List Value → List (List Mark)
  | [] => []
  | v :: rest => marksAs depth v v :: itemMarks depth rest
termination_by structural vs => vs

def entryMarks (depth : Value) : List (Value × Value) → List (List Mark)
  | [] => []
  | (key, v) :: rest => pairMarks key (marksAs depth v v) :: entryMarks depth rest
termination_by structural es => es

end

/-- The marks of a value at a depth. -/
def marks (depth v : Value) : List Mark := marksAs depth v v

/-! ## Writing them -/

section

variable (extend : Extender) (f : Format)

/-- What is written at a mark. -/
def Mark.write : Mark → Action (List Part)
  | opening shape depth => Action.ofExcept do
    Generator.checkNesting f.maxNesting depth
    let newline ← shape.newline f
    let _ ← depth.succ
    return [.text (shape.opening :: newline)]
  | separator shape depth first => Action.ofExcept do
    gap f (← shape.newline f) (← depth.succ) first
  | key k => do return [.text (← label f k)]
  | colon => do return [.text (← Action.ofExcept f.colon)]
  | scalar v depth => do return [.text (← leaf extend f v depth)]
  | closing shape depth => Action.ofExcept do
    ending f shape (← shape.newline f) (← depth.succ).pred

/-- One mark after the other. -/
def writeAll : List Mark → Action (List Part)
  | [] => return []
  | m :: rest => do return (← m.write extend f) ++ (← writeAll rest)

theorem writeAll_append (ms more : List Mark) :
    writeAll extend f (ms ++ more) = do
      return (← writeAll extend f ms) ++ (← writeAll extend f more) := by
  induction ms with
  | nil => simp [writeAll]
  | cons m rest ih => simp [writeAll, ih, List.append_assoc, -bind_pure_comp]

theorem writeAll_singleton (m : Mark) : writeAll extend f [m] = m.write extend f := by
  simp [writeAll]

theorem token_eq_writeAll (depth v : Value) :
    token (.acting extend f) depth v = writeAll extend f [.scalar v depth] := by
  rw [writeAll_singleton]
  rfl

theorem pair_eq_writeAll (key : Value) (ms : List Mark) :
    pair (.acting extend f) f key (writeAll extend f ms) = writeAll extend f (pairMarks key ms) := by
  simp [pair, pairMarks, writeAll, Mark.write, Scribe.acting]

theorem fill_eq_writeAll {shape : Shape} {depth : Value} {newline : Text} {inner : Number}
    (hnewline : shape.newline f = .ok newline) (hinner : depth.succ = .ok inner) (first : Bool)
    (entries : List (List Mark)) :
    fill (.acting extend f) f newline inner first (entries.map (writeAll extend f)) =
      writeAll extend f (fillMarks shape depth first entries) := by
  induction entries generalizing first with
  | nil => rfl
  | cons entry rest ih =>
    have hwrite : Mark.write extend f (.separator shape depth first) =
        Action.ofExcept (gap f newline inner first) := by
      rw [Mark.write, hnewline, hinner]
      rfl
    rw [List.map_cons, fill, ih, fillMarks, List.cons_append, writeAll, writeAll_append, hwrite]
    simp [Scribe.acting]

/-- A container is what its marks come to if that is so of its entries. -/
theorem block_eq_writeAll (shape : Shape) (depth : Value) {entries : Number → List (Action (List Part))}
    {ms : List (List Mark)}
    (h : ∀ inner, depth.succ = .ok inner → entries inner = ms.map (writeAll extend f)) :
    block (.acting extend f) f shape depth entries = writeAll extend f (blockMarks shape depth ms) := by
  rw [block, blockMarks, List.cons_append, writeAll, writeAll_append, writeAll_singleton, Mark.write,
    Mark.write, Scribe.acting]
  -- A fault of what opens the container ends both.
  cases Generator.checkNesting f.maxNesting depth with
  | error e => rfl
  | ok _ =>
    cases hnewline : shape.newline f with
    | error e => rfl
    | ok newline =>
      cases hinner : depth.succ with
      | error e => rfl
      | ok inner =>
        have hfill := fill_eq_writeAll extend f hnewline hinner true ms
        rw [Scribe.acting] at hfill
        simp only [ofExcept_ok, pure_bind, h inner hinner, hfill, bind_assoc]
        rfl

mutual

theorem layOutAs_eq_writeAll (depth whole : Value) : (v : Value) →
    layOutAs (.acting extend f) f depth whole v = writeAll extend f (marksAs depth whole v)
  | .derived base => layOutAs_eq_writeAll depth whole base
  | .own _ v => layOutAs_eq_writeAll depth whole v
  | .sequence _ items => block_eq_writeAll extend f .array depth fun inner hinner => by
    rw [insideOf_of_succ hinner, layOutItems_eq_writeAll inner.value items]
  | .mapping _ entries => block_eq_writeAll extend f .object depth fun inner hinner => by
    rw [insideOf_of_succ hinner, layOutEntries_eq_writeAll inner.value entries]
  | .binary kind data => block_eq_writeAll extend f .object depth fun inner hinner => by
    have hbytes : block (.acting extend f) f .array inner.value (fun inner =>
          data.map fun b => token (.acting extend f) inner.value (.int b.toNat)) =
        writeAll extend f (blockMarks .array (insideOf depth) <|
          data.map fun b => [.scalar (.int b.toNat) (insideOf (insideOf depth))]) := by
      rw [insideOf_of_succ hinner]
      refine block_eq_writeAll extend f .array inner.value fun inner' hinner' => ?_
      rw [insideOf_of_succ hinner', List.map_map]
      exact List.map_congr_left fun b _ => token_eq_writeAll extend f inner'.value (.int b.toNat)
    rw [hbytes, token_eq_writeAll, pair_eq_writeAll, pair_eq_writeAll, ← insideOf_of_succ hinner]
    rfl
  | .null | .bool _ | .int _ | .float _ | .str _ | .setting _ | .memory _ | .selfList _
  | .selfDictionary _ | .outer _ | .object _ | .type _ | .extension _ | .generator _
  | .described _ => token_eq_writeAll extend f depth whole
termination_by structural v => v

theorem layOutItems_eq_writeAll (depth : Value) : (vs : List Value) →
    layOutItems (.acting extend f) f depth vs = (itemMarks depth vs).map (writeAll extend f)
  | [] => rfl
  | v :: rest => by
    rw [layOutItems, itemMarks, List.map_cons, layOutAs_eq_writeAll depth v v,
      layOutItems_eq_writeAll depth rest]
termination_by structural vs => vs

theorem layOutEntries_eq_writeAll (depth : Value) : (es : List (Value × Value)) →
    layOutEntries (.acting extend f) f depth es = (entryMarks depth es).map (writeAll extend f)
  | [] => rfl
  | (key, v) :: rest => by
    rw [layOutEntries, entryMarks, List.map_cons, layOutAs_eq_writeAll depth v v, pair_eq_writeAll,
      layOutEntries_eq_writeAll depth rest]
termination_by structural es => es

end

/-- A value is laid out mark by mark. -/
theorem layOut_eq_writeAll (depth v : Value) :
    layOut (.acting extend f) f depth v = writeAll extend f (marks depth v) :=
  layOutAs_eq_writeAll extend f depth v v

end

end Render

end JsonWriter
