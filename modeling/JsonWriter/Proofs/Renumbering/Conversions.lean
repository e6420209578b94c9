import JsonWriter.Proofs.Renumbering.Values
import JsonWriter.Proofs.Validity

/-!
# What is made of values with generators by other numbers

Conversions of a value and checked changes of a generator do not look at the numbers of generators.
Main statements: `toEntries_raise`, `times_raise` and `configure_raise`.
-/

namespace JsonWriter

variable {n : Nat}

namespace Value

/-! ## Conversions -/

theorem members_raise (v : Value) (otherwise : Fault) :
    (v.raise n).members otherwise = (v.members otherwise).map (raiseItems n) := by
  have hplain (vs : List Value) (h : ∀ w ∈ vs, w.raise n = w) : raiseItems n vs = vs := by
    rw [raiseItems_eq_map, List.map_congr_left h, List.map_id']
  simp only [members, data?_raise, text?_raise, node_raise]
  cases v.data? with
  | some data => exact congrArg Except.ok (hplain _ (List.forall_mem_map.mpr fun _ _ => rfl)).symm
  | none =>
    cases v.text? with
    | some t => exact congrArg Except.ok (hplain _ (List.forall_mem_map.mpr fun _ _ => rfl)).symm
    | none =>
      cases hnode : v.node with
      | array items => rfl
      | object entries =>
        simp only [Node.raise, Except.map, raiseItems_eq_map, raiseEntries_eq_map, List.map_map]
        rfl
      | _ => cases v <;> rfl

theorem toItems_raise (v : Value) : (v.raise n).toItems = v.toItems.map (raiseItems n) := by
  rw [toItems, toItems, members_raise, kind_raise]

theorem toWhole_raise (v : Value) : (v.raise n).toWhole = v.toWhole := by
  simp only [toWhole, numeral?, notWholeShown, number?_raise, text?_raise, data?_raise, aloneShown_raise,
    kind_raise]

theorem toFloating_raise (v : Value) : (v.raise n).toFloating = v.toFloating := by
  simp only [toFloating, numeral?, number?_raise, text?_raise, data?_raise, aloneShown_raise,
    kind_raise]

theorem octetsOfNumbers_raise (kind : BinaryKind) (vs : List Value) :
    octetsOfNumbers kind (raiseItems n vs) = octetsOfNumbers kind vs := by
  induction vs with
  | nil => rfl
  | cons v rest ih => rw [raiseItems, octetsOfNumbers, octetsOfNumbers, int?_raise, kind_raise, ih]

theorem octets_raise (kind : BinaryKind) (v : Value) : (v.raise n).octets kind = v.octets kind := by
  simp only [octets, data?_raise, text?_raise, int?_raise, members_raise, kind_raise]
  cases v.members (.type (.notBytes v.kind kind.name)) with
  | error e => rfl
  | ok vs => simp only [Except.map, Except.bind, octetsOfNumbers_raise]

theorem toPair_raise (index : Nat) (v : Value) : (v.raise n).toPair index =
    (v.toPair index).map fun e => (e.1.raise n, e.2.raise n) := by
  simp only [toPair, members_raise]
  cases v.members (.type (.notPair index)) with
  | error e => rfl
  | ok ms =>
    obtain _ | ⟨_, _ | ⟨_, _ | ⟨_, rest⟩⟩⟩ := ms
    · rfl
    · rfl
    · rfl
    · simp [raiseItems, raiseItems_eq_map, Except.map, bind, Except.bind]

theorem insertPairs_raise (index : Nat) (es : Entries) (vs : List Value) :
    insertPairs index (raiseEntries n es) (raiseItems n vs) =
      (insertPairs index es vs).map (raiseEntries n) := by
  induction vs generalizing index es with
  | nil => rfl
  | cons v rest ih =>
    rw [raiseItems, insertPairs, insertPairs, toPair_raise]
    cases v.toPair index with
    | error e => rfl
    | ok e =>
      obtain ⟨key, w⟩ := e
      simp only [Except.map, bind, Except.bind, unhashable?_raise]
      split
      · rfl
      · rw [Entries.insert_raise]
        exact ih _ _

theorem toLookedUp_raise (kind : MappingKind) (es : Entries) :
    toLookedUp kind (raiseEntries n es) = (toLookedUp kind es).map (raiseEntries n) := by
  have hfound : (raiseEntries n es).takeWhile
      (fun e => decide (kind ≠ .pairs) || !e.1.number?.any Number.isNan) =
        raiseEntries n (es.takeWhile fun e => decide (kind ≠ .pairs) || !e.1.number?.any Number.isNan) := by
    rw [raiseEntries_eq_map, raiseEntries_eq_map, List.takeWhile_map]
    simp only [Function.comp_def, number?_raise]
  simp only [toLookedUp, hfound]
  generalize es.takeWhile _ = found
  have hdictionary := Entries.dictionary?_raise (n := n) found []
  rw [Entries.raise, Entries.raise, raiseEntries] at hdictionary
  have hrest : (raiseEntries n es).drop (raiseEntries n found).length =
      raiseEntries n (es.drop found.length) := by
    simp only [raiseEntries_eq_map, List.length_map, List.map_drop]
  rw [hdictionary, hrest]
  cases Keyed.dictionary? [] found with
  | error kind => rfl
  | ok entries =>
    cases es.drop found.length with
    | nil => rfl
    | cons e rest => simp only [raiseEntries, Except.map, aloneShown_raise]

theorem toEntries_raise (v : Value) : (v.raise n).toEntries = v.toEntries.map (raiseEntries n) := by
  rw [toEntries, toEntries, content_raise]
  cases v.content with
  | mapping kind es => exact toLookedUp_raise kind es
  | _ =>
    simp only [raise, entries?_raise, toItems_raise]
    cases v.entries? with
    | some es => rfl
    | none =>
      cases v.toItems with
      | error e => rfl
      | ok items => exact insertPairs_raise 0 [] items

/-! ## Repeating -/

theorem raiseItems_copies (vs : List Value) (k : Nat) :
    raiseItems n (copies vs k) = copies (raiseItems n vs) k := by
  rw [raiseItems_eq_map, raiseItems_eq_map, copies, copies, List.isEmpty_map]
  split
  · rfl
  · rw [List.map_flatten, List.map_replicate]

theorem repeater?_raise (v : Value) : (v.raise n).repeater? =
    v.repeater?.map fun copiesOf k => (copiesOf k).map (raise n) := by
  have hfixed (r : Except Fault Unit) {w : Value} (hw : w.raise n = w) :
      r.map (fun _ => w) = (r.map fun _ => w).map (raise n) := by
    cases r with
    | error e => rfl
    | ok _ => exact congrArg Except.ok hw.symm
  simp only [repeater?, text?_raise, content_raise, node_raise]
  cases v.text? with
  | some t =>
    exact congrArg some (funext fun k => hfixed (checkLength .repeatedText t.length k) rfl)
  | none =>
    cases v.content with
    | binary kind data =>
      cases kind with
      | bytes =>
        exact congrArg some (funext fun k => hfixed (checkLength .repeatedBytes data.length k) rfl)
      | byteArray => rfl
    | sequence kind items =>
      refine congrArg some (funext fun k => ?_)
      rw [← raiseItems_copies]
      rfl
    | selfList items =>
      cases v.node with
      | array items =>
        refine congrArg some (funext fun k => ?_)
        rw [← raiseItems_copies]
        rfl
      | _ => rfl
    | _ => rfl

theorem times_raise (v : Value) (x : Number) : (v.raise n).times x = (v.times x).map (raise n) := by
  have hnumber (product : Number) : product.value.raise n = product.value := by cases product <;> rfl
  simp only [times, number?_raise, repeater?_raise, kind_raise]
  cases v.number? with
  | some y =>
    dsimp only
    cases y.multiply? x with
    | some product => exact congrArg Except.ok (hnumber product).symm
    | none => rfl
  | none =>
    cases v.repeater? with
    | none => rfl
    | some copiesOf =>
      cases x.whole? with
      | none => rfl
      | some whole =>
        dsimp only [Option.map]
        cases repetitions whole with
        | error e => rfl
        | ok k => rfl

end Value

/-! ## Settings -/

namespace Setting

theorem check_raise (s : Setting) (v : Value) : s.check (v.raise n) = (s.check v).map (Value.raise n) := by
  cases s with
  | allowNan | asciiOnly => simp only [check, Value.isTrue_raise]; rfl
  | maxNesting | depth =>
    simp only [check, Value.wholeNumber?_raise, Value.kind_raise]
    split
    · rfl
    · split
      · rfl
      · rfl
  | bufferLength =>
    simp only [check, Value.wholeNumber?_raise, Value.kind_raise]
    split
    · rfl
    · rfl
  | indent | space | spaceBefore | objectNewline | arrayNewline =>
    simp only [check, Value.text?_raise, Value.kind_raise]
    split
    · rfl
    · rfl

theorem checkEntry_raise (s : Setting) (v : Value) :
    s.checkEntry (v.raise n) = (s.checkEntry v).map (Value.raise n) := by
  rw [checkEntry, checkEntry, Value.isTrue_raise, check_raise]
  split
  · rfl
  · rfl

end Setting

namespace Update

/-- The update with the numbers of generators from `n` on raised by one. -/
def raise (n : Nat) (u : Update) : Update where
  value? s := (u.value? s).map (Value.raise n)
  unknown := Entries.raise n u.unknown

theorem initial_raise : initial.raise n = initial := by
  simp only [raise, initial, mk.injEq]
  refine ⟨funext fun s => ?_, rfl⟩
  split
  · rfl
  · rfl

theorem set_raise (u : Update) (s : Setting) (v : Value) :
    (u.raise n).set s (v.raise n) = (u.set s v).raise n := by
  simp only [raise, set, mk.injEq, and_true]
  refine funext fun t => ?_
  split
  · rfl
  · rfl

theorem read_raise (u : Update) (es : Entries) :
    (u.raise n).read (es.raise n) = (u.read es).map (raise n) := by
  induction es generalizing u with
  | nil => rfl
  | cons e rest ih =>
    obtain ⟨key, v⟩ := e
    rw [Entries.raise, Value.raiseEntries, read, read, Value.setting?_raise, Value.unhashable?_raise]
    cases key.setting? with
    | some s =>
      dsimp only
      rw [Setting.checkEntry_raise]
      cases s.checkEntry v with
      | error f => rfl
      | ok w =>
        dsimp only [Except.map]
        rw [set_raise]
        exact ih _
    | none =>
      dsimp only
      cases key.unhashable? with
      | some kind => rfl
      | none =>
        have hinsert : (u.raise n).unknown.insert (key.raise n) (v.raise n) =
            Entries.raise n (u.unknown.insert key v) := Entries.insert_raise key v u.unknown
        dsimp only
        rw [hinsert]
        exact ih { u with unknown := u.unknown.insert key v }

end Update

/-! ## Generators -/

namespace Generator

/-- The generator with the numbers of generators from `n` on raised by one in its settings and keys. -/
def raise (n : Nat) (g : Generator) : Generator where
  indent := g.indent.raise n
  space := g.space.raise n
  spaceBefore := g.spaceBefore.raise n
  objectNewline := g.objectNewline.raise n
  arrayNewline := g.arrayNewline.raise n
  maxNesting := g.maxNesting.raise n
  allowNan := g.allowNan.raise n
  asciiOnly := g.asciiOnly.raise n
  bufferLength := g.bufferLength.raise n
  depth := g.depth.raise n
  unknown := Entries.raise n g.unknown

theorem get_raise (g : Generator) (s : Setting) : (g.raise n).get s = (g.get s).raise n := by
  cases s <;> rfl

theorem put_raise (g : Generator) (s : Setting) (v : Value) :
    (g.raise n).put s (v.raise n) = (g.put s v).raise n := by
  cases s <;> rfl

theorem putChecked_raise (g : Generator) (s : Setting) (v : Value) :
    (g.raise n).putChecked s (v.raise n) = (g.putChecked s v).raise n := by
  rw [putChecked, putChecked, Value.int?_raise, put_raise]
  split
  · rfl
  · rfl

theorem entries_raise (g : Generator) : (g.raise n).entries = Entries.raise n g.entries := by
  have hunknown : (g.raise n).unknown = g.unknown.map fun e => (e.1.raise n, e.2.raise n) :=
    Value.raiseEntries_eq_map g.unknown
  simp only [entries, Entries.raise, Value.raiseEntries_eq_map, List.map_append, List.map_map, get_raise,
    hunknown]
  rfl

theorem apply_raise (g : Generator) (u : Update) :
    (g.raise n).apply (u.raise n) = (g.apply u).raise n := by
  have hfold (ss : List Setting) (g : Generator) :
      ss.foldl (fun g s => ((u.raise n).value? s).elim g (g.putChecked s)) (g.raise n) =
        (ss.foldl (fun g s => (u.value? s).elim g (g.putChecked s)) g).raise n := by
    induction ss generalizing g with
    | nil => rfl
    | cons s rest ih =>
      rw [List.foldl_cons, List.foldl_cons, ← ih]
      congr 1
      simp only [Update.raise]
      cases u.value? s with
      | none => rfl
      | some v => exact putChecked_raise g s v
  rw [apply_eq, apply_eq, hfold]
  simp only [raise, Update.raise, mk.injEq, true_and]
  exact Entries.insertAll_raise u.unknown g.unknown

theorem configure_raise (g : Generator) (options : Value) :
    (g.raise n).configure (options.raise n) =
      (g.configure options).map fun r => (r.1.raise n, r.2.map (Value.raise n)) := by
  rw [configure, configure, Value.entries?_raise, Value.kind_raise]
  cases options.entries? with
  | none => rfl
  | some es =>
    have hread := Update.read_raise (n := n) Update.initial es
    rw [Update.initial_raise] at hread
    simp only [Option.map, hread]
    cases Update.initial.read es with
    | error f => rfl
    | ok u =>
      have hignored : (u.raise n).unknown.map (·.1) = (u.unknown.map (·.1)).map (Value.raise n) := by
        simp only [Update.raise, Entries.raise, Value.raiseEntries_eq_map, List.map_map, Function.comp_def]
      simp only [Except.map, apply_raise, hignored]

theorem initial_raise : initial.raise n = initial := rfl

theorem copy_raise (g : Generator) :
    (g.raise n).copy = g.copy.map fun r => (r.1.raise n, r.2.map (Value.raise n)) := by
  have hconfigure := configure_raise (n := n) initial (.dictionary g.entries)
  rw [initial_raise] at hconfigure
  rw [copy, copy, entries_raise, ← hconfigure]
  rfl

theorem set_raise (g : Generator) (s : Setting) (v : Value) :
    (g.raise n).set s (v.raise n) = (g.set s v).map (raise n) := by
  rw [set, set, Setting.check_raise]
  cases s.check v with
  | error f => rfl
  | ok w => exact congrArg Except.ok (putChecked_raise g s w)

/-- What rendering takes from a generator, with numbers of generators raised. -/
def Format.raise (n : Nat) (f : Format) : Format :=
  { f with indent := f.indent.raise n, maxNesting := f.maxNesting.raise n }

theorem format_raise (g : Generator) : (g.raise n).format = g.format.raise n := by
  simp only [format, colon, raise, Format.raise, Value.textBefore_raise, Value.textAfter_raise,
    Value.isTrue_raise]

theorem checkNesting_raise (limit depth : Value) :
    checkNesting (limit.raise n) (depth.raise n) = checkNesting limit depth := by
  simp only [checkNesting, isUnlimited, Value.number?_raise, Value.succ_raise, Value.bound_raise]
  rfl

end Generator

end JsonWriter
