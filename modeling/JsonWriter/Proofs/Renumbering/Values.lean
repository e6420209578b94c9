import JsonWriter.Generate
import JsonWriter.Proofs.Configuration.Keys

/-!
# Values with generators by other numbers

A value knows a generator by its number only. If all numbers from some place on are raised by one, the
value is to the writer what it was, and whatever is taken from it or made of it is that with the numbers
raised. Main statements: `literalIn_raise` and `node_raise`.
-/

namespace JsonWriter

/-- The number with room for one more at `n`. -/
def raised (n id : Nat) : Nat := if id < n then id else id + 1

theorem raised_of_lt {n id : Nat} (h : id < n) : raised n id = id := if_pos h

theorem raised_of_le {n id : Nat} (h : n ≤ id) : raised n id = id + 1 := if_neg (Nat.not_lt.mpr h)

theorem raised_injective {n id id' : Nat} (h : raised n id = raised n id') : id = id' := by
  unfold raised at h
  split at h <;> split at h <;> omega

namespace Value

mutual

/-- The value with the numbers of generators from `n` on raised by one. -/
def raise (n : Nat) : Value → Value
  | sequence kind items => sequence kind (raiseItems n items)
  | mapping kind entries => mapping kind (raiseEntries n entries)
  | selfList items => selfList (raiseItems n items)
  | selfDictionary entries => selfDictionary (raiseEntries n entries)
  | derived base => derived (raise n base)
  | own i v => own i (raise n v)
  | object shown => object (raise n shown)
  | extension e => extension (raiseExtension n e)
  | generator id => generator (raised n id)
  | described d => described (raiseDescription n d)
  | v => v
termination_by structural v => v

def raiseItems (n : Nat) : List Value → List Value
  | [] => []
  | v :: rest => raise n v :: raiseItems n rest
termination_by structural vs => vs

def raiseEntries (n : Nat) : List (Value × Value) → List (Value × Value)
  | [] => []
  | (key, v) :: rest => (raise n key, raise n v) :: raiseEntries n rest
termination_by structural es => es

def raiseOptional (n : Nat) : Option Value → Option Value
  | none => none
  | some v => some (raise n v)
termination_by structural v => v

def raiseExtension (n : Nat) : Extension Value → Extension Value
  | .literal v => .literal (raise n v)
  | .point x y => .point (raise n x) (raise n y)
  | .depthText => .depthText
  | .stateText => .stateText
  | .delegate v depth => .delegate (raise n v) (raiseOptional n depth)
  | .reconfigured v config => .reconfigured (raise n v) (raiseOptional n config)
  | .mutator settings v => .mutator (raiseEntries n settings) (raise n v)
  | .capture slot v => .capture slot (raise n v)
  | .raiser error message => .raiser error message
termination_by structural e => e

def raiseDescription (n : Nat) : Description Value → Description Value
  | .slot name => .slot name
  | .fresh options => .fresh (raise n options)
  | .repeated v times => .repeated (raise n v) times
  | .derived base v => .derived base (raise n v)
termination_by structural d => d

end

variable {n : Nat}

theorem raiseItems_eq_map (vs : List Value) : raiseItems n vs = vs.map (raise n) := by
  induction vs with
  | nil => rfl
  | cons v rest ih => rw [raiseItems, ih, List.map_cons]

theorem raiseEntries_eq_map (es : List (Value × Value)) :
    raiseEntries n es = es.map fun e => (e.1.raise n, e.2.raise n) := by
  induction es with
  | nil => rfl
  | cons e rest ih => rw [raiseEntries, ih, List.map_cons]

theorem raiseOptional_eq_map (v : Option Value) : raiseOptional n v = v.map (raise n) := by
  cases v <;> rfl

theorem given?_raise (v : Option Value) : given? (v.map (raise n)) = (given? v).map (raise n) := by
  cases v with
  | none => rfl
  | some v => cases v <;> rfl

/-! ## Views -/

@[simp] theorem content_raise : (v : Value) → (v.raise n).content = v.content.raise n
  | derived base => content_raise base
  | own _ v => content_raise v
  | null | bool _ | int _ | float _ | str _ | setting _ | binary _ _ | memory _ | sequence _ _
  | mapping _ _ | selfList _ | selfDictionary _ | outer _ | object _ | type _ | extension _
  | generator _ | described _ => rfl

@[simp] theorem kind_raise : (v : Value) → (v.raise n).kind = v.kind
  | own _ v => kind_raise v
  | extension e => by cases e <;> rfl
  | sequence kind _ => by cases kind <;> rfl
  | mapping kind _ => by cases kind <;> rfl
  | null | bool _ | int _ | float _ | str _ | setting _ | binary _ _ | memory _ | selfList _
  | selfDictionary _ | outer _ | derived _ | object _ | type _ | generator _ | described _ => rfl

@[simp] theorem identity?_raise : (v : Value) → (v.raise n).identity? = v.identity?
  | derived base => identity?_raise base
  | null | bool _ | int _ | float _ | str _ | setting _ | binary _ _ | memory _ | sequence _ _
  | mapping _ _ | selfList _ | selfDictionary _ | outer _ | own _ _ | object _ | type _ | extension _
  | generator _ | described _ => rfl

section

variable (v : Value)

@[simp] theorem text?_raise : (v.raise n).text? = v.text? := by
  rw [text?, text?, content_raise]
  cases v.content <;> rfl

@[simp] theorem int?_raise : (v.raise n).int? = v.int? := by
  rw [int?, int?, content_raise]
  cases v.content <;> rfl

@[simp] theorem wholeNumber?_raise : (v.raise n).wholeNumber? = v.wholeNumber? := by
  rw [wholeNumber?, wholeNumber?, content_raise]
  cases v.content <;> rfl

@[simp] theorem number?_raise : (v.raise n).number? = v.number? := by
  rw [number?, number?, content_raise]
  cases v.content <;> rfl

@[simp] theorem data?_raise : (v.raise n).data? = v.data? := by
  rw [data?, data?, content_raise]
  cases v.content <;> rfl

@[simp] theorem isTrue_raise : (v.raise n).isTrue = v.isTrue := by
  rw [isTrue, isTrue, content_raise]
  cases v.content with
  | sequence kind items => cases items <;> rfl
  | mapping kind entries => cases entries <;> rfl
  | _ => rfl

@[simp] theorem isDistinct_raise : (v.raise n).isDistinct = v.isDistinct := by
  cases v <;> rfl

@[simp] theorem orderedKind_raise : (v.raise n).orderedKind = v.orderedKind := by
  rw [orderedKind, orderedKind, content_raise, kind_raise]
  cases v.content with
  | mapping kind entries => cases kind <;> rfl
  | _ => rfl

@[simp] theorem notAddable_raise (other : Text) : (v.raise n).notAddable other = v.notAddable other := by
  rw [notAddable, notAddable, content_raise, kind_raise]
  cases v.content with
  | sequence kind items => cases kind <;> rfl
  | _ => rfl

@[simp] theorem setting?_raise : (v.raise n).setting? = v.setting? := by
  rw [setting?, setting?, text?_raise]

@[simp] theorem succ_raise : (v.raise n).succ = v.succ := by
  simp only [succ, number?_raise, notAddable_raise]

@[simp] theorem bound_raise (x : Number) : (v.raise n).bound x = v.bound x := by
  simp only [bound, number?_raise, content_raise, orderedKind_raise, kind_raise]
  cases v.content with
  | mapping kind entries => cases kind <;> rfl
  | _ => rfl

@[simp] theorem textBefore_raise : (v.raise n).textBefore = v.textBefore := by
  simp only [textBefore, text?_raise, notAddable_raise]

@[simp] theorem textAfter_raise : (v.raise n).textAfter = v.textAfter := by
  simp only [textAfter, text?_raise, kind_raise]

end

/-! ## Forms for messages and for output -/

@[simp] theorem reentered_raise (v : Value) : (v.raise n).reentered = v.reentered := by
  cases v with
  | sequence kind _ => cases kind <;> rfl
  | mapping kind _ => cases kind <;> rfl
  | _ => rfl

section

variable {describe describe' : List Nat → Nat → Option Text}

mutual

/-- A value shows itself as before if the generators do. -/
theorem literalIn_raise (h : ∀ entered id, describe' entered (raised n id) = describe entered id)
    (entered : List Nat) (bound : List Text) : (v : Value) →
    literalIn describe' entered bound (v.raise n) = literalIn describe entered bound v
  | sequence .list items => by rw [raise, literalIn, literalIn, literalItems_raise h _ _ items]
  | sequence .tuple items => by rw [raise, literalIn, literalIn, literalItems_raise h _ _ items]
  | mapping .dictionary entries => by
    rw [raise, literalIn, literalIn, literalEntries_raise h _ _ entries]
  | mapping .view entries => by rw [raise, literalIn, literalIn, literalEntries_raise h _ _ entries]
  | selfList items => by rw [raise, literalIn, literalIn, literalItems_raise h _ _ items]
  | selfDictionary entries => by
    rw [raise, literalIn, literalIn, literalEntries_raise h _ _ entries]
  | own i v => by rw [raise, literalIn, literalIn, reentered_raise, literalIn_raise h _ _ v]
  | generator id => h entered id
  | binary .bytes _ | binary .byteArray _ | mapping .pairs _ | null | bool _ | int _ | float _ | str _
  | setting _ | memory _ | outer _ | derived _ | object _ | type _ | extension _ | described _ => rfl
termination_by structural v => v

theorem literalItems_raise (h : ∀ entered id, describe' entered (raised n id) = describe entered id)
    (entered : List Nat) (bound : List Text) : (vs : List Value) →
    literalItems describe' entered bound (raiseItems n vs) = literalItems describe entered bound vs
  | [] => rfl
  | v :: rest => by
    rw [raiseItems, literalItems, literalItems, literalIn_raise h _ _ v, literalItems_raise h _ _ rest]
termination_by structural vs => vs

theorem literalEntries_raise (h : ∀ entered id, describe' entered (raised n id) = describe entered id)
    (entered : List Nat) (bound : List Text) : (es : List (Value × Value)) →
    literalEntries describe' entered bound (raiseEntries n es) =
      literalEntries describe entered bound es
  | [] => rfl
  | (key, v) :: rest => by
    rw [raiseEntries, literalEntries, literalEntries, literalIn_raise h _ _ key,
      literalIn_raise h _ _ v, literalEntries_raise h _ _ rest]
termination_by structural es => es

end

variable (h : ∀ entered id, describe' entered (raised n id) = describe entered id)

include h

theorem literal?_raise (v : Value) : literal? describe' (v.raise n) = literal? describe v :=
  literalIn_raise h [] [] v

theorem shown?_raise (v : Value) : (v.raise n).shown? describe' = v.shown? describe := by
  have hliteral := literal?_raise h v
  cases v with
  | object shown => exact text?_raise shown
  | mapping kind entries =>
    cases kind with
    | view => exact literal?_raise h (dictionary entries)
    | dictionary | pairs => exact hliteral
  | own i v =>
    cases v with
    | object shown => exact text?_raise shown
    | mapping kind entries =>
      cases kind with
      | view => exact literal?_raise h (own i (dictionary entries))
      | dictionary | pairs => exact hliteral
    | _ => exact hliteral
  | str _ | setting _ => rfl
  | _ => exact hliteral

end

@[simp] theorem aloneShown_raise (v : Value) : (v.raise n).aloneShown = v.aloneShown := by
  rw [aloneShown, aloneShown, literal?_raise fun _ _ => rfl]

/-! ## One level deep -/

mutual

theorem instantiate_raise (whole : Value) (k : Nat) : (v : Value) →
    instantiate (whole.raise n) k (v.raise n) = (instantiate whole k v).raise n
  | outer i => by
    have houter : (outer i).raise n = outer i := rfl
    rw [houter, instantiate, instantiate]
    split
    · rfl
    · rfl
  | sequence kind items => by
    rw [raise, instantiate, instantiate, raise, instantiateItems_raise whole k items]
  | mapping kind entries => by
    rw [raise, instantiate, instantiate, raise, instantiateEntries_raise whole k entries]
  | selfList items => by
    rw [raise, instantiate, instantiate, raise, instantiateItems_raise whole (k + 1) items]
  | selfDictionary entries => by
    rw [raise, instantiate, instantiate, raise, instantiateEntries_raise whole (k + 1) entries]
  | derived base => by rw [raise, instantiate, instantiate, raise, instantiate_raise whole k base]
  | own i v => by rw [raise, instantiate, instantiate, raise, instantiate_raise whole k v]
  | null | bool _ | int _ | float _ | str _ | setting _ | binary _ _ | memory _ | object _ | type _
  | extension _ | generator _ | described _ => rfl
termination_by structural v => v

theorem instantiateItems_raise (whole : Value) (k : Nat) : (vs : List Value) →
    instantiateItems (whole.raise n) k (raiseItems n vs) = raiseItems n (instantiateItems whole k vs)
  | [] => rfl
  | v :: rest => by
    rw [raiseItems, instantiateItems, instantiateItems, raiseItems, instantiate_raise whole k v,
      instantiateItems_raise whole k rest]
termination_by structural vs => vs

theorem instantiateEntries_raise (whole : Value) (k : Nat) : (es : List (Value × Value)) →
    instantiateEntries (whole.raise n) k (raiseEntries n es) =
      raiseEntries n (instantiateEntries whole k es)
  | [] => rfl
  | (key, v) :: rest => by
    rw [raiseEntries, instantiateEntries, instantiateEntries, raiseEntries,
      instantiate_raise whole k v, instantiateEntries_raise whole k rest]
termination_by structural es => es

end

def Node.raise (n : Nat) : Node → Node
  | .array items => .array (raiseItems n items)
  | .object entries => .object (raiseEntries n entries)
  | .extension e => .extension (raiseExtension n e)
  | node => node

theorem rawEntries_raise (kind : BinaryKind) (data : List UInt8) :
    raiseEntries n (rawEntries kind data) = rawEntries kind data := by
  have hbytes : raiseItems n (data.map fun b => int b.toNat) = data.map fun b => int b.toNat := by
    rw [raiseItems_eq_map, List.map_map]
    rfl
  simp only [rawEntries, raiseEntries, raise, list, hbytes]

@[simp] theorem node_raise : (v : Value) → (v.raise n).node = v.node.raise n
  | derived base => node_raise base
  | own _ v => node_raise v
  | selfList items => congrArg Node.array (instantiateItems_raise (selfList items) 0 items)
  | selfDictionary entries =>
    congrArg Node.object (instantiateEntries_raise (selfDictionary entries) 0 entries)
  | binary kind data => congrArg Node.object (rawEntries_raise kind data).symm
  | null | bool _ | int _ | float _ | str _ | setting _ | memory _ | sequence _ _ | mapping _ _
  | outer _ | object _ | type _ | extension _ | generator _ | described _ => rfl

theorem entries?_raise (v : Value) : (v.raise n).entries? = v.entries?.map (raiseEntries n) := by
  rw [entries?, entries?, content_raise]
  cases v.content with
  | selfDictionary entries =>
    exact congrArg some (instantiateEntries_raise (selfDictionary entries) 0 entries)
  | _ => rfl

mutual

theorem rank_raise : (v : Value) → (v.raise n).rank = v.rank
  | sequence _ items | selfList items => rankItems_raise items
  | mapping _ entries | selfDictionary entries => rankEntries_raise entries
  | derived base => rank_raise base
  | own _ v => rank_raise v
  | described d => rankDescription_raise d
  | extension e => congrArg Nat.succ (rankExtension_raise e)
  | null | bool _ | int _ | float _ | str _ | setting _ | binary _ _ | memory _ | outer _ | object _
  | type _ | generator _ => rfl
termination_by structural v => v

theorem rankItems_raise : (vs : List Value) → rankItems (raiseItems n vs) = rankItems vs
  | [] => rfl
  | v :: rest => by rw [raiseItems, rankItems, rankItems, rank_raise v, rankItems_raise rest]
termination_by structural vs => vs

theorem rankEntries_raise : (es : List (Value × Value)) → rankEntries (raiseEntries n es) = rankEntries es
  | [] => rfl
  | (key, v) :: rest => by
    rw [raiseEntries, rankEntries, rankEntries, rank_raise key, rank_raise v, rankEntries_raise rest]
termination_by structural es => es

theorem rankExtension_raise : (e : Extension Value) → rankExtension (raiseExtension n e) = rankExtension e
  | .point x y => by rw [raiseExtension, rankExtension, rankExtension, rank_raise x, rank_raise y]
  | .delegate v _ | .reconfigured v _ | .mutator _ v => rank_raise v
  | .literal _ | .depthText | .stateText | .capture _ _ | .raiser _ _ => rfl
termination_by structural e => e

theorem rankDescription_raise : (d : Description Value) →
    rankDescription (raiseDescription n d) = rankDescription d
  | .repeated v _ | .derived _ v => rank_raise v
  | .slot _ | .fresh _ => rfl
termination_by structural d => d

end

/-! ## Keys -/

@[simp] theorem numberForm?_raise (v : Value) : (v.raise n).numberForm? = v.numberForm? := by
  have hwhole : (v.raise n).int?.map KeyForm.whole = v.int?.map KeyForm.whole := by rw [int?_raise]
  cases v with
  | float x => rfl
  | _ => exact hwhole

@[simp] theorem scalarForm?_raise (v : Value) : (v.raise n).scalarForm? = v.scalarForm? := by
  have hcontent : (v.raise n).contentForm? = v.contentForm? := by
    simp only [contentForm?, numberForm?_raise, text?_raise, data?_raise]
  cases v with
  | null | type _ => rfl
  | _ => exact hcontent

@[simp] theorem sameScalar_raise (v w : Value) :
    sameScalar (v.raise n) (w.raise n) = sameScalar v w := by
  rw [Bool.eq_iff_iff, sameScalar_iff, sameScalar_iff]
  simp only [content_raise, scalarForm?_raise]

mutual

theorem sameKey_raise (w : Value) : (v : Value) → (v.raise n).sameKey (w.raise n) = v.sameKey w
  | own i v => by rw [raise, sameKey, sameKey, identity?_raise, sameKey_raise w v]
  | derived v => by rw [raise, sameKey, sameKey, sameKey_raise w v]
  | sequence .tuple vs => by
    rw [raise, sameKey, sameKey, content_raise]
    cases w.content with
    | sequence kind ws =>
      cases kind with
      | tuple => exact sameKeys_raise ws vs
      | list => rfl
    | _ => rfl
  | sequence .list vs => (sameScalar_raise (sequence .list vs) w :)
  | mapping _ _ | null | bool _ | int _ | float _ | str _ | setting _ | binary _ _ | memory _
  | selfList _ | selfDictionary _ | outer _ | object _ | type _ | extension _ | generator _
  | described _ => (sameScalar_raise _ w :)
termination_by structural v => v

theorem sameKeys_raise : (ws vs : List Value) →
    sameKeys (raiseItems n vs) (raiseItems n ws) = sameKeys vs ws
  | [], [] => rfl
  | _ :: _, [] => rfl
  | [], _ :: _ => rfl
  | w :: ws, v :: vs => by
    rw [raiseItems, raiseItems, sameKeys, sameKeys, sameKey_raise w v, sameKeys_raise ws vs]
termination_by structural _ vs => vs

end

mutual

@[simp] theorem unhashable?_raise : (v : Value) → (v.raise n).unhashable? = v.unhashable?
  | sequence .tuple items => unhashableItem?_raise items
  | derived base => by
    rw [raise, unhashable?, unhashable?, content_raise, unhashable?_raise base]
    cases base.content with
    | sequence kind _ => cases kind <;> rfl
    | binary kind _ => cases kind <;> rfl
    | _ => rfl
  | own _ v => unhashable?_raise v
  | binary .bytes _ | binary .byteArray _ | sequence .list _ | mapping _ _ | null | bool _ | int _
  | float _ | str _ | setting _ | memory _ | selfList _ | selfDictionary _ | outer _ | object _ | type _
  | extension _ | generator _ | described _ => rfl
termination_by structural v => v

theorem unhashableItem?_raise : (vs : List Value) → unhashableItem? (raiseItems n vs) = unhashableItem? vs
  | [] => rfl
  | v :: rest => by
    rw [raiseItems, unhashableItem?, unhashableItem?, unhashable?_raise v, unhashableItem?_raise rest]
termination_by structural vs => vs

end

end Value

namespace Entries

variable {n : Nat}

abbrev raise (n : Nat) (es : Entries) : Entries := Value.raiseEntries n es

theorem insert_raise (key v : Value) (es : Entries) :
    (es.raise n).insert (key.raise n) (v.raise n) = Entries.raise n (es.insert key v) := by
  induction es with
  | nil => rfl
  | cons e rest ih =>
    obtain ⟨key', w⟩ := e
    simp only [raise, Value.raiseEntries, Keyed.insert, Value.sameKey_raise] at ih ⊢
    split
    · rfl
    · rw [ih]
      rfl

theorem insertAll_raise (news es : Entries) :
    (es.raise n).insertAll (news.raise n) = Entries.raise n (es.insertAll news) := by
  induction news generalizing es with
  | nil => rfl
  | cons e rest ih =>
    obtain ⟨key, v⟩ := e
    rw [raise, raise, Value.raiseEntries, Keyed.insertAll, List.foldl_cons, insert_raise]
    exact ih _

theorem dictionary?_raise (news es : Entries) :
    Keyed.dictionary? (es.raise n) (news.raise n) =
      (Keyed.dictionary? es news).map (Entries.raise n) := by
  induction news generalizing es with
  | nil => rfl
  | cons e rest ih =>
    obtain ⟨key, v⟩ := e
    rw [raise, raise, Value.raiseEntries, Keyed.dictionary?, Keyed.dictionary?, Value.unhashable?_raise]
    split
    · rfl
    · rw [insert_raise]
      exact ih _

end Entries

end JsonWriter
