import JsonWriter.Operation
import JsonWriter.Proofs.Success

/-!
# Bytes carried by text

Bytes are written as the tagged object that carries them, whichever way they are given, and what is read
where they were written is that object, of which the same bytes of the same kind are made. Main statement:
`generate_binary`.
-/

namespace JsonWriter

open Generator (Format)
open Json (IsBlank)

/-! ## Places -/

namespace Value

/-- The value in a container at an index, in order. -/
def child? (v : Value) (i : Nat) : Option Value :=
  match v.node with
  | .array items => items[i]?
  | .object entries => entries[i]?.map (·.2)
  | _ => none

/-- The value at a place, given by an index for each container around it. -/
def at? : Value → List Nat → Option Value
  | v, [] => some v
  | v, i :: rest => (v.child? i).bind fun w => w.at? rest

end Value

namespace Json

def child? (j : Json) (i : Nat) : Option Json :=
  match j with
  | .array items => items[i]?
  | .object members => members[i]?.map (·.2)
  | _ => none

def at? : Json → List Nat → Option Json
  | j, [] => some j
  | j, i :: rest => (j.child? i).bind fun w => w.at? rest

mutual

/-- What was read as a value. A name that comes again takes the new value. -/
def value : Json → Value
  | null => .null
  | bool b => .bool b
  | int n => .int n
  | float x => .float x
  | string t => .str t
  | array items => .list (valueItems items)
  | object members => .dictionary (Keyed.insertAll [] (valueMembers members))
termination_by structural j => j

def valueItems : List Json → List Value
  | [] => []
  | j :: rest => value j :: valueItems rest
termination_by structural js => js

def valueMembers : List (Text × Json) → Entries
  | [] => []
  | (name, j) :: rest => (.str name, value j) :: valueMembers rest
termination_by structural ms => ms

end

/-- The value that is read at a place in a text. -/
def readAt? (nan : Bool) (t : Text) (path : List Nat) : Option Value := do
  let j ← read? nan t
  return (← j.at? path).value

end Json

theorem getElem?_of_mapM {α β : Type} {g : α → Option β} {as : List α} {bs : List β}
    (h : as.mapM g = some bs) {i : Nat} {a : α} (ha : as[i]? = some a) :
    ∃ b, bs[i]? = some b ∧ g a = some b := by
  have hall := forall₂_of_mapM h
  obtain ⟨hi, rfl⟩ := List.getElem?_eq_some_iff.mp ha
  have hi' : i < bs.length := hall.length_eq ▸ hi
  exact ⟨bs[i], List.getElem?_eq_getElem hi', hall.get hi hi'⟩

namespace Value

/-- The normal form of a value holds those of the values in it, at the same places. -/
theorem normal?_child? {describe : List Nat → Nat → Option Text} {v : Value} (hv : v.IsNative) {i : Nat}
    {w : Value} (hw : v.child? i = some w) {j : Json} (hj : v.normal? describe = some j) :
    ∃ u, j.child? i = some u ∧ w.normal? describe = some u ∧ w.IsNative := by
  induction v, hv using tree_induction generalizing j with
  | scalar v h hscalar =>
    unfold child? at hw
    split at hw <;> simp_all [Render.container?]
  | sequence v h kind items hcontent ih =>
    have hnode : v.node = .array items := by rw [← node_content, hcontent]; rfl
    rw [child?, hnode] at hw
    rw [normal?_of_sequence describe hcontent, Option.map_eq_some_iff] at hj
    obtain ⟨js, hjs, rfl⟩ := hj
    obtain ⟨u, hu, hnormal⟩ := getElem?_of_mapM hjs hw
    exact ⟨u, hu, hnormal, (ih w (List.mem_of_getElem? hw)).1⟩
  | mapping v h kind entries hcontent ih =>
    have hnode : v.node = .object entries := by rw [← node_content, hcontent]; rfl
    rw [child?, hnode] at hw
    obtain ⟨e, he, rfl⟩ := Option.map_eq_some_iff.mp hw
    rw [normal?_of_mapping describe hcontent, Option.map_eq_some_iff] at hj
    obtain ⟨members, hmembers, rfl⟩ := hj
    obtain ⟨member, hmember, hnormal⟩ := getElem?_of_mapM hmembers he
    simp only [normalMember?, Option.bind_eq_bind, Option.bind_eq_some_iff, pure] at hnormal
    obtain ⟨name, -, u, hu, h⟩ := hnormal
    obtain rfl := Option.some.inj h
    exact ⟨u, by rw [Json.child?, hmember]; rfl, hu, (ih e (List.mem_of_getElem? he)).1⟩
  | binary v h kind data hcontent ih =>
    have hnode : v.node = (dictionary (rawEntries kind data)).node := by
      rw [← node_content, hcontent]
      rfl
    rw [normal?_of_binary describe hcontent] at hj
    rw [child?, hnode] at hw
    exact ih.2 hw hj

theorem normal?_at? {describe : List Nat → Nat → Option Text} {v : Value} (hv : v.IsNative)
    {path : List Nat} {w : Value} (hw : v.at? path = some w) {j : Json}
    (hj : v.normal? describe = some j) :
    ∃ u, j.at? path = some u ∧ w.normal? describe = some u := by
  induction path generalizing v j with
  | nil =>
    obtain rfl := Option.some.inj hw
    exact ⟨j, rfl, hj⟩
  | cons i rest ih =>
    obtain ⟨u, hu, hat⟩ := Option.bind_eq_some_iff.mp hw
    obtain ⟨j', hj', hnormal, hnative⟩ := normal?_child? hv hu hj
    obtain ⟨k, hk, hnormal⟩ := ih hnative hat hnormal
    exact ⟨k, by rw [Json.at?, hj']; exact hk, hnormal⟩

end Value

/-! ## The tagged object -/

namespace RawObject

theorem bytes_map (data : List UInt8) (index : Nat) (s : Session) :
    bytes index (data.map fun b => .int b.toNat) s = (.ok data, s) := by
  induction data generalizing index with
  | nil => rfl
  | cons b rest ih =>
    have hrange : 0 ≤ (b.toNat : Int) ∧ (b.toNat : Int) < 0x100 := by
      have := b.toNat_lt
      omega
    simp only [List.map_cons, bytes, Value.wholeNumber?, Value.content, if_pos hrange, Action.bind_apply,
      ih, Action.resume_ok, Action.pure_apply, Int.toNat_natCast, UInt8.ofNat_toNat]

/-- Of the tagged object for bytes the same bytes are made, of the same kind. -/
theorem unwrap_rawEntries (kind : BinaryKind) (data : List UInt8) (s : Session) :
    unwrap (.dictionary (Value.rawEntries kind data)) none s = (.ok (.binary kind data), s) := by
  have htag : Entries.last? (text "json_class") (Value.rawEntries kind data) =
      some (.str (Value.binary kind data).kind) := rfl
  have hraw : Entries.last? (text "raw") (Value.rawEntries kind data) =
      some (.list (data.map fun b => .int b.toNat)) := rfl
  have hkind : kind? (Value.binary kind data).kind = some kind := by cases kind <;> rfl
  simp only [unwrap, Value.dictionary, Value.entries?, Value.content, htag, hraw, Option.getD_some,
    Value.text?, Option.bind_some, hkind]
  simp only [items?, Value.list, Value.node, Action.bind_apply, bytes_map, Action.resume_ok,
    Action.pure_apply]

end RawObject

section

variable {v : Value} {kind : BinaryKind} {data : List UInt8} (h : v.content = .binary kind data)

include h

/-- To a reader bytes are the tagged object. -/
theorem Value.value_of_normal? {describe : List Nat → Nat → Option Text} {j : Json}
    (hj : v.normal? describe = some j) : j.value = .dictionary (rawEntries kind data) := by
  have hitems : Json.valueItems (data.map fun b => .int b.toNat) = data.map fun b => .int b.toNat := by
    clear h
    induction data with
    | nil => rfl
    | cons b rest ih => rw [List.map_cons, Json.valueItems, ih]; rfl
  rw [normal?, ← normalAs?_content, h] at hj
  obtain rfl := Option.some.inj hj
  simp only [Json.value, Json.valueMembers, hitems]
  rfl

theorem RawObject.wrap_of_binary : wrap v = .ok (.dictionary (Value.rawEntries kind data)) := by
  rw [wrap, h]

theorem Value.isNative_of_binary : v.IsNative := (isTree_content v).mp (by rw [h]; trivial)

end

theorem Value.rank_rawEntries (kind : BinaryKind) (data : List UInt8) :
    (dictionary (rawEntries kind data)).rank = 0 := by
  have hbytes : rankItems (data.map fun b => int b.toNat) = 0 := by
    induction data with
    | nil => rfl
    | cons b rest ih => simp [rankItems, rank, ih]
  simp [dictionary, rawEntries, list, rank, rankEntries, hbytes]

/-! ## Generating -/

/-- The text of the tagged object for bytes. -/
def toJsonRaw (data config : Value) : Action Text := do
  generateConfigured (← Action.ofExcept (RawObject.wrap data)) config

/-- This is the operation on arguments that were read. -/
theorem run_toJsonRaw (data : Value) (config : Option Value) :
    Operation.run (.toJsonRaw data config) = do
      let (v, c) ← Operation.arguments data config
      return .value (.str (← toJsonRaw v c)) := by
  simp only [Operation.run, toJsonRaw, bind_assoc]

section

variable {v : Value} {kind : BinaryKind} {data : List UInt8} (h : v.content = .binary kind data)

include h

/-- Bytes are rendered as their tagged object is. -/
theorem render_rawEntries (id : Nat) (depth : Option Value) :
    render (.dictionary (Value.rawEntries kind data)) id depth = render v id depth := by
  have hrank : v.rank = 0 := by
    rw [← Value.rank_content, h]
    rfl
  rw [render, render, hrank, Value.rank_rawEntries, renderAt_of_finite (Value.isTree_rawEntries kind data),
    renderAt_of_finite (Value.isNative_of_binary h).isFinite]
  simp only [Render.layOut_of_binary _ _ _ h]

theorem generateConfigured_rawEntries (config : Value) :
    generateConfigured (.dictionary (Value.rawEntries kind data)) config = generateConfigured v config := by
  simp only [generateConfigured, generate, generateWith, render_rawEntries h]

theorem toJsonRaw_of_binary (config : Value) : toJsonRaw v config = generateConfigured v config := by
  rw [toJsonRaw, RawObject.wrap_of_binary h, Render.ofExcept_ok, pure_bind, generateConfigured_rawEntries h]

end

namespace Render

section

variable {f : Format} {s : Session} {limit : Int} {x : Number} {indent : Text} {d : Int} {depth v : Value}
  {kind : BinaryKind} {data : List UInt8}

/-- Bytes are laid out exactly if their array is within the limit and the lines of the tagged object and
of the array can be indented. -/
theorem layOut_binary_succeeds (h : v.content = .binary kind data) (hf : f.HasLayout fun _ => True)
    (hindent : f.indent.text? = some indent) (hx : f.maxNesting.number? = some x)
    (hlimit : x.whole? = some limit) (hd : depth.int? = some d) :
    Succeeds (layOut (.outcome f s) f depth v) ↔ (limit = 0 ∨ d + 2 ≤ limit) ∧
      f.HasRoom indent .object d 2 ∧ f.HasRoom indent .array (d + 1) data.length := by
  have hpair (name : Text) (hname : name.IsScalar) (value : Except Fault (List Part)) :
      Succeeds (pair (.outcome f s) f (.str name) value) ↔ Succeeds value :=
    (pair_succeeds hf _ value).trans (and_iff_right ⟨name, rfl, hname⟩)
  have hscalar (w depth : Value) (hw : w.IsNative) (hnone : container? w = none)
      (haccepts : f.Accepts limit s.describe d w) : Succeeds (layOut (.outcome f s) f depth w) := by
    rw [layOut_of_scalar _ _ _ hnone, token_succeeds]
    exact (leaf_succeeds hw hnone _ _ d).mpr haccepts
  have htag (depth : Value) :
      Succeeds (layOut (.outcome f s) f depth (.str (Value.binary kind data).kind)) := by
    have hscalar' : (Value.binary kind data).kind.IsScalar := by
      cases kind <;> rw [Value.kind] <;> decide
    exact hscalar _ _ trivial rfl hscalar'
  have hbyte (b : UInt8) (depth : Value) : Succeeds (layOut (.outcome f s) f depth (.int b.toNat)) := by
    have hlarge : 0x100 ≤ Decimal.tenTo Decimal.digitLimit := by decide +kernel
    have hsmall := b.toNat_lt
    have hshort : Decimal.IsShort b.toNat := by
      rw [Decimal.IsShort]
      omega
    exact hscalar _ _ trivial rfl hshort
  have harray : Succeeds (layOut (.outcome f s) f (Number.whole (d + 1)).value
      (.list (data.map fun b => .int b.toNat))) ↔
        (limit = 0 ∨ d + 1 + 1 ≤ limit) ∧ f.HasRoom indent .array (d + 1) data.length := by
    rw [layOut_of_sequence _ _ _ rfl, block_succeeds hf hindent hx hlimit .array rfl]
    simp only [List.length_map, List.forall_mem_map, hbyte, implies_true, and_true]
  rw [layOut_of_binary _ _ _ h, layOut_of_mapping _ _ _ rfl,
    block_succeeds hf hindent hx hlimit .object hd]
  simp only [Value.rawEntries, List.map_cons, List.map_nil, List.forall_mem_cons, List.length_cons,
    List.length_nil]
  rw [hpair _ (by decide), hpair _ (by decide), harray]
  constructor
  · rintro ⟨-, hobject, -, ⟨hopens, hlines⟩, -⟩
    exact ⟨by omega, hobject, hlines⟩
  · rintro ⟨hopens, hobject, hlines⟩
    exact ⟨by omega, hobject, htag _, ⟨by omega, hlines⟩, List.forall_mem_nil _⟩

end

end Render

/-- What it takes to carry so many bytes: blanks between tokens, whole numbers for the depth and the limit,
and lines that can be indented, those of the tagged object and those of its array. -/
structure Generator.Carries (g : Generator) (d limit : Int) (length : Nat) : Prop where
  blank : g.HasLayout IsBlank
  depth : g.depth.int? = some d
  limit : g.maxNesting.int? = some limit
  lines : ∀ indent ∈ g.indent.text?, g.format.HasRoom indent .object d 2 ∧
    g.format.HasRoom indent .array (d + 1) length

theorem Generator.Carries.fits {g : Generator} {d limit : Int} {length : Nat}
    (h : g.Carries d limit length) : g.HasLayout (CodePoint.Fits g.asciiOnly.isTrue) := by
  have hascii : ∀ c, IsBlank c → c.IsAscii := by
    intro c hc
    simp only [IsBlank, CodePoint.IsAscii] at hc ⊢
    omega
  exact (h.blank.mono hascii).fits _

/-- A reader gets a value at a place in the text of which the bytes are made, in any session. -/
def Json.HasBytes (nan : Bool) (t : Text) (path : List Nat) (kind : BinaryKind) (data : List UInt8) : Prop :=
  ∃ w, readAt? nan t path = some w ∧ ∀ s, RawObject.unwrap w none s = (.ok (.binary kind data), s)

/-- Bytes anywhere in a value are read back from the text of the value. -/
theorem hasBytes_of_generate {whole : Value} (hwhole : whole.IsNative) {s : Session} {id : Nat}
    {g : Generator} (hg : s.generator? id = some g) (hblank : g.HasLayout IsBlank) {t : Text}
    (ht : (generate whole id s).1 = .ok t) {path : List Nat} {v : Value} (hv : whole.at? path = some v)
    {kind : BinaryKind} {data : List UInt8} (h : v.content = .binary kind data) :
    Json.HasBytes g.allowNan.isTrue t path kind data := by
  obtain ⟨j, hj, -, hread⟩ := generate_spells hwhole hg hblank ht
  obtain ⟨i, hi, hnormal⟩ := Value.normal?_at? hwhole hv hj
  refine ⟨_, ?_, RawObject.unwrap_rawEntries kind data⟩
  simp only [Json.readAt?, hread, Option.bind_eq_bind, Option.bind_some, hi, pure,
    Value.value_of_normal? h hnormal]

section

variable {v : Value} {kind : BinaryKind} {data : List UInt8} (h : v.content = .binary kind data)
  {s : Session} {id : Nat} {g : Generator} (hg : s.generator? id = some g) {d limit : Int}
  (hcarries : g.Carries d limit data.length)

include h hg hcarries

/-- There is text for bytes if their array is within the limit. -/
theorem generate_binary_succeeds (hlimit : limit = 0 ∨ d + 2 ≤ limit) :
    ∃ t, (generate v id s).1 = .ok t := by
  obtain ⟨indent, hindent, -⟩ := hcarries.blank .indent (by decide)
  obtain ⟨x, hx, hxm⟩ := Value.number?_of_int? hcarries.limit
  have htexts : g.HasLayout fun _ => True := hcarries.blank.mono fun _ _ => trivial
  refine (generate_succeeds_of_layOut (Value.isNative_of_binary h) hg hcarries.fits).mpr ?_
  rw [Render.layOut_binary_succeeds h htexts.format hindent hx hxm hcarries.depth]
  exact ⟨hlimit, hcarries.lines indent hindent⟩

/-- If it is not, the fault names the first depth past the limit. -/
theorem generate_binary_tooDeep (hunlimited : limit ≠ 0) (hlimit : limit < d + 2) :
    ∃ x, g.maxNesting.number? = some x ∧
      (generate v id s).1 = .error (.tooDeep (.whole (max d limit + 1)) x) := by
  obtain ⟨indent, hindent, -⟩ := hcarries.blank .indent (by decide)
  obtain ⟨x, hx, hxm⟩ := Value.number?_of_int? hcarries.limit
  have htexts : g.HasLayout fun _ => True := hcarries.blank.mono fun _ _ => trivial
  have hnative := Value.isNative_of_binary h
  have hscribe : Render.Scribe.outcome g.format.unlimited s = .outcome g.format s := rfl
  have hformat : g.format.unlimited.HasLayout fun _ => True :=
    ⟨htexts.format.indent, htexts.format.colon, fun shape => by
      obtain ⟨newline, hnewline⟩ := htexts.format.newline shape
      exact ⟨newline, by cases shape <;> exact hnewline⟩⟩
  have hfree : Succeeds (Render.layOut (.outcome g.format s) g.format.unlimited g.depth v) := by
    rw [← hscribe, Render.layOut_binary_succeeds (x := .whole 0) h hformat hindent rfl rfl hcarries.depth]
    exact ⟨.inl rfl, hcarries.lines indent hindent⟩
  obtain ⟨parts, hparts⟩ := hfree
  have hheight : v.height = 2 := by rw [Value.height_of_binary h, Value.height_rawEntries]
  have hlimited := Render.layOut_limited hx hxm hnative hcarries.depth hparts
  rw [hheight, if_pos ⟨hunlimited, by omega⟩] at hlimited
  refine ⟨x, hx, ?_⟩
  rw [generate_eq_join hnative hg hcarries.fits, Render.Scribe.outcome, hlimited]
  rfl

end

/-- Bytes are written as their tagged object, whether they are given as they are, as that object or to be
wrapped, and under any configuration. Where the lines can be indented, there is text exactly if the
array is within the limit, and the fault names the first depth past the limit otherwise, unless that is
too long to be written. From the text of bytes, and from the place where they stand in that of a larger
value, a reader gets an object of which the same bytes of the same kind are made. -/
theorem generate_binary {v : Value} {kind : BinaryKind} {data : List UInt8}
    (h : v.content = .binary kind data) :
    (∀ config, toJsonRaw v config = generateConfigured v config ∧
      ∃ w, RawObject.wrap v = .ok w ∧ generateConfigured w config = generateConfigured v config) ∧
    (∀ config s s' id g d limit, Action.resolve config s = (.ok id, s') → s'.generator? id = some g →
      g.Carries d limit data.length →
        (limit = 0 ∨ d + 2 ≤ limit → ∃ t, (generateConfigured v config s).1 = .ok t ∧
          Json.HasBytes g.allowNan.isTrue t [] kind data) ∧
        (limit ≠ 0 → limit < d + 2 → Decimal.IsShort (max d limit + 1) →
          ∃ x, g.maxNesting.number? = some x ∧
            (generateConfigured v config s).1 = .error (.nesting (.whole (max d limit + 1)) x))) ∧
    ∀ (whole : Value) path s id g t, whole.IsNative → whole.at? path = some v →
      s.generator? id = some g → g.HasLayout IsBlank → (generate whole id s).1 = .ok t →
        Json.HasBytes g.allowNan.isTrue t path kind data := by
  refine ⟨fun config => ⟨toJsonRaw_of_binary h config, _, RawObject.wrap_of_binary h,
    generateConfigured_rawEntries h config⟩, ?_, ?_⟩
  · intro config s s' id g d limit hresolve hg hcarries
    have hconfigured : generateConfigured v config s = generate v id s' := by
      rw [generateConfigured, Action.bind_apply, hresolve, Action.resume_ok]
    rw [hconfigured]
    constructor
    · intro hlimit
      obtain ⟨t, ht⟩ := generate_binary_succeeds h hg hcarries hlimit
      exact ⟨t, ht, hasBytes_of_generate (Value.isNative_of_binary h) hg hcarries.blank ht rfl h⟩
    · intro hunlimited hlimit hshort
      obtain ⟨x, hx, houtcome⟩ := generate_binary_tooDeep h hg hcarries hunlimited hlimit
      refine ⟨x, hx, ?_⟩
      have hwritten : (Number.whole (max d limit + 1)).IsShort := (Value.ofInt?_isSome _).mpr hshort
      rw [houtcome, Fault.tooDeep, if_pos hwritten]
  · intro whole path s id g t hwhole hv hg hblank ht
    exact hasBytes_of_generate hwhole hg hblank ht hv h

/-- Bytes of a derived type. -/
def octetsSample : Value := .derived (.binary .byteArray [0, 0x7F, 0xFF])

/-- New lines in objects, and just the levels that bytes take. -/
def octetsConfiguration : Value :=
  .dictionary [(.str (text "object_nl"), .str (text "\n")), (.str (text "max_nesting"), .int 2)]

/-- The generator that this makes. -/
def octetsGenerator : Generator :=
  { Generator.initial with objectNewline := .str (text "\n"), maxNesting := .int 2 }

def octetsText : Text :=
  text "\x7b\n\"json_class\":\"bytearray\",\n\"raw\":[0,127,255]\n\x7d"

/-- A generator with one level less. -/
def flatGenerator : Generator := { Generator.initial with maxNesting := .int 1 }

/-- The bytes in an object in a list. -/
def octetsWhole : Value := .list [.null, .dictionary [(.int 1, octetsSample)]]

def octetsWholeText : Text :=
  text "[null,\x7b\"1\":\x7b\"json_class\":\"bytearray\",\"raw\":[0,127,255]\x7d\x7d]"

theorem generate_octetsSample :
    let s := { Session.initial true with generators := #[.initial, flatGenerator] }
    (toJsonRaw octetsSample octetsConfiguration s).1 = .ok octetsText ∧
      Json.HasBytes false octetsText [] .byteArray [0, 0x7F, 0xFF] ∧
      (toJsonRaw octetsSample (.generator 1) s).1 = .error (.nesting (.whole 2) (.whole 1)) ∧
      (generate octetsWhole 0 s).1 = .ok octetsWholeText ∧
      Json.HasBytes false octetsWholeText [1, 0] .byteArray [0, 0x7F, 0xFF] := by
  intro s
  have h : octetsSample.content = .binary .byteArray [0, 0x7F, 0xFF] := rfl
  obtain ⟨hways, hconfigured, hplaces⟩ := generate_binary h
  have hresolve : Action.resolve octetsConfiguration s =
      (.ok 2, (Action.resolve octetsConfiguration s).2) := rfl
  have hg : (Action.resolve octetsConfiguration s).2.generator? 2 = some octetsGenerator := rfl
  have hcarries : octetsGenerator.Carries 0 2 3 := by
    refine ⟨by decide, rfl, rfl, fun indent hindent => ?_⟩
    obtain rfl := Option.some.inj hindent
    exact ⟨fun _ _ => .inr (by decide), fun _ hnewline => .inl (Except.ok.inj hnewline).symm⟩
  have hcarries' : flatGenerator.Carries 0 1 3 :=
    ⟨by decide, rfl, rfl, fun _ _ => ⟨fun _ hnewline => .inl (Except.ok.inj hnewline).symm,
      fun _ hnewline => .inl (Except.ok.inj hnewline).symm⟩⟩
  obtain ⟨t, ht, hbytes⟩ := (hconfigured _ s _ _ _ _ _ hresolve hg hcarries).1 (.inr (by decide))
  obtain ⟨x, hx, hfault⟩ := (hconfigured (.generator 1) s s 1 _ _ _ rfl rfl hcarries').2 (by decide)
    (by decide) (by decide +kernel)
  have htext : (generateConfigured octetsSample octetsConfiguration s).1 = .ok octetsText := by
    rw [generateConfigured, Action.bind_apply, hresolve, Action.resume_ok,
      generate_outcome (Value.isNative_of_binary h) hg]
    decide +kernel
  have hwhole : octetsWhole.IsNative := ⟨trivial, ⟨trivial, trivial⟩, trivial⟩
  have hwholeText : (generate octetsWhole 0 s).1 = .ok octetsWholeText := by
    rw [generate_outcome hwhole rfl]
    decide +kernel
  obtain rfl := Option.some.inj hx
  obtain rfl := Except.ok.inj (ht.symm.trans htext)
  rw [(hways octetsConfiguration).1, (hways (.generator 1)).1]
  exact ⟨htext, hbytes, hfault, hwholeText,
    hplaces octetsWhole [1, 0] s 0 .initial octetsWholeText hwhole rfl rfl (by decide) hwholeText⟩

/-- New lines in objects at a depth that does not fit a machine word, without a limit on nesting. -/
def farObjects : Generator :=
  { Generator.initial with
    objectNewline := .str (text "\n"), maxNesting := .int 0, depth := .int 0x8000000000000000 }

/-- There the entries of the tagged object cannot be indented, though the indentation is empty. -/
theorem generate_farObjects :
    let s := { Session.initial true with generators := #[farObjects] }
    farObjects.IsValid ∧ farObjects.HasLayout IsBlank ∧ farObjects.maxNesting.int? = some 0 ∧
      (generate (.binary .bytes []) 0 s).1 = .error (.overflow (.count (text "int"))) ∧
      (toJsonRaw (.binary .bytes []) (.generator 0) s).1 = .error (.overflow (.count (text "int"))) := by
  intro s
  have h : (Value.binary .bytes []).content = .binary .bytes [] := rfl
  have hfault : (generate (.binary .bytes []) 0 s).1 = .error (.overflow (.count (text "int"))) := by
    rw [generate_outcome (Value.isNative_of_binary h) rfl]
    decide +kernel
  refine ⟨⟨fun t => by cases t <;> exact ⟨_, rfl⟩, List.forall_mem_nil _⟩, by decide, rfl, hfault, ?_⟩
  rw [toJsonRaw_of_binary h]
  exact hfault

end JsonWriter
