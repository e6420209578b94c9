import JsonWriter.Proofs.Session.Compositional
import JsonWriter.Proofs.Session.Ensures

/-!
# Counting that cannot fail

Whatever the library counts on its own has a whole number for a size, so the totals are whole numbers and
the next size can be added to them. A command that counts a call itself keeps them so if the size that it
is given is a whole number. Main statement: `Command.ensures_countedWhole`.
-/

namespace JsonWriter

/-! ## Totals -/

theorem Number.add?_of_whole {x y : Number} {m n : Int} (hx : x.whole? = some m) (hy : y.whole? = some n) :
    x.add? y = some (.whole (m + n)) := by
  simp only [add?, hx, hy]

theorem Value.addTo_of_int? {v : Value} {n : Int} (hv : v.int? = some n) {total : Number} {m : Int}
    (htotal : total.whole? = some m) : v.addTo total = .ok (.whole (m + n)) := by
  obtain ⟨x, hx, hwhole⟩ := Value.number?_of_int? hv
  simp only [addTo, hx, Number.add?_of_whole htotal hwhole]

/-- The totals are whole numbers. -/
structure Tally.IsWhole (t : Tally) : Prop where
  nanoseconds : t.nanoseconds.whole?.isSome
  bytes : t.bytes.whole?.isSome

/-- One more call with whole numbers is counted in full. -/
theorem Tally.record_of_whole {t : Tally} {duration size : Value} {m n k l : Int}
    (hnanoseconds : t.nanoseconds.whole? = some m) (hbytes : t.bytes.whole? = some n)
    (hduration : duration.int? = some k) (hsize : size.int? = some l) :
    t.record duration size = (.ok (), ⟨t.name, t.calls + 1, .whole (m + k), .whole (n + l)⟩) := by
  simp only [record, Value.addTo_of_int? hduration hnanoseconds, Value.addTo_of_int? hsize hbytes]

theorem Tally.record_of_isWhole {t : Tally} (ht : t.IsWhole) {duration size : Value}
    (hduration : duration.int?.isSome) (hsize : size.int?.isSome) :
    ∃ t', t.record duration size = (.ok (), t') ∧ t'.IsWhole := by
  obtain ⟨m, hm⟩ := Option.isSome_iff_exists.mp ht.nanoseconds
  obtain ⟨n, hn⟩ := Option.isSome_iff_exists.mp ht.bytes
  obtain ⟨k, hk⟩ := Option.isSome_iff_exists.mp hduration
  obtain ⟨l, hl⟩ := Option.isSome_iff_exists.mp hsize
  exact ⟨_, Tally.record_of_whole hm hn hk hl, ⟨rfl, rfl⟩⟩

/-- All totals are whole numbers. -/
def Profile.IsWhole (p : Profile) : Prop :=
  ∀ (i : Nat) (t : Tally), p.tallies[i]? = some t → t.IsWhole

namespace Profile

variable {p : Profile}

theorem IsWhole.put (hp : p.IsWhole) {t : Tally} (ht : t.IsWhole) (i : Nat) :
    IsWhole { p with tallies := p.tallies.setIfInBounds i t } := by
  intro j t' hj
  rw [Array.getElem?_setIfInBounds] at hj
  split at hj
  · split at hj
    · exact Option.some.inj hj ▸ ht
    · cases hj
  · exact hp j t' hj

theorem IsWhole.push (hp : p.IsWhole) {t : Tally} (ht : t.IsWhole) (live : List Nat) :
    IsWhole ⟨p.tallies.push t, live⟩ := by
  intro j t' hj
  rw [Array.getElem?_push] at hj
  split at hj
  · exact Option.some.inj hj ▸ ht
  · exact hp j t' hj

theorem record_of_isWhole (hp : p.IsWhole) (name : Text) {duration size : Value}
    (hduration : duration.int?.isSome) (hsize : size.int?.isSome) :
    ∃ p', p.record name duration size = (.ok (), p') ∧ p'.IsWhole := by
  have hstart : (Tally.start name).IsWhole := ⟨rfl, rfl⟩
  cases hnumber : p.number? name with
  | some i =>
    have hfound : ((p.tallies[i]?).getD (.start name)).IsWhole := by
      cases ht : p.tallies[i]? with
      | none => exact hstart
      | some t => exact hp i t ht
    obtain ⟨t', hrecord, ht'⟩ := Tally.record_of_isWhole hfound hduration hsize
    exact ⟨_, by simp only [record, hnumber, hrecord], hp.put ht' i⟩
  | none =>
    obtain ⟨t', hrecord, ht'⟩ := Tally.record_of_isWhole hstart hduration hsize
    exact ⟨_, by simp only [record, hnumber, hrecord], hp.push ht' (p.live ++ [p.tallies.size])⟩

end Profile

namespace Session

/-- All totals of the session are whole numbers. -/
abbrev CountedWhole (s : Session) : Prop := s.profile.IsWhole

theorem CountedWhole.record {s : Session} (hs : s.CountedWhole) (name : Text) {size : Value}
    (hsize : size.int?.isSome) :
    (s.record name size).1 = .ok () ∧ (s.record name size).2.CountedWhole := by
  have hduration : (Value.int 0).int?.isSome := rfl
  unfold Session.record
  split
  · obtain ⟨p', hrecord, hp'⟩ := Profile.record_of_isWhole hs name hduration hsize
    rw [hrecord]
    exact ⟨rfl, hp'⟩
  · exact ⟨rfl, hs⟩

end Session

namespace Action

/-- What the library counts on its own keeps the totals whole numbers. -/
theorem ensures_countedWhole :
    Compositional fun _ x => Ensures Session.CountedWhole (fun _ => True) x where
  ofExcept r := ensures_any r
  bind hx hk := hx.bind fun a _ => hk a
  counted name size hx := fun s hs => ⟨((hx s hs).1.record name rfl).2, (hx s hs).2⟩
  logged hx := hx.logged_of fun _ _ hs => hs
  log _ := ensures_of_snd fun _ hs => hs
  literal? _ := ensures_of_snd fun _ hs => hs
  shown v := ensures_of_snd fun s hs => by
    unfold shown
    split <;> exact hs
  identity := ensures_of_snd fun _ hs => hs
  equal i j := ensures_of_snd fun s hs => by
    unfold equal
    split <;> exact hs
  generator _ := ensures_of_snd fun _ hs => hs
  replace _ _ := ensures_of_snd fun _ hs => hs
  add _ := ensures_of_snd fun _ hs => hs
  slot name := ensures_of_snd fun s hs => by
    unfold slot
    split <;> exact hs
  setSlot _ _ := ensures_of_snd fun _ hs => hs

end Action

/-! ## Commands -/

namespace Command

open JsonWriter.Action (Ensures ensures_pure)

/-- If the command counts a call itself, then what it reads as its size is a whole number. -/
def CountsWhole : Command → Prop
  | count _ size _ => ∀ v ∈ size, ∀ s w, (v.read s).1 = .ok w → w.int?.isSome
  | _ => True

theorem countsWhole_int (name : Text) (n : Int) (value : Option Value) :
    (count name (some (.int n)) value).CountsWhole := by
  intro v hv s w hw
  obtain rfl := Option.some.inj hv
  obtain rfl := Except.ok.inj hw
  rfl

theorem ensures_size {size : Option Value} (h : ∀ v ∈ size, ∀ s w, (v.read s).1 = .ok w → w.int?.isSome) :
    Ensures Session.CountedWhole (fun w => (w.getD (.int 0)).int?.isSome) (Action.readOptional size) := by
  cases size with
  | none => exact ensures_pure rfl
  | some v =>
    have hread : Ensures Session.CountedWhole (fun w => w.int?.isSome) v.read :=
      fun s hs => ⟨(Action.ensures_countedWhole.reading.read v s hs).1, h v rfl s⟩
    exact hread.bind fun w hw => ensures_pure hw

theorem ensures_countedWhole {c : Command} (h : c.CountsWhole) (slot : Text) :
    Ensures Session.CountedWhole (fun _ => True) (c.run slot) := by
  cases c with
  | statistics | keepStatistics | keptStatistics | clearStatistics =>
    exact Action.ensures_of_snd fun _ hs => hs
  | count name size value =>
    refine (ensures_size h).bind fun w hw => ?_
    refine (Action.ensures_countedWhole.readOptional value).bind fun value _ => ?_
    have hcounted := (Action.ensures_countedWhole.counting value).countedAs_of fun _ hs =>
      (Session.CountedWhole.record hs name hw).2
    exact hcounted.bind fun _ _ => ensures_pure trivial
  | _ => exact Action.ensures_countedWhole.command rfl slot

end Command

end JsonWriter
