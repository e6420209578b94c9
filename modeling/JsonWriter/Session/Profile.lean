import JsonWriter.Value.Operator

/-!
Counters of calls, one record a name. A snapshot shares its records with the running counters until
these are cleared; from then on nobody writes to them.
-/

namespace JsonWriter

/-- What was counted under one name. -/
structure Tally where
  name : Text
  calls : Nat
  nanoseconds : Number
  bytes : Number
deriving DecidableEq

namespace Tally

def start (name : Text) : Tally := ⟨name, 0, .whole 0, .whole 0⟩

/-- The tally after one more call, and the fault if a duration or size cannot be added. What comes
before the fault is counted. -/
def record (t : Tally) (duration size : Value) : Except Fault Unit × Tally :=
  let t := { t with calls := t.calls + 1 }
  match duration.addTo t.nanoseconds with
  | .error f => (.error f, t)
  | .ok total =>
    let t := { t with nanoseconds := total }
    match size.addTo t.bytes with
    | .error f => (.error f, t)
    | .ok total => (.ok (), { t with bytes := total })

/-- The average duration, zero before the first call. -/
def mean (t : Tally) : Except Fault Binary64 :=
  if t.calls = 0 then .ok ⟨0⟩
  else
    match t.nanoseconds, t.nanoseconds.whole? with
    | .floating x, _ => .ok (x.divide t.calls)
    | _, n =>
      let n := n.getD 0
      match Binary64.ofQuotient? (n < 0) n.natAbs t.calls with
      | some x => .ok x
      | none => .error (.overflow .quotient)

end Tally

/-- The records by number, and the numbers of those in use, in the order of their first call. -/
structure Profile where
  tallies : Array Tally
  live : List Nat
deriving DecidableEq

/-- The numbers of the records that were in use when a snapshot was taken. -/
abbrev Snapshot := List Nat

namespace Profile

def empty : Profile := ⟨#[], []⟩

def number? (p : Profile) (name : Text) : Option Nat :=
  p.live.find? fun i => (p.tallies[i]?).any fun t => t.name == name

/-- The profile with one more call under a name, and the fault if it could not be counted in full. -/
def record (p : Profile) (name : Text) (duration size : Value) : Except Fault Unit × Profile :=
  match p.number? name with
  | some i =>
    let (r, t) := ((p.tallies[i]?).getD (.start name)).record duration size
    (r, { p with tallies := p.tallies.setIfInBounds i t })
  | none =>
    let (r, t) := (Tally.start name).record duration size
    (r, ⟨p.tallies.push t, p.live ++ [p.tallies.size]⟩)

def clear (p : Profile) : Profile := { p with live := [] }

def snapshot (p : Profile) : Snapshot := p.live

/-- What the records of a snapshot hold now. -/
def rows (p : Profile) (s : Snapshot) : List Tally := s.filterMap fun i => p.tallies[i]?

end Profile

end JsonWriter
