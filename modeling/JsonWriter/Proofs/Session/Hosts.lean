import JsonWriter.Proofs.Contents
import JsonWriter.Session.Read

/-!
# Objects that write themselves, wherever they are

Which objects that write themselves a value may hold: in its items and keys, in what these objects write
in turn, and in what a value is to be made of. Main statement: `deep_hosts`, whatever the writer or a
conversion takes from a value holds no others.
-/

namespace JsonWriter

mutual

/-- Whatever writes itself in the value is as allowed. -/
def Value.Hosts (allowed : Extension Value → Prop) : Value → Prop
  | .sequence _ items | .selfList items => Value.AllHost allowed items
  | .mapping _ entries | .selfDictionary entries => Value.EntriesHost allowed entries
  | .derived base => base.Hosts allowed
  | .own _ v => v.Hosts allowed
  | .extension e => allowed e ∧ Value.ExtensionHosts allowed e
  | .described d => Value.DescriptionHosts allowed d
  | _ => True
termination_by structural v => v

def Value.AllHost (allowed : Extension Value → Prop) : List Value → Prop
  | [] => True
  | v :: rest => v.Hosts allowed ∧ Value.AllHost allowed rest
termination_by structural vs => vs

def Value.EntriesHost (allowed : Extension Value → Prop) : List (Value × Value) → Prop
  | [] => True
  | (key, v) :: rest => (key.Hosts allowed ∧ v.Hosts allowed) ∧ Value.EntriesHost allowed rest
termination_by structural es => es

/-- What the object writes is as allowed. What it sets or returns is not written. -/
def Value.ExtensionHosts (allowed : Extension Value → Prop) : Extension Value → Prop
  | .point x y => x.Hosts allowed ∧ y.Hosts allowed
  | .delegate v _ | .reconfigured v _ | .mutator _ v => v.Hosts allowed
  | .literal _ | .depthText | .stateText | .capture _ _ | .raiser _ _ => True
termination_by structural e => e

def Value.DescriptionHosts (allowed : Extension Value → Prop) : Description Value → Prop
  | .repeated v _ | .derived _ v => v.Hosts allowed
  | .slot _ | .fresh _ => True
termination_by structural d => d

end

namespace Value

variable {allowed : Extension Value → Prop}

theorem allHost_iff {vs : List Value} : AllHost allowed vs ↔ ∀ v ∈ vs, v.Hosts allowed := by
  induction vs with
  | nil => simp [AllHost]
  | cons v rest ih => simp [AllHost, ih]

theorem entriesHost_iff {es : List (Value × Value)} :
    EntriesHost allowed es ↔ ∀ e ∈ es, e.1.Hosts allowed ∧ e.2.Hosts allowed := by
  induction es with
  | nil => simp [EntriesHost]
  | cons e rest ih => simp [EntriesHost, ih]

mutual

/-- If nothing is asked for, every value is as allowed. -/
theorem hosts_of_forall (h : ∀ e, allowed e) : (v : Value) → v.Hosts allowed
  | sequence _ items | selfList items => allHost_of_forall h items
  | mapping _ entries | selfDictionary entries => entriesHost_of_forall h entries
  | derived base => hosts_of_forall h base
  | own _ v => hosts_of_forall h v
  | extension e => ⟨h e, extensionHosts_of_forall h e⟩
  | described d => descriptionHosts_of_forall h d
  | null | bool _ | int _ | float _ | str _ | setting _ | binary _ _ | memory _ | outer _ | object _
  | type _ | generator _ => trivial
termination_by structural v => v

theorem allHost_of_forall (h : ∀ e, allowed e) : (vs : List Value) → AllHost allowed vs
  | [] => trivial
  | v :: rest => ⟨hosts_of_forall h v, allHost_of_forall h rest⟩
termination_by structural vs => vs

theorem entriesHost_of_forall (h : ∀ e, allowed e) :
    (es : List (Value × Value)) → EntriesHost allowed es
  | [] => trivial
  | (key, v) :: rest => ⟨⟨hosts_of_forall h key, hosts_of_forall h v⟩, entriesHost_of_forall h rest⟩
termination_by structural es => es

theorem extensionHosts_of_forall (h : ∀ e, allowed e) :
    (e : Extension Value) → ExtensionHosts allowed e
  | .point x y => ⟨hosts_of_forall h x, hosts_of_forall h y⟩
  | .delegate v _ | .reconfigured v _ | .mutator _ v => hosts_of_forall h v
  | .literal _ | .depthText | .stateText | .capture _ _ | .raiser _ _ => trivial
termination_by structural e => e

theorem descriptionHosts_of_forall (h : ∀ e, allowed e) :
    (d : Description Value) → DescriptionHosts allowed d
  | .repeated v _ | .derived _ v => hosts_of_forall h v
  | .slot _ | .fresh _ => trivial
termination_by structural d => d

end

theorem deep_hosts : Deep (Hosts allowed) where
  sequence := allHost_iff
  selfList := allHost_iff
  mapping := entriesHost_iff
  selfDictionary := entriesHost_iff
  derived := Iff.rfl
  own := id
  renew _ h := h
  str _ := trivial
  number x := by cases x <;> trivial
  binary _ _ := trivial

theorem entriesHost_dictionary? {es all : Entries} (hes : EntriesHost allowed es)
    (h : Keyed.dictionary? [] es = .ok all) : EntriesHost allowed all :=
  entriesHost_iff.mpr (Deep.dictionary? (List.forall_mem_nil _) (entriesHost_iff.mp hes) h)

end Value

end JsonWriter
