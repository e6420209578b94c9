import JsonWriter.Proofs.Configuration.Refusal
import JsonWriter.Proofs.Loop.Handed
import JsonWriter.Proofs.Session.Generating

/-!
# What is logged

A configuration that succeeds adds a generator and logs each key of no use once. Besides, only the faults
that leave the generating of a text are logged. Main statements: `configures_build`, `configures_hand` and
`generating_accounted`.
-/

namespace JsonWriter

/-! ## Keys of no use -/

namespace Value

/-- The keys with one more, unless it is among them. -/
def addKey (keys : List Value) (key : Value) : List Value :=
  if keys.any (·.sameKey key) then keys else keys ++ [key]

/-- The keys in the order in which each comes first. -/
def distinctKeys (keys : List Value) : List Value := keys.foldl addKey []

/-- The keys of a mapping that name no setting, in the order in which each comes first. -/
def unknownKeys (options : Value) : List Value := distinctKeys (options.items.unnamed.map (·.1))

end Value

namespace Keyed

variable {α : Type}

theorem keys_insert (es : Keyed α) (key : Value) (a : α) :
    (es.insert key a).map (·.1) = Value.addKey (es.map (·.1)) key := by
  induction es with
  | nil => rfl
  | cons e rest ih =>
    rw [insert]
    split
    · next h => simp [Value.addKey, h]
    · next h =>
      rw [List.map_cons, ih, List.map_cons, Value.addKey, Value.addKey, List.any_cons,
        Bool.eq_false_iff.mpr h, Bool.false_or]
      split
      · rfl
      · rfl

theorem keys_insertAll (es news : Keyed α) :
    (es.insertAll news).map (·.1) = (news.map (·.1)).foldl Value.addKey (es.map (·.1)) := by
  induction news generalizing es with
  | nil => rfl
  | cons e rest ih => rw [insertAll_cons, ih, keys_insert, List.map_cons, List.foldl_cons]

end Keyed

namespace Generator

/-- What a mapping makes of the initial generator has its unknown keys, and these are of no use. -/
theorem unknownKeys_of_configure {g : Generator} {options : Value} {ignored : List Value}
    (h : initial.configure options = .ok (g, ignored)) :
    ignored = options.unknownKeys ∧ g.unknown.map (·.1) = options.unknownKeys := by
  have hkeys : (Keyed.insertAll [] options.items.unnamed).map (·.1) = options.unknownKeys :=
    Keyed.keys_insertAll _ _
  refine ⟨(configure_ignored h).trans hkeys, ?_⟩
  obtain ⟨es, hes, -, -, -, hunknown⟩ := configure_eq_ok h
  have hitems : options.items = es := by rw [Value.items, hes, Option.getD_some]
  have honce : g.unknown = Keyed.insertAll [] options.items.unnamed := by
    rw [hunknown, hitems]
    exact Keyed.insertAll_of_keysDiffer (Keyed.keysDiffer_insertAll List.Pairwise.nil _)
  rw [honce, hkeys]

end Generator

/-! ## Accounts -/

namespace Session

/-- The unknown keys of each generator. -/
def unknowns (s : Session) : List (List Value) := s.generators.toList.map fun g => g.unknown.map (·.1)

/-- From one session to another, generators were made of some mappings, one record was logged for each
unknown key of each of these, in order, and then the rest. -/
def Accounts (s t : Session) (rest : List Record) : Prop :=
  ∃ made : List Value, t.unknowns = s.unknowns ++ made.map Value.unknownKeys ∧
    t.log.toList = s.log.toList ++ ((made.map Value.unknownKeys).flatten.map .ignored ++ rest)

variable {s t u : Session} {rest rest' : List Record}

theorem Accounts.refl (s : Session) : s.Accounts s [] :=
  ⟨[], (List.append_nil _).symm, (List.append_nil _).symm⟩

theorem Accounts.trans (h : s.Accounts t []) (h' : t.Accounts u rest) : s.Accounts u rest := by
  obtain ⟨made, hmade, hlog⟩ := h
  obtain ⟨made', hmade', hlog'⟩ := h'
  refine ⟨made ++ made', ?_, ?_⟩
  · rw [hmade', hmade, List.map_append, List.append_assoc]
  · simp only [hlog', hlog, List.append_nil, List.flatten_append, List.map_append, List.append_assoc]

theorem Accounts.congr (h : s.Accounts t rest) (hunknowns : u.unknowns = t.unknowns)
    (hlog : u.log = t.log) : s.Accounts u rest := by
  obtain ⟨made, hmade, hrecords⟩ := h
  exact ⟨made, hunknowns.trans hmade, hlog ▸ hrecords⟩

theorem Accounts.record (h : s.Accounts t rest) (name : Text) (size : Value) :
    s.Accounts (t.record name size).2 rest := by
  unfold Session.record
  split
  · exact h.congr rfl rfl
  · exact h

theorem Accounts.failed (h : s.Accounts t rest) (f : Fault) :
    s.Accounts { t with log := t.log.push (.failed f) } (rest ++ [.failed f]) := by
  obtain ⟨made, hmade, hlog⟩ := h
  exact ⟨made, hmade, by simp [hlog]⟩

/-- The records beside those of unknown keys are determined. -/
theorem Accounts.unique (h : s.Accounts t rest) (h' : s.Accounts t rest') : rest = rest' := by
  obtain ⟨made, hmade, hlog⟩ := h
  obtain ⟨made', hmade', hlog'⟩ := h'
  have hkeys := List.append_cancel_left (hmade.symm.trans hmade')
  rw [← hkeys] at hlog'
  exact List.append_cancel_left (List.append_cancel_left (hlog.symm.trans hlog'))

/-- Generators may be replaced by others with the same unknown keys. -/
theorem unknowns_set {id : Nat} {g' : Generator}
    (h : ∀ g, s.generator? id = some g → g'.unknown = g.unknown) :
    { s with generators := s.generators.setIfInBounds id g' }.unknowns = s.unknowns := by
  rw [unknowns, Array.toList_setIfInBounds, List.map_set]
  by_cases hid : id < s.generators.size
  · have hsame : g'.unknown = s.generators[id].unknown := h _ (Array.getElem?_eq_getElem hid)
    have hid' : id < s.unknowns.length := by simpa [unknowns] using hid
    have hat : g'.unknown.map (·.1) = s.unknowns[id] := by simp [unknowns, hsame]
    rw [hat]
    exact List.set_getElem_self _
  · exact List.set_eq_of_length_le (by simpa using hid)

theorem log_ignoring (s : Session) (keys : List Value) :
    (s.ignoring keys).log.toList = s.log.toList ++ keys.map .ignored := by
  have hlog (log : Array Record) :
      (keys.foldl (fun log key => log.push (.ignored key)) log).toList =
        log.toList ++ keys.map .ignored := by
    induction keys generalizing log with
    | nil => simp
    | cons key rest ih => rw [List.foldl_cons, ih]; simp
  exact hlog s.log

/-- A configuration with a mapping either succeeds, makes one generator and logs each unknown key of the
mapping once, or is refused and changes nothing. -/
inductive Configures (s : Session) (options : Value) : Except Fault Nat × Session → Prop
  | made {g : Generator} (h : g.unknown.map (·.1) = options.unknownKeys) :
    Configures s options (.ok s.generators.size, s.adding g options.unknownKeys)
  | refused {f : Fault} (h : Generator.Refuses options f) : Configures s options (.error f, s)

theorem Configures.accounts {options : Value} {r : Except Fault Nat}
    (h : s.Configures options (r, t)) : s.Accounts t [] := by
  cases h with
  | made hg =>
    refine ⟨[options], ?_, ?_⟩
    · simp [unknowns, adding, hg]
    · have hlog := s.log_ignoring options.unknownKeys
      simpa [adding] using hlog
  | refused hf => exact .refl s

end Session

open Session (Configures Accounts)

theorem configures_build (options : Value) (s : Session) :
    s.Configures options (Action.build options s) := by
  cases h : Generator.initial.configure options with
  | error f =>
    rw [Action.build_refused s h]
    exact .refused (Generator.configure_eq_error_iff.mp h)
  | ok made =>
    obtain ⟨g, ignored⟩ := made
    obtain ⟨hignored, hunknown⟩ := Generator.unknownKeys_of_configure h
    rw [Action.build_apply s h, hignored]
    exact .made hunknown

/-- An object is handed what the entries of the generator make, at its depth. -/
theorem configures_hand (g : Generator) (depth : Value) (s : Session) :
    s.Configures (.dictionary g.entries) (Extension.hand g depth s) := by
  cases h : g.copy with
  | error f =>
    rw [Extension.hand_refused h]
    exact .refused (Generator.configure_eq_error_iff.mp h)
  | ok made =>
    obtain ⟨g', ignored⟩ := made
    obtain ⟨hignored, hunknown⟩ := Generator.unknownKeys_of_configure h
    rw [Extension.hand_apply h, hignored]
    exact .made (by rw [Generator.unknown_put, hunknown])

/-! ## Actions -/

namespace Action

/-- The action logs nothing but the unknown keys of the generators that it makes, unless it fails with a
fault that is not of the kind. -/
def IsAccounted (kind : Fault → Prop) {α : Type} (x : Action α) : Prop :=
  ∀ s, (∀ f, (x s).1 = .error f → kind f) → s.Accounts (x s).2 []

variable {kind : Fault → Prop} {α β : Type}

theorem isAccounted_of_accounts {x : Action α} (h : ∀ s : Session, s.Accounts (x s).2 []) :
    IsAccounted kind x :=
  fun s _ => h s

theorem isAccounted_ofExcept (r : Except Fault α) : IsAccounted kind (ofExcept r) := fun s _ => .refl s

theorem IsAccounted.bind {x : Action α} {k : α → Action β} (hx : IsAccounted kind x)
    (hk : ∀ a, IsAccounted kind (k a)) : IsAccounted kind (x >>= k) := by
  intro s h
  have hfirst := hx s
  rw [bind_apply] at h ⊢
  generalize x s = run at h hfirst
  obtain ⟨e | a, t⟩ := run
  · exact hfirst fun f hf => h f (congrArg Except.error (Except.error.inj hf))
  · exact (hfirst nofun).trans (hk a t h)

/-- Assignment by name leaves the unknown keys alone. -/
theorem isAccounted_set (id : Nat) (name value : Value) : IsAccounted kind (set id name value) := by
  have hsetting : IsAccounted kind (setting name) := by
    unfold setting
    split
    · exact isAccounted_ofExcept (.ok _)
    · exact IsAccounted.bind (isAccounted_of_accounts .refl) fun t => isAccounted_ofExcept (.error _)
  refine hsetting.bind fun o => isAccounted_of_accounts fun s => ?_
  rw [bind_apply, generator, resume_ok, bind_apply, ofExcept]
  cases h : ((s.generator? id).getD .initial).set o value with
  | error f => exact .refl s
  | ok g' =>
    refine (Accounts.refl s).congr (Session.unknowns_set fun g hg => ?_) rfl
    obtain ⟨w, -, rfl⟩ := map_eq_ok.mp h
    rw [hg, Option.getD_some, Generator.unknown_putChecked]

/-- What comes before objects render or generate logs nothing else, whatever it fails with. -/
theorem preparing_accounted (kind : Fault → Prop) : Preparing fun _ x => IsAccounted kind x where
  ofExcept := isAccounted_ofExcept
  bind hx hk := hx.bind hk
  counted name size hx s h := (hx s h).record name (.int size)
  literal? v := isAccounted_of_accounts .refl
  shown v := isAccounted_of_accounts fun s => by
    unfold shown
    split
    · exact .refl s
    · exact .refl s
    · exact .refl s
  identity := isAccounted_of_accounts fun s => (Accounts.refl s).congr rfl rfl
  generator id := isAccounted_of_accounts .refl
  slot name := isAccounted_of_accounts fun s => by
    unfold slot
    split
    · exact .refl s
    · exact .refl s
  setSlot name id := isAccounted_of_accounts fun s => (Accounts.refl s).congr rfl rfl
  build options := isAccounted_of_accounts fun s => (configures_build options s).accounts
  hand g depth := isAccounted_of_accounts fun s => (configures_hand g depth s).accounts
  set := isAccounted_set

/-- Without a fault of generation nothing else is logged in generating. -/
theorem generating_accounted : Generating fun _ x => IsAccounted (¬ ·.IsGeneration) x where
  toPreparing := preparing_accounted _
  logged {α x} hx s h := by
    have hx := hx s
    rw [logged] at h ⊢
    generalize x s = run at h hx
    obtain ⟨f | a, t⟩ := run
    · have hf : ¬ f.IsGeneration := h f rfl
      simp only [if_neg hf]
      exact hx h
    · exact hx h

end Action

end JsonWriter
