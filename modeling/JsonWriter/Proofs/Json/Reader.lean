import JsonWriter.Proofs.Json.Grammar

/-!
# Reading JSON

A reader by recursive descent, which needs no more than two steps for each character. Main
statement: `read?_of_spells`, it reads every JSON text as what the text stands for. So a text stands
for one thing only.
-/

namespace JsonWriter.Json

/-! ## The reader -/

def dropBlanks (t : Text) : Text := t.dropWhile fun c => IsBlank c

/-- The text after a character that it starts with. -/
def after? (c : CodePoint) : Text → Option Text
  | [] => none
  | d :: rest => if d = c then some rest else none

/-- Reads with blanks on either side. -/
def readAround {α : Type} (read : Text → Option (α × Text)) (t : Text) : Option (α × Text) :=
  (read (dropBlanks t)).map fun r => (r.1, dropBlanks r.2)

/-- The exponent that the end of a number is. -/
def exponent? : Text → Option Exponent
  | [] => none
  | mark :: rest =>
    let capital := decide (mark = .ofChar 'E')
    match rest with
    | [] => some ⟨capital, none, []⟩
    | c :: digits =>
      if c = .ofChar '-' then some ⟨capital, some true, digits⟩
      else if c = .ofChar '+' then some ⟨capital, some false, digits⟩
      else some ⟨capital, none, c :: digits⟩

/-- The fraction and the exponent that come after the whole part of a number. -/
def splitEnd (t : Text) : Text × Option Exponent :=
  match after? (.ofChar '.') t with
  | none => ([], exponent? t)
  | some rest =>
    (rest.takeWhile fun c => IsDigit c, exponent? (rest.dropWhile fun c => IsDigit c))

def splitUnsigned (negative : Bool) (t : Text) : Parts :=
  let (fraction, exponent?) := splitEnd (t.dropWhile fun c => IsDigit c)
  ⟨negative, t.takeWhile fun c => IsDigit c, fraction, exponent?⟩

/-- The parts that a text has if it is a number. -/
def split (t : Text) : Parts :=
  match after? (.ofChar '-') t with
  | some rest => splitUnsigned true rest
  | none => splitUnsigned false t

/-- The parts of a number. -/
def parts? (t : Text) : Option Parts :=
  let p := split t
  if p.WellFormed ∧ p.text = t then some p else none

/-- The characters of names and numbers. -/
def IsWord (c : CodePoint) : Prop :=
  IsDigit c ∨ (0x41 ≤ c.val ∧ c.val ≤ 0x5A) ∨ (0x61 ≤ c.val ∧ c.val ≤ 0x7A) ∨ c = .ofChar '+' ∨
    c = .ofChar '-' ∨ c = .ofChar '.'

instance (c : CodePoint) : Decidable (IsWord c) := inferInstanceAs (Decidable (_ ∨ _))

/-- A number or a name. -/
def word? (nan : Bool) (t : Text) : Option Json :=
  match parts? t with
  | some p => some p.value
  | none =>
    if t = text "null" then some .null
    else if t = text "true" then some (.bool true)
    else if t = text "false" then some (.bool false)
    else if nan ∧ t = text "NaN" then some (.float .nan)
    else if nan ∧ t = text "Infinity" then some (.float (.infinity false))
    else if nan ∧ t = text "-Infinity" then some (.float (.infinity true))
    else none

/-- The code points of a string after its first quote, and what comes after its last one. -/
def readBody : Text → Option (Text × Text)
  | [] => none
  | c :: rest =>
    if c = quote then some ([], rest)
    else if c = backslash then
      match rest with
      | [] => none
      | letter :: rest =>
        if letter = .ofChar 'u' then
          match rest with
          | w :: x :: y :: z :: rest => do
            let point ← unit? w x y z
            (readBody rest).map fun r => (point :: r.1, r.2)
          | _ => none
        else do
          let point ← unescape? letter
          (readBody rest).map fun r => (point :: r.1, r.2)
    else if IsPlain c then (readBody rest).map fun r => (c :: r.1, r.2)
    else none

def readString (t : Text) : Option (Text × Text) := do
  let t ← after? quote t
  (readBody t).map fun r => (joinPairs r.1, r.2)

mutual

/-- The value in front of a text, and the rest of the text. -/
def readValue (nan : Bool) : Nat → Text → Option (Json × Text)
  | 0, _ => none
  | _ + 1, [] => none
  | n + 1, c :: rest =>
    if c = quote then (readString (c :: rest)).map fun r => (.string r.1, r.2)
    else if c = .ofChar '[' then
      match after? (.ofChar ']') (dropBlanks rest) with
      | some rest => some (.array [], rest)
      | none => (readItems nan n rest).map fun r => (.array r.1, r.2)
    else if c = .ofChar '\x7b' then
      match after? (.ofChar '\x7d') (dropBlanks rest) with
      | some rest => some (.object [], rest)
      | none => (readMembers nan n rest).map fun r => (.object r.1, r.2)
    else
      (word? nan ((c :: rest).takeWhile fun c => IsWord c)).map
        (·, (c :: rest).dropWhile fun c => IsWord c)

/-- The items of an array that is not empty, and the text after it. -/
def readItems (nan : Bool) : Nat → Text → Option (List Json × Text)
  | 0, _ => none
  | n + 1, t => do
    let (j, rest) ← readAround (readValue nan n) t
    match after? (.ofChar ',') rest with
    | some rest => (readItems nan n rest).map fun r => (j :: r.1, r.2)
    | none => (after? (.ofChar ']') rest).map ([j], ·)

/-- The members of an object that is not empty, and the text after it. -/
def readMembers (nan : Bool) : Nat → Text → Option (List (Text × Json) × Text)
  | 0, _ => none
  | n + 1, t => do
    let (key, rest) ← readAround readString t
    let rest ← after? (.ofChar ':') rest
    let (j, rest) ← readAround (readValue nan n) rest
    match after? (.ofChar ',') rest with
    | some rest => (readMembers nan n rest).map fun r => ((key, j) :: r.1, r.2)
    | none => (after? (.ofChar '\x7d') rest).map ([(key, j)], ·)

end

/-- What a JSON text stands for. -/
def read? (nan : Bool) (t : Text) : Option Json :=
  match readAround (readValue nan (2 * t.length)) t with
  | some (j, []) => some j
  | _ => none

/-! ## Blanks and words -/

section

variable {p : CodePoint → Prop} [DecidablePred p] {t rest : Text}

theorem takeWhile_append_of_head (ht : ∀ c ∈ t, p c) (hrest : ∀ c ∈ rest.head?, ¬ p c) :
    (t ++ rest).takeWhile (fun c => p c) = t := by
  rw [List.takeWhile_append_of_pos fun c hc => decide_eq_true (ht c hc)]
  cases rest with
  | nil => simp
  | cons c rest => simp [hrest c rfl]

theorem dropWhile_append_of_head (ht : ∀ c ∈ t, p c) (hrest : ∀ c ∈ rest.head?, ¬ p c) :
    (t ++ rest).dropWhile (fun c => p c) = rest := by
  rw [List.dropWhile_append_of_pos fun c hc => decide_eq_true (ht c hc)]
  cases rest with
  | nil => rfl
  | cons c rest => simp [hrest c rfl]

end

theorem dropBlanks_append {before t : Text} (hb : AllBlank before)
    (ht : ∀ c ∈ t.head?, ¬ IsBlank c) : dropBlanks (before ++ t) = t :=
  dropWhile_append_of_head hb ht

theorem not_isBlank_of_isWord {c : CodePoint} (h : IsWord c) : ¬ IsBlank c := by
  intro hb
  obtain h | h | h | rfl | rfl | rfl := h
  · simp only [IsDigit, IsBlank] at h hb
    omega
  · simp only [IsBlank] at hb
    omega
  · simp only [IsBlank] at hb
    omega
  all_goals revert hb; decide

theorem isWord_of_isDigit {c : CodePoint} (h : IsDigit c) : IsWord c := .inl h

theorem readAround_eq {α : Type} {read : Text → Option (α × Text)} {before t after rest : Text}
    {a : α} (hread : read (t ++ (after ++ rest)) = some (a, after ++ rest)) (hb : AllBlank before)
    (ht : ∀ c ∈ (t ++ (after ++ rest)).head?, ¬ IsBlank c) (ha : AllBlank after)
    (hrest : ∀ c ∈ rest.head?, ¬ IsBlank c) :
    readAround read (before ++ t ++ after ++ rest) = some (a, rest) := by
  have hdrop := dropBlanks_append hb ht
  simp only [List.append_assoc] at hdrop ⊢
  simp [readAround, hdrop, hread, dropBlanks_append ha hrest]

/-! ## Numbers -/

theorem isDigit_ne {c d : CodePoint} (h : IsDigit c) (hd : ¬ IsDigit d) : c ≠ d := by
  rintro rfl
  exact hd h

theorem exponent?_text {e : Exponent} (h : e.WellFormed) : exponent? e.text = some e := by
  obtain ⟨capital, minus?, digits⟩ := e
  obtain ⟨hne, hdigits⟩ := h
  have hmark : decide (CodePoint.ofChar (if capital then 'E' else 'e') = .ofChar 'E') = capital := by
    cases capital <;> rfl
  cases digits with
  | nil => exact absurd rfl hne
  | cons d ds =>
    cases minus? with
    | none =>
      have hd := hdigits d List.mem_cons_self
      have hminus : d ≠ .ofChar '-' := isDigit_ne hd (by decide)
      have hplus : d ≠ .ofChar '+' := isDigit_ne hd (by decide)
      simp [exponent?, Exponent.text, hmark, hminus, hplus]
    | some minus =>
      have hplus : CodePoint.ofChar '+' ≠ .ofChar '-' := by decide
      cases minus <;> simp [exponent?, Exponent.text, Exponent.sign, hmark, hplus]

/-- The text of an exponent, if there is one, is read again and starts with its mark. -/
theorem exponent?_getD {e? : Option Exponent} (h : ∀ e ∈ e?, e.WellFormed) :
    exponent? ((e?.map Exponent.text).getD []) = e? ∧
      ∀ c ∈ ((e?.map Exponent.text).getD []).head?, c = .ofChar 'e' ∨ c = .ofChar 'E' := by
  cases e? with
  | none => exact ⟨rfl, by simp⟩
  | some e =>
    refine ⟨exponent?_text (h e rfl), fun c hc => ?_⟩
    obtain rfl : CodePoint.ofChar (if e.capital then 'E' else 'e') = c := Option.some.inj hc
    cases e.capital
    · exact .inl rfl
    · exact .inr rfl

theorem after?_of_ne {c d : CodePoint} {t : Text} (h : c ≠ d) : after? d (c :: t) = none := by
  simp [after?, h]

theorem after?_self (c : CodePoint) (t : Text) : after? c (c :: t) = some t := by simp [after?]

theorem splitEnd_text {fraction : Text} (hfraction : AllDigits fraction) {e? : Option Exponent}
    (he : ∀ e ∈ e?, e.WellFormed) :
    splitEnd ((if fraction = [] then [] else .ofChar '.' :: fraction) ++
      (e?.map Exponent.text).getD []) = (fraction, e?) := by
  obtain ⟨hread, hmark⟩ := exponent?_getD he
  generalize (e?.map Exponent.text).getD [] = e at hread hmark ⊢
  cases fraction with
  | nil =>
    have hpoint : after? (.ofChar '.') e = none := by
      cases e with
      | nil => rfl
      | cons c rest =>
        apply after?_of_ne
        obtain rfl | rfl := hmark c rfl <;> decide
    simp [splitEnd, hpoint, hread]
  | cons d ds =>
    have hdigit : ∀ c ∈ e.head?, ¬ IsDigit c := by
      intro c hc
      obtain rfl | rfl := hmark c hc <;> decide
    simp only [List.cons_ne_nil, ↓reduceIte, List.cons_append, splitEnd, after?_self]
    rw [← List.cons_append, takeWhile_append_of_head hfraction hdigit,
      dropWhile_append_of_head hfraction hdigit, hread]

theorem splitUnsigned_text {negative : Bool} {whole : Text} (hwhole : AllDigits whole)
    {fraction : Text} (hfraction : AllDigits fraction) {e? : Option Exponent}
    (he : ∀ e ∈ e?, e.WellFormed) :
    splitUnsigned negative (whole ++ ((if fraction = [] then [] else .ofChar '.' :: fraction) ++
      (e?.map Exponent.text).getD [])) = ⟨negative, whole, fraction, e?⟩ := by
  have hend := splitEnd_text hfraction he
  have hdigit : ∀ c ∈ ((if fraction = [] then [] else CodePoint.ofChar '.' :: fraction) ++
      (e?.map Exponent.text).getD []).head?, ¬ IsDigit c := by
    cases fraction with
    | nil =>
      intro c hc
      obtain rfl | rfl := (exponent?_getD he).2 c hc <;> decide
    | cons d ds =>
      intro c hc
      obtain rfl := Option.some.inj hc
      decide
  rw [splitUnsigned, takeWhile_append_of_head hwhole hdigit, dropWhile_append_of_head hwhole hdigit,
    hend]

theorem split_text {p : Parts} (h : p.WellFormed) : split p.text = p := by
  obtain ⟨negative, whole, fraction, e?⟩ := p
  obtain ⟨hne, hwhole, -, hfraction, he⟩ := h
  simp only [Parts.text, Parts.unsigned, List.append_assoc, split]
  cases negative with
  | true => simp [after?_self, splitUnsigned_text hwhole hfraction he]
  | false =>
    have hminus (t : Text) : after? (.ofChar '-') (whole ++ t) = none := by
      cases whole with
      | nil => exact absurd rfl hne
      | cons d ds => exact after?_of_ne (isDigit_ne (hwhole d List.mem_cons_self) (by decide))
    simp [hminus, splitUnsigned_text hwhole hfraction he]

theorem parts?_text {p : Parts} (h : p.WellFormed) : parts? p.text = some p := by
  simp [parts?, split_text h, h]

theorem isWord_of_mem_text {p : Parts} (h : p.WellFormed) : ∀ c ∈ p.text, IsWord c := by
  obtain ⟨negative, whole, fraction, e?⟩ := p
  obtain ⟨-, hwhole, -, hfraction, he⟩ := h
  intro c hc
  simp only [Parts.text, Parts.unsigned, List.mem_append] at hc
  obtain hc | (hc | hc) | hc := hc
  · cases negative with
    | false => simp at hc
    | true =>
      obtain rfl := List.mem_singleton.mp hc
      decide
  · exact isWord_of_isDigit (hwhole c hc)
  · cases fraction with
    | nil => simp at hc
    | cons d ds =>
      obtain rfl | hc := List.mem_cons.mp hc
      · decide
      · exact isWord_of_isDigit (hfraction c hc)
  · cases e? with
    | none => simp at hc
    | some e =>
      obtain ⟨capital, minus?, digits⟩ := e
      have hdigits := (he _ rfl).2
      simp only [Option.map_some, Option.getD_some, Exponent.text, List.mem_cons, List.mem_append,
        List.cons_append] at hc
      obtain rfl | hc | hc := hc
      · have hmark (b : Bool) : IsWord (.ofChar (if b then 'E' else 'e')) := by cases b <;> decide
        exact hmark capital
      · cases minus? with
        | none => cases hc
        | some minus =>
          obtain rfl := List.mem_singleton.mp hc
          have hsign (b : Bool) : IsWord (Exponent.sign b) := by cases b <;> decide
          exact hsign minus
      · exact isWord_of_isDigit (hdigits c hc)

/-! ## Strings -/

theorem readBody_of_spells {body points : Text} (h : SpellsBody body points) (rest : Text) :
    readBody (body ++ quote :: rest) = some (points, rest) := by
  have hquote : backslash ≠ quote := by decide
  induction h with
  | nil =>
    rw [List.nil_append, readBody.eq_def]
    simp
  | plain hc _ ih =>
    rw [List.cons_append, readBody.eq_def]
    simp [hc, hc.2.1, hc.2.2, ih]
  | @short letter c body points hc _ ih =>
    have hu : letter ≠ .ofChar 'u' := by
      rintro rfl
      cases hc
    rw [List.cons_append, List.cons_append, readBody.eq_def]
    simp [hquote, hu, hc, ih]
  | unit hc _ ih =>
    simp only [List.cons_append]
    rw [readBody.eq_def]
    simp [hquote, hc, ih]

theorem readString_of_spells {t content : Text} (h : SpellsString t content) (rest : Text) :
    readString (t ++ rest) = some (content, rest) := by
  obtain ⟨h⟩ := h
  simp [readString, after?_self, readBody_of_spells h]

/-! ## Values -/

/-- The characters that values start with. -/
def IsOpening (c : CodePoint) : Prop :=
  c = quote ∨ c = .ofChar '[' ∨ c = .ofChar '\x7b' ∨ IsWord c

instance (c : CodePoint) : Decidable (IsOpening c) := inferInstanceAs (Decidable (_ ∨ _))

theorem not_isBlank_of_isOpening {c : CodePoint} (h : IsOpening c) : ¬ IsBlank c := by
  obtain rfl | rfl | rfl | h := h
  · decide
  · decide
  · decide
  · exact not_isBlank_of_isWord h

theorem Parts.text_ne_nil {p : Parts} (h : p.WellFormed) : p.text ≠ [] := by
  intro ht
  simp only [Parts.text, Parts.unsigned, List.append_eq_nil_iff] at ht
  exact h.1 ht.2.1.1

theorem isOpening_of_spells {nan : Bool} {t : Text} {j : Json} (h : Spells nan t j) :
    ∃ c rest, t = c :: rest ∧ IsOpening c := by
  cases h with
  | null => exact ⟨_, _, rfl, by decide⟩
  | bool b => cases b <;> exact ⟨_, _, rfl, by decide⟩
  | @number p hp =>
    have hword := isWord_of_mem_text hp
    cases ht : p.text with
    | nil => exact absurd ht (Parts.text_ne_nil hp)
    | cons c rest => exact ⟨c, rest, rfl, .inr (.inr (.inr (hword c (ht ▸ List.mem_cons_self))))⟩
  | nan => exact ⟨_, _, rfl, by decide⟩
  | infinity negative => cases negative <;> exact ⟨_, _, rfl, by decide⟩
  | string h =>
    obtain ⟨h⟩ := h
    exact ⟨_, _, rfl, by decide⟩
  | emptyArray | array => exact ⟨_, _, rfl, by decide⟩
  | emptyObject | object => exact ⟨_, _, rfl, by decide⟩

theorem dropBlanks_of_spellsText {nan : Bool} {t : Text} {j : Json} (h : SpellsText nan t j)
    (rest : Text) : ∃ c more, dropBlanks (t ++ rest) = c :: more ∧ IsOpening c := by
  obtain @⟨before, t, after, _, hb, h, ha⟩ := h
  obtain ⟨c, more, rfl, hc⟩ := isOpening_of_spells h
  refine ⟨c, more ++ after ++ rest, ?_, hc⟩
  have hdrop := dropBlanks_append (t := c :: more ++ after ++ rest) hb fun d hd => by
    obtain rfl := Option.some.inj hd
    exact not_isBlank_of_isOpening hc
  simpa using hdrop

theorem dropBlanks_of_spellsName {t key : Text} (h : SpellsName t key) (rest : Text) :
    ∃ more, dropBlanks (t ++ rest) = quote :: more := by
  obtain @⟨before, t, after, _, hb, h, ha⟩ := h
  obtain @⟨body, points, h⟩ := h
  refine ⟨body ++ [quote] ++ after ++ rest, ?_⟩
  have hdrop := dropBlanks_append (t := quote :: body ++ [quote] ++ after ++ rest) hb fun d hd => by
    obtain rfl := Option.some.inj hd
    decide
  simpa using hdrop

/-- An array that is not empty does not look as if it were. -/
theorem not_closed_of_spellsItems {nan : Bool} {t : Text} {items : List Json}
    (h : SpellsItems nan t items) (rest : Text) :
    after? (.ofChar ']') (dropBlanks (t ++ rest)) = none := by
  have hopening : ¬ IsOpening (.ofChar ']') := by decide
  have hhead : ∃ c more, dropBlanks (t ++ rest) = c :: more ∧ IsOpening c := by
    cases h with
    | last h => exact dropBlanks_of_spellsText h rest
    | more h _ =>
      rw [List.append_assoc]
      exact dropBlanks_of_spellsText h _
  obtain ⟨c, more, hdrop, hc⟩ := hhead
  rw [hdrop]
  exact after?_of_ne fun h => hopening (h ▸ hc)

theorem not_closed_of_spellsMembers {nan : Bool} {t : Text} {members : List (Text × Json)}
    (h : SpellsMembers nan t members) (rest : Text) :
    after? (.ofChar '\x7d') (dropBlanks (t ++ rest)) = none := by
  have hhead : ∃ more, dropBlanks (t ++ rest) = quote :: more := by
    cases h with
    | last hkey _ =>
      rw [List.append_assoc]
      exact dropBlanks_of_spellsName hkey _
    | more hkey _ _ =>
      rw [List.append_assoc, List.append_assoc]
      exact dropBlanks_of_spellsName hkey _
  obtain ⟨more, hdrop⟩ := hhead
  rw [hdrop]
  exact after?_of_ne (by decide)

theorem readName_of_spells {t key : Text} (h : SpellsName t key) (rest : Text)
    (hrest : ∀ c ∈ rest.head?, ¬ IsBlank c) : readAround readString (t ++ rest) = some (key, rest) := by
  obtain ⟨hb, h, ha⟩ := h
  refine readAround_eq (readString_of_spells h _) hb (fun c hc => ?_) ha hrest
  obtain ⟨h⟩ := h
  obtain rfl := Option.some.inj hc
  decide

/-- A name or a number is read as a whole, up to a character that could not be part of it. -/
theorem readValue_of_word {nan : Bool} {n : Nat} {t rest : Text} {j : Json}
    (ht : ∀ c ∈ t, IsWord c) (hne : t ≠ []) (hj : word? nan t = some j) (hn : 2 * t.length ≤ n)
    (hrest : ∀ c ∈ rest.head?, ¬ IsWord c) : readValue nan n (t ++ rest) = some (j, rest) := by
  have htake := takeWhile_append_of_head ht hrest
  have hdrop := dropWhile_append_of_head ht hrest
  cases t with
  | nil => exact absurd rfl hne
  | cons c t =>
    cases n with
    | zero => simp at hn
    | succ n =>
      have hc := ht c List.mem_cons_self
      have hquote : c ≠ quote := by rintro rfl; revert hc; decide
      have hbracket : c ≠ .ofChar '[' := by rintro rfl; revert hc; decide
      have hbrace : c ≠ .ofChar '\x7b' := by rintro rfl; revert hc; decide
      rw [List.cons_append] at htake hdrop ⊢
      simp [readValue, hquote, hbracket, hbrace, htake, hdrop, hj]

mutual

theorem readValue_of_spells {nan : Bool} : {t : Text} → {j : Json} → Spells nan t j →
    ∀ (n : Nat) (rest : Text), 2 * t.length ≤ n → (∀ c ∈ rest.head?, ¬ IsWord c) →
    readValue nan n (t ++ rest) = some (j, rest)
  | _, _, .null, _, _, hn, hrest =>
    readValue_of_word (by decide) (by decide) (by cases nan <;> rfl) hn hrest
  | _, _, .bool b, _, _, hn, hrest =>
    readValue_of_word (by cases b <;> decide) (by cases b <;> decide)
      (by cases nan <;> cases b <;> rfl) hn hrest
  | _, _, .number h, _, _, hn, hrest =>
    readValue_of_word (isWord_of_mem_text h) (Parts.text_ne_nil h) (by rw [word?, parts?_text h]) hn
      hrest
  | _, _, .nan h, _, _, hn, hrest =>
    readValue_of_word (by decide) (by decide) (by rw [h]; rfl) hn hrest
  | _, _, .infinity negative h, _, _, hn, hrest =>
    readValue_of_word (by cases negative <;> decide) (by cases negative <;> decide)
      (by rw [h]; cases negative <;> rfl) hn hrest
  | _, _, .string h, n, rest, hn, _ => by
    have hread := readString_of_spells h rest
    obtain ⟨h⟩ := h
    cases n with
    | zero => simp at hn
    | succ n =>
      simp only [List.cons_append, List.append_assoc, List.nil_append] at hread ⊢
      simp [readValue, hread]
  | _, _, .emptyArray hb, n + 1, rest, _, _ => by
    have hquote : CodePoint.ofChar '[' ≠ quote := by decide
    have hdrop : dropBlanks (_ ++ .ofChar ']' :: rest) = _ :=
      dropBlanks_append hb (by simp; decide)
    simp [readValue, hquote, hdrop, after?_self]
  | _, _, .array h, n + 1, rest, hn, _ => by
    have hquote : CodePoint.ofChar '[' ≠ quote := by decide
    have hread := readItems_of_spells h n rest (by simp at hn; omega)
    have hopen := not_closed_of_spellsItems h (.ofChar ']' :: rest)
    simp [readValue, hquote, hopen, hread]
  | _, _, .emptyObject hb, n + 1, rest, _, _ => by
    have hquote : CodePoint.ofChar '\x7b' ≠ quote := by decide
    have hbracket : CodePoint.ofChar '\x7b' ≠ .ofChar '[' := by decide
    have hdrop : dropBlanks (_ ++ .ofChar '\x7d' :: rest) = _ :=
      dropBlanks_append hb (by simp; decide)
    simp [readValue, hquote, hbracket, hdrop, after?_self]
  | _, _, .object h, n + 1, rest, hn, _ => by
    have hquote : CodePoint.ofChar '\x7b' ≠ quote := by decide
    have hbracket : CodePoint.ofChar '\x7b' ≠ .ofChar '[' := by decide
    have hread := readMembers_of_spells h n rest (by simp at hn; omega)
    have hopen := not_closed_of_spellsMembers h (.ofChar '\x7d' :: rest)
    simp [readValue, hquote, hbracket, hopen, hread]

theorem readText_of_spells {nan : Bool} : {t : Text} → {j : Json} → SpellsText nan t j →
    ∀ (n : Nat) (rest : Text), 2 * t.length ≤ n → (∀ c ∈ rest.head?, ¬ IsWord c ∧ ¬ IsBlank c) →
    readAround (readValue nan n) (t ++ rest) = some (j, rest)
  | _, _, @SpellsText.intro _ _ _ after _ hb h ha, n, rest, hn, hrest => by
    refine readAround_eq (readValue_of_spells h n _ (by simp at hn; omega) fun c hc => ?_) hb
      (fun c hc => ?_) ha fun c hc => (hrest c hc).2
    · cases after with
      | nil => exact (hrest c hc).1
      | cons d more =>
        obtain rfl := Option.some.inj hc
        exact fun hword => not_isBlank_of_isWord hword (ha d List.mem_cons_self)
    · obtain ⟨d, more, rfl, hd⟩ := isOpening_of_spells h
      obtain rfl := Option.some.inj hc
      exact not_isBlank_of_isOpening hd

theorem readItems_of_spells {nan : Bool} : {t : Text} → {items : List Json} →
    SpellsItems nan t items → ∀ (n : Nat) (rest : Text), 2 * t.length + 1 ≤ n →
    readItems nan n (t ++ .ofChar ']' :: rest) = some (items, rest)
  | _, _, .last h, n + 1, rest, hn => by
    have hread := readText_of_spells h n (.ofChar ']' :: rest) (by omega) (by simp; decide)
    have hcomma : CodePoint.ofChar ']' ≠ .ofChar ',' := by decide
    simp [readItems, hread, after?_of_ne hcomma, after?_self]
  | _, _, .more (u := u) h hrest, n + 1, rest, hn => by
    simp only [List.length_append, List.length_cons] at hn
    have hread := readText_of_spells h n (.ofChar ',' :: (u ++ .ofChar ']' :: rest)) (by omega)
      (by simp; decide)
    have hmore := readItems_of_spells hrest n rest (by omega)
    simp [readItems, hread, after?_self, hmore]

theorem readMembers_of_spells {nan : Bool} : {t : Text} → {members : List (Text × Json)} →
    SpellsMembers nan t members → ∀ (n : Nat) (rest : Text), 2 * t.length + 1 ≤ n →
    readMembers nan n (t ++ .ofChar '\x7d' :: rest) = some (members, rest)
  | _, _, .last (t := t) hkey h, n + 1, rest, hn => by
    simp only [List.length_append, List.length_cons] at hn
    have hname := readName_of_spells hkey (.ofChar ':' :: (t ++ .ofChar '\x7d' :: rest))
      (by simp; decide)
    have hread := readText_of_spells h n (.ofChar '\x7d' :: rest) (by omega) (by simp; decide)
    have hcomma : CodePoint.ofChar '\x7d' ≠ .ofChar ',' := by decide
    simp [readMembers, hname, hread, after?_of_ne hcomma, after?_self]
  | _, _, .more (t := t) (u := u) hkey h hrest, n + 1, rest, hn => by
    simp only [List.length_append, List.length_cons] at hn
    have hname := readName_of_spells hkey
      (.ofChar ':' :: (t ++ .ofChar ',' :: (u ++ .ofChar '\x7d' :: rest))) (by simp; decide)
    have hread := readText_of_spells h n (.ofChar ',' :: (u ++ .ofChar '\x7d' :: rest)) (by omega)
      (by simp; decide)
    have hmore := readMembers_of_spells hrest n rest (by omega)
    simp [readMembers, hname, hread, after?_self, hmore]

end

/-- Every JSON text is read as what it stands for. -/
theorem read?_of_spells {nan : Bool} {t : Text} {j : Json} (h : SpellsText nan t j) :
    read? nan t = some j := by
  have hread := readText_of_spells h _ [] (Nat.le_refl _) (by simp)
  rw [List.append_nil] at hread
  rw [read?, hread]

end JsonWriter.Json
