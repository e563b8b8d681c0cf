import ConfigGraft.Json.Token

/-!
# The texts of numbers

A number is kept as a text, with its exponent in one spelling. The texts that a reader keeps are
those of a small grammar: digits, a fraction, an exponent with a small `e` and a sign, and a minus
sign before all that. Such a text is read as itself, whatever stands behind it that does not go on
with the number.

## Main results

* `Token.isNumber_of_readNumber?` — **the text that is kept of a number is one of the grammar;**
* `Token.readNumber?_append` — **a text of the grammar is read as itself.**
-/

namespace ConfigGraft.Json.Token

/-- Digits, and at least one of them. -/
structure Digits (cs : List Char) : Prop where
  ne_nil : cs ≠ []
  isDigit : ∀ c ∈ cs, c.isDigit = true

/-- The digits before the point. -/
inductive Whole : List Char → Prop
  | zero : Whole ['0']
  | digits {c : Char} {cs : List Char} : c ≠ '0' → Digits (c :: cs) → Whole (c :: cs)

/-- A point and digits, or nothing. -/
inductive Fraction : List Char → Prop
  | none : Fraction []
  | digits {cs : List Char} : Digits cs → Fraction ('.' :: cs)

/-- An exponent in the spelling in which it is kept, or nothing. -/
inductive Exponent : List Char → Prop
  | none : Exponent []
  | power {sign : Char} {cs : List Char} :
      sign = '+' ∨ sign = '-' → Digits cs → Exponent ('e' :: sign :: cs)

/-- A number without its sign. -/
inductive Unsigned : List Char → Prop
  | mk {whole fraction exponent : List Char} :
      Whole whole → Fraction fraction → Exponent exponent → Unsigned (whole ++ fraction ++ exponent)

/-- The text of a **number** as it is kept. -/
inductive IsNumber : List Char → Prop
  | positive {cs : List Char} : Unsigned cs → IsNumber cs
  | negative {cs : List Char} : Unsigned cs → IsNumber ('-' :: cs)

/-- Characters that a number can go on with. -/
def goesOn (c : Char) : Bool := c.isDigit || c == '.' || c == 'e' || c == 'E'

/-- A text **stops** characters of a class if it does not begin with one of them. -/
def Stops (p : Char → Bool) (cs : List Char) : Prop := ∀ c ∈ cs.head?, p c = false

variable {cs rest text whole fraction exponent : List Char}

/-- What is read stops at a character that does not belong to it. -/
theorem Stops.of_cons {p : Char → Bool} {c : Char} (h : p c = false) (cs : List Char) :
    Stops p (c :: cs) := by
  rintro _ ⟨⟩
  exact h

/-- Where a number stops, its digits stop. -/
theorem Stops.isDigit (h : Stops goesOn rest) : Stops Char.isDigit rest := by
  intro c hc
  have hstop := h c hc
  simp only [goesOn, Bool.or_eq_false_iff] at hstop
  exact hstop.1.1.1

/-! ### Digits -/

/-- Digits in front of a text are a run of digits, if there is one. -/
theorem digits_takeWhile (h : cs.takeWhile Char.isDigit ≠ []) :
    Digits (cs.takeWhile Char.isDigit) :=
  ⟨h, fun c hc => List.all_eq_true.1 List.all_takeWhile c hc⟩

/-- Digits are taken up to what stops them. -/
theorem Digits.takeWhile_append (h : Digits cs) (hrest : Stops Char.isDigit rest) :
    (cs ++ rest).takeWhile Char.isDigit = cs ∧ (cs ++ rest).dropWhile Char.isDigit = rest := by
  rw [List.takeWhile_append_of_pos h.isDigit, List.dropWhile_append_of_pos h.isDigit]
  cases rest with
  | nil => simp
  | cons c rest => simp [hrest c rfl]

/-! ### The parts of a number -/

/-- What is read as a whole part is one. -/
theorem whole_of_readWhole? (h : readWhole? cs = some (text, rest)) : Whole text := by
  rw [readWhole?.eq_def] at h
  split at h
  · cases h
    exact .zero
  · rename_i hzero
    split at h
    · cases h
    · rename_i digits hne
      cases h
      have hdigits := digits_takeWhile hne
      cases cs with
      | nil => exact absurd rfl hne
      | cons c cs =>
          cases hc : c.isDigit with
          | false => simp [hc] at hne
          | true =>
              rw [List.takeWhile_cons, hc] at hdigits ⊢
              exact .digits (fun hz => hzero cs (hz ▸ rfl)) hdigits

/-- A whole part is read where no digit follows. -/
theorem Whole.readWhole?_append (h : Whole text) (hrest : Stops Char.isDigit rest) :
    readWhole? (text ++ rest) = some (text, rest) := by
  cases h with
  | zero => rfl
  | @digits c cs hzero hdigits =>
      obtain ⟨htake, hdrop⟩ := hdigits.takeWhile_append hrest
      rw [readWhole?.eq_def]
      split
      · rename_i heq
        exact absurd (List.cons.inj heq).1 hzero
      · rw [htake, hdrop]

/-- What is read as a fraction is one. -/
theorem fraction_of_readFraction? (h : readFraction? cs = some (text, rest)) : Fraction text := by
  rw [readFraction?.eq_def] at h
  split at h
  · split at h
    · cases h
    · rename_i digits hne
      cases h
      exact .digits (digits_takeWhile hne)
  · cases h
    exact .none

/-- A fraction is read where neither a digit nor a point follows. -/
theorem Fraction.readFraction?_append (h : Fraction text) (hdigit : Stops Char.isDigit rest)
    (hpoint : Stops (· == '.') rest) : readFraction? (text ++ rest) = some (text, rest) := by
  cases h with
  | none =>
      rw [List.nil_append, readFraction?.eq_def]
      split
      · cases hpoint '.' rfl
      · rfl
  | @digits cs hdigits =>
      obtain ⟨htake, hdrop⟩ := hdigits.takeWhile_append hdigit
      obtain ⟨c, more, rfl⟩ := List.exists_cons_of_ne_nil hdigits.ne_nil
      rw [List.cons_append, readFraction?]
      simp only [htake, hdrop]

/-- A sign and the power behind it make an exponent. -/
theorem exponent_of_readPower? {sign : Char} (hsign : sign = '+' ∨ sign = '-')
    (h : readPower? sign cs = some (text, rest)) : Exponent text := by
  rw [readPower?] at h
  split at h
  · cases h
  · rename_i digits hne
    cases h
    exact .power hsign (digits_takeWhile hne)

/-- What is read as an exponent is one. -/
theorem exponent_of_readExponent? (h : readExponent? cs = some (text, rest)) : Exponent text := by
  rw [readExponent?.eq_def] at h
  split at h
  · split at h
    · split at h
      · exact exponent_of_readPower? (.inl rfl) h
      · exact exponent_of_readPower? (.inr rfl) h
      · exact exponent_of_readPower? (.inl rfl) h
    · cases h
      exact .none
  · cases h
    exact .none

/-- An exponent is read where the number stops. -/
theorem Exponent.readExponent?_append (h : Exponent text) (hrest : Stops goesOn rest) :
    readExponent? (text ++ rest) = some (text, rest) := by
  cases h with
  | none =>
      rw [List.nil_append]
      cases rest with
      | nil => rfl
      | cons c rest =>
          have hstop := hrest c rfl
          simp only [goesOn, Bool.or_eq_false_iff, beq_eq_false_iff_ne] at hstop
          have hletter : ¬ (c = 'e' ∨ c = 'E') := by simp [hstop]
          rw [readExponent?.eq_def]
          exact if_neg hletter
  | @power sign cs hsign hdigits =>
      obtain ⟨htake, hdrop⟩ := hdigits.takeWhile_append hrest.isDigit
      obtain ⟨c, more, rfl⟩ := List.exists_cons_of_ne_nil hdigits.ne_nil
      have hpower : readPower? sign (c :: more ++ rest) =
          some ('e' :: sign :: c :: more, rest) := by
        simp only [readPower?, htake, hdrop]
      rcases hsign with rfl | rfl <;> exact hpower

/-! ### Whole numbers -/

/-- The text that is kept of a number without its sign is one of the grammar. -/
theorem unsigned_of_readUnsigned? (h : readUnsigned? cs = some (text, rest)) : Unsigned text := by
  obtain ⟨⟨whole, cs'⟩, hwhole, h⟩ := Option.bind_eq_some_iff.1 h
  obtain ⟨⟨fraction, cs''⟩, hfraction, h⟩ := Option.bind_eq_some_iff.1 h
  obtain ⟨⟨exponent, cs'''⟩, hexponent, h⟩ := Option.bind_eq_some_iff.1 h
  cases h
  exact .mk (whole_of_readWhole? hwhole) (fraction_of_readFraction? hfraction)
    (exponent_of_readExponent? hexponent)

/-- A number without its sign is read as itself. -/
theorem Unsigned.readUnsigned?_append (h : Unsigned text) (hrest : Stops goesOn rest) :
    readUnsigned? (text ++ rest) = some (text, rest) := by
  obtain ⟨hwhole, hfraction, hexponent⟩ := h
  rename_i whole fraction exponent
  have hpower : Stops Char.isDigit (exponent ++ rest) ∧ Stops (· == '.') (exponent ++ rest) := by
    cases hexponent with
    | none =>
        refine ⟨hrest.isDigit, fun c hc => ?_⟩
        have hstop := hrest c hc
        simp only [goesOn, Bool.or_eq_false_iff] at hstop
        exact hstop.1.1.2
    | power => exact ⟨.of_cons rfl _, .of_cons rfl _⟩
  have hpoint : Stops Char.isDigit (fraction ++ (exponent ++ rest)) := by
    cases hfraction with
    | none => exact hpower.1
    | digits => exact .of_cons rfl _
  rw [readUnsigned?, List.append_assoc, List.append_assoc, hwhole.readWhole?_append hpoint]
  simp [hfraction.readFraction?_append hpower.1 hpower.2, hexponent.readExponent?_append hrest]

/-- A number without its sign begins with a digit. -/
theorem Unsigned.exists_digit (h : Unsigned text) :
    ∃ c more, text = c :: more ∧ c.isDigit = true := by
  obtain ⟨hwhole, -, -⟩ := h
  cases hwhole with
  | zero => exact ⟨'0', _, rfl, rfl⟩
  | digits _ hdigits => exact ⟨_, _, rfl, hdigits.isDigit _ List.mem_cons_self⟩

/-- **The text that is kept of a number is one of the grammar.** -/
theorem isNumber_of_readNumber? (h : readNumber? cs = some (text, rest)) : IsNumber text := by
  rw [readNumber?.eq_def] at h
  split at h
  · obtain ⟨⟨text', rest'⟩, hread, heq⟩ := Option.map_eq_some_iff.1 h
    cases heq
    exact .negative (unsigned_of_readUnsigned? hread)
  · exact .positive (unsigned_of_readUnsigned? h)

/-- **A text of the grammar is read as itself.** -/
theorem IsNumber.readNumber?_append (h : IsNumber text) (hrest : Stops goesOn rest) :
    readNumber? (text ++ rest) = some (text, rest) := by
  cases h with
  | positive hunsigned =>
      obtain ⟨c, more, rfl, hdigit⟩ := hunsigned.exists_digit
      rw [readNumber?.eq_def]
      split
      · rename_i heq
        obtain rfl := (List.cons.inj heq).1
        cases hdigit
      · exact hunsigned.readUnsigned?_append hrest
  | negative hunsigned => simp [readNumber?, hunsigned.readUnsigned?_append hrest]

end ConfigGraft.Json.Token
