import Mathlib.Tactic.MkIffOfInductiveProp
import ConfigGraft.Properties.Reader

/-!
# Malformed escapes

A part of a line is read from the left in backslash pairs: a backslash and the character behind it
belong together. A pair with the letter `u` is the escape of a UTF-16 unit. Such an escape can be
wrong in three ways, and `Malformed` says that one in the part is: four hexadecimal digits are not
behind it, or it is the second half of a surrogate pair without the first, or the first half without
the second.

The reader goes from escape to escape, and over both halves of a pair at once. An escape that it
passes over is right, and whether one behind it is wrong does not depend on it, so the reader fails
just where the first wrong escape is.

## Main results

* `unescape_error_iff` — **a part is rejected exactly if an escape in it is malformed.**
-/

namespace ConfigGraft.Properties

/-! ### Escapes of units -/

/-- The unit that the first four characters of a text stand for, if they are hexadecimal digits. -/
def unitAhead? : List Char → Option Nat
  | a :: b :: c :: d :: _ => unit? a b c d
  | _ => none

/-- Whether a unit is the first half of a surrogate pair. -/
def IsHigh (unit : Nat) : Prop := 0xD800 ≤ unit ∧ unit < 0xDC00

/-- Whether a unit is the second half of a surrogate pair. -/
def IsLow (unit : Nat) : Prop := 0xDC00 ≤ unit ∧ unit < 0xE000

/-- **An escape of a unit in a part**, which is read in backslash pairs. What comes behind its
letter is given. -/
inductive HasEscape : List Char → List Char → Prop
  | here {rest : List Char} : HasEscape ('\\' :: 'u' :: rest) rest
  | plain {c : Char} {cs rest : List Char} :
      c ≠ '\\' → HasEscape cs rest → HasEscape (c :: cs) rest
  | pair {c : Char} {cs rest : List Char} :
      HasEscape cs rest → HasEscape ('\\' :: c :: cs) rest

/-- Whether the escape right before an escape is the first half of a pair. -/
def HighBefore (part rest : List Char) : Prop :=
  ∃ before high, HasEscape part before ∧ unitAhead? before = some high ∧ IsHigh high ∧
    before.drop 4 = '\\' :: 'u' :: rest

/-- Whether right behind the digits of an escape there is the escape of the second half of a
pair. -/
def LowBehind (rest : List Char) : Prop :=
  ∃ after low, rest.drop 4 = '\\' :: 'u' :: after ∧ unitAhead? after = some low ∧ IsLow low

/-- What can be wrong with an escape of a part. -/
@[mk_iff] inductive Wrong (part rest : List Char) : Prop
  | digits : unitAhead? rest = none → Wrong part rest
  | low {unit : Nat} :
      unitAhead? rest = some unit → IsLow unit → ¬ HighBefore part rest → Wrong part rest
  | high {unit : Nat} :
      unitAhead? rest = some unit → IsHigh unit → ¬ LowBehind rest → Wrong part rest

/-- Whether an escape in a part is wrong. -/
def Malformed (part : List Char) : Prop := ∃ rest, HasEscape part rest ∧ Wrong part rest

/-! ### Digits -/

section

variable {part cs rest after : List Char} {c : Char} {unit high low : Nat}

/-- No unit is both halves of a pair. -/
theorem not_isLow_of_isHigh (h : IsHigh unit) : ¬ IsLow unit := fun hlow =>
  absurd h.2 (Nat.not_lt.2 hlow.1)

/-- A digit is no backslash. -/
theorem ne_of_hexDigit? {n : Nat} (h : hexDigit? c = some n) : c ≠ '\\' := by
  rintro rfl
  cases h

/-- The four characters of a unit are digits. -/
theorem exists_of_unitAhead? (h : unitAhead? cs = some unit) :
    ∃ a b c d, cs = a :: b :: c :: d :: cs.drop 4 ∧
      a ≠ '\\' ∧ b ≠ '\\' ∧ c ≠ '\\' ∧ d ≠ '\\' := by
  unfold unitAhead? at h
  split at h
  · rename_i a b c d rest
    simp only [unit?, Option.bind_eq_bind, Option.bind_eq_some_iff] at h
    obtain ⟨_, ha, _, hb, _, hc, _, hd, -⟩ := h
    exact ⟨a, b, c, d, rfl, ne_of_hexDigit? ha, ne_of_hexDigit? hb, ne_of_hexDigit? hc,
      ne_of_hexDigit? hd⟩
  · cases h

/-- A unit is read off four digits, if they are ahead. -/
theorem readUnit_eq (cs : List Char) :
    readUnit cs = match unitAhead? cs with
      | some unit => .ok (unit, cs.drop 4)
      | none => .error (.badDigits (cs.take 4)) := by
  rcases cs with _ | ⟨a, _ | ⟨b, _ | ⟨c, _ | ⟨d, rest⟩⟩⟩⟩
  case cons.cons.cons.cons => rfl
  all_goals rfl

/-! ### Where escapes are -/

/-- A plain character adds no escape. -/
theorem hasEscape_plain (h : c ≠ '\\') : HasEscape (c :: cs) rest ↔ HasEscape cs rest := by
  refine ⟨fun hescape => ?_, .plain h⟩
  cases hescape with
  | here | pair => exact absurd rfl h
  | plain _ hescape => exact hescape

/-- Nor does a backslash before something else. -/
theorem hasEscape_pair (h : c ≠ 'u') : HasEscape ('\\' :: c :: cs) rest ↔ HasEscape cs rest := by
  refine ⟨fun hescape => ?_, .pair⟩
  cases hescape with
  | here => exact absurd rfl h
  | plain hne => exact absurd rfl hne
  | pair hescape => exact hescape

/-- Nor do the digits of a unit. -/
theorem hasEscape_drop (h : unitAhead? cs = some unit) :
    HasEscape cs rest ↔ HasEscape (cs.drop 4) rest := by
  obtain ⟨a, b, c, d, hcs, ha, hb, hc, hd⟩ := exists_of_unitAhead? h
  rw [hcs, hasEscape_plain ha, hasEscape_plain hb, hasEscape_plain hc, hasEscape_plain hd]
  rfl

/-- Behind an escape the next ones are behind its digits. -/
theorem hasEscape_unit (h : unitAhead? cs = some unit) :
    HasEscape ('\\' :: 'u' :: cs) rest ↔ rest = cs ∨ HasEscape (cs.drop 4) rest := by
  rw [← hasEscape_drop h]
  constructor
  · intro hescape
    cases hescape with
    | here => exact .inl rfl
    | plain hne => exact absurd rfl hne
    | pair hescape => exact .inr hescape
  · rintro (rfl | hescape)
    · exact .here
    · exact .pair hescape

/-- What stands behind an escape is shorter than the whole by the escape at least. -/
theorem HasEscape.length_le (h : HasEscape cs rest) : rest.length + 2 ≤ cs.length := by
  induction h with
  | here => exact Nat.le_refl _
  | plain _ _ ih | pair _ ih => simp only [List.length_cons]; omega

/-! ### What is passed over -/

/-- Four digits are wrong only as a half of a pair. -/
theorem wrong_unit_iff (h : unitAhead? rest = some unit) :
    Wrong part rest ↔ IsLow unit ∧ ¬ HighBefore part rest ∨ IsHigh unit ∧ ¬ LowBehind rest := by
  simp [wrong_iff, h]

/-- Right escapes at the start of a part can be left out, if none of them is the first half of a
pair whose second half comes behind them. -/
theorem malformed_iff_of_right (front : List (List Char))
    (hescape : ∀ rest, HasEscape part rest ↔ rest ∈ front ∨ HasEscape after rest)
    (hright : ∀ rest ∈ front, ¬ Wrong part rest)
    (hbefore : ∀ before ∈ front, ∀ high, unitAhead? before = some high → IsHigh high →
      ∀ rest, before.drop 4 = '\\' :: 'u' :: rest → ¬ HasEscape after rest) :
    Malformed part ↔ Malformed after := by
  -- Behind the front, what stands right before an escape is the same in both parts.
  have hhigh {rest : List Char} (hrest : HasEscape after rest) :
      HighBefore part rest ↔ HighBefore after rest := by
    constructor
    · rintro ⟨before, high, hfound, hunit, hhigh, hdrop⟩
      rcases (hescape before).1 hfound with hfront | hfound
      · exact absurd hrest (hbefore before hfront high hunit hhigh rest hdrop)
      · exact ⟨before, high, hfound, hunit, hhigh, hdrop⟩
    · rintro ⟨before, high, hfound, h⟩
      exact ⟨before, high, (hescape before).2 (.inr hfound), h⟩
  have hwrong {rest : List Char} (hrest : HasEscape after rest) :
      Wrong part rest ↔ Wrong after rest := by
    rw [wrong_iff, wrong_iff, hhigh hrest]
  constructor
  · rintro ⟨rest, hfound, hrest⟩
    rcases (hescape rest).1 hfound with hfront | hfound
    · exact absurd hrest (hright rest hfront)
    · exact ⟨rest, hfound, (hwrong hfound).1 hrest⟩
  · rintro ⟨rest, hfound, hrest⟩
    exact ⟨rest, (hescape rest).2 (.inr hfound), (hwrong hfound).2 hrest⟩

/-- A plain character has no fault. -/
theorem malformed_plain (h : c ≠ '\\') : Malformed (c :: cs) ↔ Malformed cs :=
  malformed_iff_of_right [] (by simp [hasEscape_plain h]) nofun nofun

/-- A backslash before something else has none. -/
theorem malformed_pair (h : c ≠ 'u') : Malformed ('\\' :: c :: cs) ↔ Malformed cs :=
  malformed_iff_of_right [] (by simp [hasEscape_pair h]) nofun nofun

/-- A unit that is no half of a pair is right. -/
theorem malformed_single (hunit : unitAhead? cs = some unit) (hhigh : ¬ IsHigh unit)
    (hlow : ¬ IsLow unit) : Malformed ('\\' :: 'u' :: cs) ↔ Malformed (cs.drop 4) := by
  refine malformed_iff_of_right [cs] (fun rest => ?_) (List.forall_mem_singleton.2 ?_)
    (List.forall_mem_singleton.2 fun high hsome hhigh' => ?_)
  · rw [hasEscape_unit hunit, List.mem_singleton]
  · rw [wrong_unit_iff hunit]
    rintro (⟨hlow', -⟩ | ⟨hhigh', -⟩)
    · exact hlow hlow'
    · exact hhigh hhigh'
  · cases hunit.symm.trans hsome
    exact absurd hhigh' hhigh

/-- Both halves of a pair are right. -/
theorem malformed_surrogates (hunit : unitAhead? cs = some high) (hhigh : IsHigh high)
    (hdrop : cs.drop 4 = '\\' :: 'u' :: after) (hafter : unitAhead? after = some low)
    (hlow : IsLow low) : Malformed ('\\' :: 'u' :: cs) ↔ Malformed (after.drop 4) := by
  refine malformed_iff_of_right [cs, after] (fun rest => ?_) ?_ ?_
  · rw [hasEscape_unit hunit, hdrop, hasEscape_unit hafter, List.mem_cons, List.mem_singleton,
      or_assoc]
  · intro rest hmem
    obtain rfl | rfl : _ := by simpa using hmem
    · rw [wrong_unit_iff hunit]
      rintro (⟨hlow', -⟩ | ⟨-, hbehind⟩)
      · exact not_isLow_of_isHigh hhigh hlow'
      · exact hbehind ⟨after, low, hdrop, hafter, hlow⟩
    · rw [wrong_unit_iff hafter]
      rintro (⟨-, hbefore⟩ | ⟨hhigh', -⟩)
      · exact hbefore ⟨cs, high, .here, hunit, hhigh, hdrop⟩
      · exact not_isLow_of_isHigh hhigh' hlow
  · intro before hmem high' hsome hhigh' rest hrest hfound
    obtain rfl | rfl : _ := by simpa using hmem
    · -- The second half is passed over as well, so no escape behind the pair is it.
      cases hdrop.symm.trans hrest
      have hlength := hfound.length_le
      rw [List.length_drop] at hlength
      omega
    · cases hafter.symm.trans hsome
      exact not_isLow_of_isHigh hhigh' hlow

/-- Nothing before the first escape of a part is the first half of its pair. -/
theorem not_highBefore : ¬ HighBefore ('\\' :: 'u' :: cs) cs := by
  rintro ⟨before, high, hfound, -, -, hdrop⟩
  have hlength := hfound.length_le
  have hdropped := congrArg List.length hdrop
  simp only [List.length_drop, List.length_cons] at hdropped hlength
  omega

/-! ### Reading an escape -/

/-- What is behind the escapes that are passed over at once. -/
inductive Passed (cs : List Char) : List Char → Prop
  | single {unit : Nat} :
      unitAhead? cs = some unit → ¬ IsHigh unit → ¬ IsLow unit → Passed cs (cs.drop 4)
  | surrogates {high low : Nat} {after : List Char} :
      unitAhead? cs = some high → IsHigh high → cs.drop 4 = '\\' :: 'u' :: after →
        unitAhead? after = some low → IsLow low → Passed cs (after.drop 4)

/-- An escape that is passed has none, so the fault is behind it. -/
theorem malformed_passed (h : Passed cs after) :
    Malformed ('\\' :: 'u' :: cs) ↔ Malformed after := by
  cases h with
  | single hunit hhigh hlow => exact malformed_single hunit hhigh hlow
  | surrogates hunit hhigh hdrop hafter hlow =>
      exact malformed_surrogates hunit hhigh hdrop hafter hlow

/-- An escape that is read is right, and what is behind it is left. -/
theorem passed_of_readUnitEscape (h : readUnitEscape cs = .ok (c, after)) : Passed cs after := by
  rw [readUnitEscape, readUnit_eq] at h
  cases hunit : unitAhead? cs with
  | none => rw [hunit] at h; cases h
  | some unit =>
      simp only [hunit, readChar] at h
      split at h
      · rename_i hhigh
        split at h
        · rename_i tail hdrop
          rw [readUnit_eq] at h
          cases hlow : unitAhead? tail with
          | none => rw [hlow] at h; cases h
          | some low =>
              simp only [hlow] at h
              split at h
              · rename_i hrange
                obtain ⟨-, rfl⟩ := Prod.mk.inj (Except.ok.inj h)
                exact .surrogates hunit hhigh hdrop hlow hrange
              · cases h
        · cases h
      · rename_i hhigh
        split at h
        · cases h
        · rename_i hlow
          obtain ⟨-, rfl⟩ := Prod.mk.inj (Except.ok.inj h)
          exact .single hunit hhigh hlow

/-- An escape that is rejected is wrong. -/
theorem wrong_of_readUnitEscape {fault : EscapeFault} (h : readUnitEscape cs = .error fault) :
    Wrong ('\\' :: 'u' :: cs) cs := by
  rw [readUnitEscape, readUnit_eq] at h
  cases hunit : unitAhead? cs with
  | none => exact .digits hunit
  | some unit =>
      simp only [hunit, readChar] at h
      split at h
      · rename_i hhigh
        refine .high hunit hhigh ?_
        rintro ⟨after, low, hdrop, hafter, hlow⟩
        simp only [hdrop, readUnit_eq, hafter] at h
        split at h
        · cases h
        · rename_i hrange
          exact hrange hlow
      · split at h
        · rename_i hlow
          exact .low hunit hlow not_highBefore
        · cases h

/-- A map fails where what it is applied to fails. -/
theorem map_error_iff {α β : Type} {x : Except EscapeFault α} {f : α → β} :
    (∃ fault, x.map f = .error fault) ↔ ∃ fault, x = .error fault := by
  cases x <;> simp [Except.map]

/-- **A part is rejected exactly if an escape in it is malformed.** -/
theorem unescape_error_iff (part : List Char) :
    (∃ fault, unescape part = .error fault) ↔ Malformed part := by
  fun_induction unescape part with
  | case1 => exact ⟨nofun, fun ⟨_, hfound, _⟩ => absurd hfound nofun⟩
  | case2 rest fault hread =>
      exact ⟨fun _ => ⟨rest, .here, wrong_of_readUnitEscape hread⟩, fun _ => ⟨fault, rfl⟩⟩
  | case3 rest c after hread ih =>
      -- The reader is behind a right escape, or behind both halves of a pair.
      rw [malformed_passed (passed_of_readUnitEscape hread), ← ih, map_error_iff]
  | case4 c rest hc ih => rw [malformed_pair (by simpa using hc), ← ih, map_error_iff]
  | case5 =>
      refine ⟨nofun, fun ⟨_, hfound, _⟩ => ?_⟩
      cases hfound with
      | plain hne => exact absurd rfl hne
  | case6 c rest _ hpair hlast ih =>
      have hplain : c ≠ '\\' := by
        rintro rfl
        cases rest with
        | nil => exact hlast rfl rfl
        | cons d rest => exact hpair d rest rfl rfl
      rw [malformed_plain hplain, ← ih, map_error_iff]

end

end ConfigGraft.Properties
