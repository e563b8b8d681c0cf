import ConfigGraft.Json.Token
import ConfigGraft.Json.Writer

/-!
# Strings in quotes

A string is written with an escape for each character that cannot stand for itself: the quote, the
backslash and the control characters. Each way of writing a character is read as that character, so
a string of any characters is read as it was written.

## Main results

* `Token.readString?_escapeChar` — **a written character is read as the character;**
* `Token.readString?_quote` — a quoted string is read up to its closing quote.
-/

namespace ConfigGraft.Json

/-- A hexadecimal digit is read as what it was written for. -/
theorem hexDigit?_hexDigit : ∀ n < 16, Token.hexDigit? (hexDigit n) = some n := by decide

namespace Token

/-- A character that stands for itself is read as itself. -/
theorem readString?_plain {c : Char} (hquote : c ≠ '"') (hslash : c ≠ '\\')
    (hcontrol : ¬ c.toNat < 0x20) (cs : List Char) :
    readString? (c :: cs) = consChar c (readString? cs) := by
  rw [readString?.eq_def]
  split
  · cases ‹c :: cs = []›
  · rename_i heq
    exact absurd (List.cons.inj heq).1 hquote
  · rename_i heq
    exact absurd (List.cons.inj heq).1 hslash
  · rename_i heq
    exact absurd (List.cons.inj heq).1 hslash
  · rename_i heq
    obtain ⟨rfl, rfl⟩ := List.cons.inj heq
    rw [if_neg (not_or.2 ⟨hslash, hcontrol⟩)]

/-- A control character is read from its four hexadecimal digits. -/
theorem readString?_control {n : Nat} (h : n < 0x20) (cs : List Char) :
    readString? ('\\' :: 'u' :: '0' :: '0' :: hexDigit (n / 16) :: hexDigit (n % 16) :: cs) =
      consChar (Char.ofNat n) (readString? cs) := by
  have hunit : hex4? '0' '0' (hexDigit (n / 16)) (hexDigit (n % 16)) = some n := by
    have hzero : hexDigit? '0' = some 0 := by decide
    simp only [hex4?, hzero, hexDigit?_hexDigit (n / 16) (by omega),
      hexDigit?_hexDigit (n % 16) (by omega), Option.bind_eq_bind, Option.bind_some]
    congr 1
    omega
  have hhigh : isHighSurrogate n = false := by
    simp [isHighSurrogate]
    omega
  have hlow : isLowSurrogate n = false := by
    simp [isLowSurrogate]
    omega
  rw [readString?]
  simp only [hunit, hhigh, hlow, Bool.false_eq_true, if_false]

/-- **A written character is read as the character.** -/
theorem readString?_escapeChar (c : Char) (cs : List Char) :
    readString? (escapeChar c ++ cs) = consChar c (readString? cs) := by
  by_cases hquote : c = '"'
  · subst hquote
    rfl
  by_cases hslash : c = '\\'
  · subst hslash
    rfl
  by_cases hbackspace : c = '\x08'
  · subst hbackspace
    rfl
  by_cases hfeed : c = '\x0c'
  · subst hfeed
    rfl
  by_cases hline : c = '\n'
  · subst hline
    rfl
  by_cases hreturn : c = '\r'
  · subst hreturn
    rfl
  by_cases htab : c = '\t'
  · subst htab
    rfl
  rw [escapeChar, if_neg hquote, if_neg hslash, if_neg hbackspace, if_neg hfeed, if_neg hline,
    if_neg hreturn, if_neg htab]
  split
  · rename_i hcontrol
    exact (readString?_control hcontrol cs).trans (by rw [Char.ofNat_toNat])
  · rename_i hcontrol
    exact readString?_plain hquote hslash hcontrol cs

/-- A quoted string is read up to its closing quote. -/
theorem readString?_quote (content rest : List Char) :
    readString? (content.flatMap escapeChar ++ '"' :: rest) = some (content, rest) := by
  induction content with
  | nil => rfl
  | cons c content ih =>
      rw [List.flatMap_cons, List.append_assoc, readString?_escapeChar, ih]
      rfl

end Token

end ConfigGraft.Json
