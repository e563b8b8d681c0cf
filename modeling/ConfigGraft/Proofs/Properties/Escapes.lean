import ConfigGraft.Properties.Reader
import ConfigGraft.Properties.Writer

/-!
# Escapes of properties

The writer protects characters by backslashes, and the reader takes the backslashes away again.
This module compares the two, one character at a time: what is written for a character is ASCII,
reads back as that character, does not end the key, and leaves an even number of backslashes at the
end of a line.

## Main results

* `Written.unescape_append`, `WrittenText.unescape` — what is written reads back;
* `cutKey_escapeKey` — a written key ends at the sign behind it;
* `WrittenText.continues_append` — a line that ends in a written text does not ask for another.
-/

namespace ConfigGraft.Properties

/-! ### Hexadecimal digits -/

/-- A hexadecimal digit that is written is read back. -/
theorem hexDigit?_hexDigit : ∀ n < 16, hexDigit? (hexDigit n) = some n := by decide

/-- The digits of a unit are the digits that the reader puts together again. -/
theorem readUnit_digits {n : Nat} (h : n < 65536) (rest : List Char) :
    readUnit (hexDigit (n / 4096 % 16) :: hexDigit (n / 256 % 16) :: hexDigit (n / 16 % 16) ::
      hexDigit (n % 16) :: rest) = .ok (n, rest) := by
  have hunit : unit? (hexDigit (n / 4096 % 16)) (hexDigit (n / 256 % 16)) (hexDigit (n / 16 % 16))
      (hexDigit (n % 16)) = some n := by
    simp only [unit?, hexDigit?_hexDigit _ (Nat.mod_lt _ (by omega : 16 > 0)), Option.bind_eq_bind,
      Option.bind_some, Option.some.injEq]
    omega
  rw [readUnit, hunit]

/-- It is printable and no backslash. -/
theorem hexDigit_bounds : ∀ n < 16, ' ' ≤ hexDigit n ∧ hexDigit n ≤ '~' ∧ hexDigit n ≠ '\\' := by
  decide

/-- The escape of a unit is printable ASCII. -/
theorem escapeUnit_printable {n : Nat} {d : Char} (h : d ∈ escapeUnit n) : ' ' ≤ d ∧ d ≤ '~' := by
  have hdigit : ∀ m, ' ' ≤ hexDigit (m % 16) ∧ hexDigit (m % 16) ≤ '~' := fun m =>
    have hb := hexDigit_bounds (m % 16) (Nat.mod_lt _ (by omega))
    ⟨hb.1, hb.2.1⟩
  simp only [escapeUnit, List.mem_cons, List.not_mem_nil, or_false] at h
  rcases h with rfl | rfl | rfl | rfl | rfl | rfl
  · decide
  · decide
  all_goals exact hdigit _

/-! ### One character -/

/-- **How a character can be written:** as a backslash and a character that stands for it, as
itself, or as the escapes of its units. A space stands for itself only where it is not guarded. -/
inductive Written (guarded : Bool) (c : Char) : List Char → Prop
  | escaped {d : Char} : d ≠ 'u' → plainEscape d = c → ' ' ≤ d → d ≤ '~' →
      Written guarded c ['\\', d]
  | asItself : ' ' ≤ c → c ≤ '~' → c ≠ '\\' → isSign c = false → c ≠ '#' → c ≠ '!' →
      (c = ' ' → guarded = false) → Written guarded c [c]
  | asUnits : Written guarded c (escapeUnits c)

/-- The writer writes every character in one of the ways. -/
theorem written_escapeChar (guarded : Bool) (c : Char) :
    Written guarded c (escapeChar guarded c) := by
  rw [escapeChar]
  split
  · rename_i h; subst h; exact .escaped (by decide) (by decide) (by decide) (by decide)
  split
  · rename_i h; subst h; exact .escaped (by decide) (by decide) (by decide) (by decide)
  split
  · rename_i h; subst h; exact .escaped (by decide) (by decide) (by decide) (by decide)
  split
  · rename_i h; subst h; exact .escaped (by decide) (by decide) (by decide) (by decide)
  split
  · rename_i h; subst h; exact .escaped (by decide) (by decide) (by decide) (by decide)
  split
  · rename_i h; subst h
    cases guarded with
    | true => exact .escaped (by decide) (by decide) (by decide) (by decide)
    | false =>
        exact .asItself (by decide) (by decide) (by decide) (by decide) (by decide) (by decide)
          (fun _ => rfl)
  split
  · rename_i h
    rcases h with rfl | rfl | rfl | rfl <;>
      exact .escaped (by decide) (by decide) (by decide) (by decide)
  split
  · exact .asUnits
  · rename_i hback _ _ _ _ hspace hsign hrange
    simp only [not_or] at hsign hrange
    refine .asItself (Char.not_lt.1 hrange.1) (Char.not_lt.1 hrange.2) hback ?_ hsign.2.2.1
      hsign.2.2.2 (fun h => absurd h hspace)
    simp [isSign, hsign.1, hsign.2.1]

/-- What is written for a character is printable ASCII. -/
theorem Written.printable {guarded : Bool} {c : Char} {w : List Char} (h : Written guarded c w) :
    ∀ d ∈ w, ' ' ≤ d ∧ d ≤ '~' := by
  cases h with
  | escaped _ _ hlow hhigh => simpa using ⟨hlow, hhigh⟩
  | asItself hlow hhigh => simpa using ⟨hlow, hhigh⟩
  | asUnits =>
      intro d hd
      rw [escapeUnits] at hd
      split at hd
      · exact escapeUnit_printable hd
      · rcases List.mem_append.1 hd with hd | hd <;> exact escapeUnit_printable hd

/-- What is written for a character does not begin like a comment, nor with a blank if it is
guarded. -/
theorem Written.head {guarded : Bool} {c : Char} {w : List Char} (h : Written guarded c w) :
    ∃ d rest, w = d :: rest ∧ d ≠ '#' ∧ d ≠ '!' ∧ (guarded = true → isBlank d = false) := by
  cases h with
  | escaped => exact ⟨_, _, rfl, by decide, by decide, fun _ => by decide⟩
  | asItself hlow _ _ _ hhash hbang hspace =>
      refine ⟨_, _, rfl, hhash, hbang, fun hg => ?_⟩
      have hne : c ≠ ' ' := fun h => by simp [hspace h] at hg
      have htab : c ≠ '\t' := by rintro rfl; exact absurd hlow (by decide)
      have hform : c ≠ '\x0c' := by rintro rfl; exact absurd hlow (by decide)
      simp [isBlank, hne, htab, hform]
  | asUnits =>
      rw [escapeUnits, escapeUnit]
      split <;> exact ⟨_, _, rfl, by decide, by decide, fun _ => by decide⟩

/-! ### Reading a written character -/

/-- The unit of a character that needs only one is no half of a pair. -/
theorem not_surrogate (c : Char) : c.toNat < 0xD800 ∨ 0xDFFF < c.toNat := by
  rcases c.valid with h | h
  · exact Or.inl h
  · exact Or.inr h.1

/-- The number of a character is below the end of the code space. -/
theorem toNat_lt (c : Char) : c.toNat < 0x110000 := by
  rcases c.valid with h | h
  · exact Nat.lt_trans h (by decide)
  · exact h.2

/-- The escapes of the units of a character read back as the character. -/
theorem unescape_escapeUnits (c : Char) (rest : List Char) :
    unescape (escapeUnits c ++ rest) = (unescape rest).map (c :: ·) := by
  have hsur := not_surrogate c
  have hmax := toNat_lt c
  have hread : ∀ tail, escapeUnits c ++ rest = '\\' :: 'u' :: tail →
      readUnitEscape tail = .ok (c, rest) := by
    intro tail htail
    rw [escapeUnits] at htail
    split at htail
    · rename_i hsmall
      simp only [escapeUnit, List.cons_append, List.nil_append, List.cons.injEq, true_and] at htail
      subst htail
      rw [readUnitEscape, readUnit_digits hsmall]
      simp only [readChar]
      rw [if_neg (by omega), if_neg (by omega), Char.ofNat_toNat]
    · rename_i hlarge
      simp only [escapeUnit, List.cons_append, List.nil_append, List.cons.injEq, true_and] at htail
      subst htail
      rw [readUnitEscape, readUnit_digits (by omega)]
      simp only [readChar]
      rw [if_pos (by omega), readUnit_digits (by omega)]
      simp only
      rw [if_pos (by omega)]
      have hpair : ofPair (0xD800 + (c.toNat - 0x10000) / 0x400)
          (0xDC00 + (c.toNat - 0x10000) % 0x400) = c := by
        rw [ofPair, show 0x10000 + (0xD800 + (c.toNat - 0x10000) / 0x400 - 0xD800) * 0x400 +
          (0xDC00 + (c.toNat - 0x10000) % 0x400 - 0xDC00) = c.toNat by omega, Char.ofNat_toNat]
      rw [hpair]
  obtain ⟨tail, htail⟩ : ∃ tail, escapeUnits c ++ rest = '\\' :: 'u' :: tail := by
    rw [escapeUnits, escapeUnit]
    split <;> exact ⟨_, rfl⟩
  rw [htail, unescape]
  split
  · rename_i fault h
    rw [hread tail htail] at h; cases h
  · rename_i d after h
    rw [hread tail htail] at h; cases h; rfl

/-- **A written character reads back.** -/
theorem Written.unescape_append {guarded : Bool} {c : Char} {w : List Char}
    (h : Written guarded c w) (rest : List Char) :
    unescape (w ++ rest) = (unescape rest).map (c :: ·) := by
  cases h with
  | escaped hu hplain =>
      rw [List.cons_append, List.cons_append, List.nil_append, unescape, hplain]
      exact hu
  | asItself _ _ hback =>
      rw [List.cons_append, List.nil_append, unescape]
      all_goals simp_all
  | asUnits => exact unescape_escapeUnits c rest

/-! ### Where a key ends -/

/-- A key is not cut at a backslash, nor behind it. -/
theorem cutKey_escape (d : Char) (rest : List Char) :
    cutKey ('\\' :: d :: rest) = ('\\' :: d :: (cutKey rest).1, (cutKey rest).2) := by
  rw [cutKey]

/-- It is not cut at a plain character. -/
theorem cutKey_plain {d : Char} (hback : d ≠ '\\') (hsign : isSign d = false)
    (hblank : isBlank d = false) (rest : List Char) :
    cutKey (d :: rest) = (d :: (cutKey rest).1, (cutKey rest).2) := by
  rw [cutKey]
  · simp [hsign, hblank]
  all_goals simp_all

/-- It is not cut in an escaped unit. -/
theorem cutKey_escapeUnit {n : Nat} (rest : List Char) :
    cutKey (escapeUnit n ++ rest) = (escapeUnit n ++ (cutKey rest).1, (cutKey rest).2) := by
  have hdigit : ∀ m, hexDigit (m % 16) ≠ '\\' ∧ isSign (hexDigit (m % 16)) = false ∧
      isBlank (hexDigit (m % 16)) = false := by
    have hall : ∀ k < 16, hexDigit k ≠ '\\' ∧ isSign (hexDigit k) = false ∧
        isBlank (hexDigit k) = false := by decide
    exact fun m => hall (m % 16) (Nat.mod_lt _ (by omega))
  have hplain : ∀ m tail, cutKey (hexDigit (m % 16) :: tail) =
      (hexDigit (m % 16) :: (cutKey tail).1, (cutKey tail).2) := fun m tail =>
    cutKey_plain (hdigit m).1 (hdigit m).2.1 (hdigit m).2.2 tail
  simp only [escapeUnit, List.cons_append, List.nil_append]
  rw [cutKey_escape, hplain, hplain, hplain, hplain]

/-- A written character of a key does not end the key. -/
theorem Written.cutKey_append {c : Char} {w : List Char} (h : Written true c w)
    (rest : List Char) : cutKey (w ++ rest) = (w ++ (cutKey rest).1, (cutKey rest).2) := by
  obtain ⟨d, tail, hw, -, -, hblank⟩ := h.head
  cases h with
  | escaped => exact cutKey_escape _ rest
  | asItself _ _ hback hsign =>
      cases hw
      exact cutKey_plain hback hsign (hblank rfl) rest
  | asUnits =>
      rw [escapeUnits]
      split
      · exact cutKey_escapeUnit rest
      · rw [List.append_assoc, cutKey_escapeUnit, cutKey_escapeUnit, List.append_assoc]

/-! ### Where a line ends -/

/-- A line that ends in something else than a backslash does not go on. -/
theorem continues_concat {line : List Char} {d : Char} (h : d ≠ '\\') :
    continues (line ++ [d]) = false := by
  simp [continues, h]

/-- Two backslashes at the end have no say in whether it goes on. -/
theorem continues_append_pair (line : List Char) :
    continues (line ++ ['\\', '\\']) = continues line := by
  simp only [continues, List.reverse_append, List.reverse_cons, List.reverse_nil, List.nil_append,
    List.cons_append, beq_self_eq_true, List.takeWhile_cons, ite_true, List.length_cons]
  congr 1
  omega

/-- A line does not go on after an escaped unit. -/
theorem continues_append_escapeUnit (line : List Char) (n : Nat) :
    continues (line ++ escapeUnit n) = false := by
  have hlast : hexDigit (n % 16) ≠ '\\' :=
    (hexDigit_bounds (n % 16) (Nat.mod_lt _ (by omega))).2.2
  obtain ⟨front, hfront⟩ : ∃ front, escapeUnit n = front ++ [hexDigit (n % 16)] :=
    ⟨['\\', 'u', _, _, _], rfl⟩
  rw [hfront, ← List.append_assoc]
  exact continues_concat hlast

/-- A written character does not make a line ask for another one. -/
theorem Written.continues_append {guarded : Bool} {c : Char} {w : List Char}
    (h : Written guarded c w) {line : List Char} (hline : continues line = false) :
    continues (line ++ w) = false := by
  cases h with
  | @escaped d _ _ _ _ =>
      by_cases hd : d = '\\'
      · rw [hd, continues_append_pair, hline]
      · rw [← List.singleton_append, ← List.append_assoc]
        exact continues_concat hd
  | asItself _ _ hback => exact continues_concat hback
  | asUnits =>
      rw [escapeUnits]
      split
      · exact continues_append_escapeUnit line _
      · rw [← List.append_assoc]
        exact continues_append_escapeUnit _ _

/-! ### Whole keys and values -/

/-- A text that was written character by character, all but perhaps the first unguarded. -/
inductive WrittenText : List Char → List Char → Prop
  | nil : WrittenText [] []
  | cons {guarded : Bool} {c : Char} {cs w ws : List Char} :
      Written guarded c w → WrittenText cs ws → WrittenText (c :: cs) (w ++ ws)

/-- Characters escaped one by one are a written text. -/
theorem writtenText_flatMap (guarded : Bool) (cs : List Char) :
    WrittenText cs (cs.flatMap (escapeChar guarded)) := by
  induction cs with
  | nil => exact .nil
  | cons c cs ih => exact .cons (written_escapeChar guarded c) ih

/-- An escaped key is one. -/
theorem writtenText_escapeKey (cs : List Char) : WrittenText cs (escapeKey cs) :=
  writtenText_flatMap true cs

/-- So is an escaped value, the first blanks of which are guarded. -/
theorem writtenText_escapeValue (cs : List Char) : WrittenText cs (escapeValue cs) := by
  cases cs with
  | nil => exact .nil
  | cons c cs => exact .cons (written_escapeChar true c) (writtenText_flatMap false cs)

/-- A written text reads back. -/
theorem WrittenText.unescape {cs ws : List Char} (h : WrittenText cs ws) :
    Properties.unescape ws = .ok cs := by
  induction h with
  | nil => rw [Properties.unescape]
  | cons hw _ ih => rw [hw.unescape_append, ih]; rfl

/-- A written text is printable. -/
theorem WrittenText.printable {cs ws : List Char} (h : WrittenText cs ws) :
    ∀ d ∈ ws, ' ' ≤ d ∧ d ≤ '~' := by
  induction h with
  | nil => simp
  | cons hw _ ih =>
      intro d hd
      rcases List.mem_append.1 hd with hd | hd
      · exact hw.printable d hd
      · exact ih d hd

/-- A line that ends in a written text does not ask for another one, if it did not before. -/
theorem WrittenText.continues_append {cs ws : List Char} (h : WrittenText cs ws)
    {line : List Char} (hline : continues line = false) : continues (line ++ ws) = false := by
  induction h generalizing line with
  | nil => rwa [List.append_nil]
  | cons hw _ ih =>
      rw [← List.append_assoc]
      exact ih (hw.continues_append hline)

/-- A written key ends at the sign behind it. -/
theorem cutKey_escapeKey (key rest : List Char) :
    cutKey (escapeKey key ++ '=' :: rest) = (escapeKey key, '=' :: rest) := by
  induction key with
  | nil => simp [escapeKey, cutKey, isSign]
  | cons c key ih =>
      rw [escapeKey, List.flatMap_cons, List.append_assoc,
        (written_escapeChar true c).cutKey_append, ← escapeKey, ih]

/-- A written value does not begin with a blank. -/
theorem dropWhile_escapeValue (value : List Char) :
    (escapeValue value).dropWhile isBlank = escapeValue value := by
  cases value with
  | nil => rfl
  | cons c value =>
      obtain ⟨d, tail, hw, -, -, hblank⟩ := (written_escapeChar true c).head
      rw [escapeValue, hw, List.cons_append, List.dropWhile_cons, hblank rfl]
      rfl

end ConfigGraft.Properties
