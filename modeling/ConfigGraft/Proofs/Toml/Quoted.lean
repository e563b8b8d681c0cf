import ConfigGraft.Toml.Quoted

/-!
# Strings and keys are read as they were written

A string is written in one of six ways, by the characters that are in it, and each way has a reader
of its own. What makes them fit together is the same everywhere: a character is read from what it is
written as, and the marks that close a string are not met before its end.

Over several lines up to two marks may stand together. The induction carries those that have been
passed but not yet read, since only what comes behind them tells what they are.

## Main results

* `Quoted.readBasic?_escape`, `Quoted.readLiteral?_append` — strings on one line;
* `Quoted.readBasicLines?_escape`, `Quoted.readLiteralLines?_append` — strings over several lines;
* `Quoted.read?_write` — **a string is read as what it was written from;**
* `Key.read?_write` — and so is a key.
-/

namespace ConfigGraft.Toml

namespace Quoted

/-! ### Escapes -/

/-- A control character is read from its hexadecimal digits. -/
theorem ofHex?_hexDigit : ∀ n < 128,
    ofHex? ['0', '0', hexDigit (n / 16), hexDigit (n % 16)] = some (Char.ofNat n) := by
  decide

/-- Control characters are ASCII. -/
theorem toNat_lt_of_isControl {c : Char} (h : isControl c = true) : c.toNat < 128 := by
  simp only [isControl, Bool.or_eq_true, Bool.and_eq_true, decide_eq_true_eq, beq_iff_eq] at h
  omega

/-- What a character other than a quotation mark can be written as: two characters, an escape with
four digits, or itself. -/
inductive Escaped (lines : Bool) (c : Char) : List Char → Prop
  | letter {l : Char} : unescape? l = some c → l ≠ 'u' → l ≠ 'U' → Escaped lines c ['\\', l]
  | digits {x y : Char} :
      ofHex? ['0', '0', x, y] = some c → Escaped lines c ['\\', 'u', '0', '0', x, y]
  | newline : lines = true → c = '\n' → Escaped lines c [c]
  | plain : isControl c = false → c ≠ '\\' → Escaped lines c [c]

/-- What a character is escaped to stands for it. -/
theorem escaped_escapeChar (lines : Bool) (c : Char) : Escaped lines c (escapeChar lines c) := by
  have hletter {l : Char} (h : unescape? l = some c) (hl : l ≠ 'u' ∧ l ≠ 'U') :
      Escaped lines c ['\\', l] := .letter h hl.1 hl.2
  unfold escapeChar
  split
  · exact hletter (by simp [unescape?, *]) (by decide)
  split
  · exact hletter (by simp [unescape?, *]) (by decide)
  split
  · rename_i hnewline
    split
    · exact .newline (by assumption) hnewline
    · exact hletter (by simp [unescape?, *]) (by decide)
  split
  · exact hletter (by simp [unescape?, *]) (by decide)
  split
  · exact hletter (by simp [unescape?, *]) (by decide)
  split
  · exact hletter (by simp [unescape?, *]) (by decide)
  split
  · rename_i hcontrol
    refine .digits ?_
    rw [ofHex?_hexDigit _ (toNat_lt_of_isControl hcontrol), Char.ofNat_toNat]
  · rename_i hslash hcontrol
    exact .plain (by simpa using hcontrol) hslash

/-! ### Strings on one line -/

/-- A written character is read as the character. -/
theorem readBasic?_escapeChar {c : Char} (hquote : c ≠ '"') (cs : List Char) :
    readBasic? (escapeChar false c ++ cs) = consChar c (readBasic? cs) := by
  have hescaped := escaped_escapeChar false c
  generalize escapeChar false c = written at hescaped ⊢
  cases hescaped with
  | letter h hu hU => simp [readBasic?, h, hu, hU]
  | digits h => simp [readBasic?, h]
  | newline hlines => cases hlines
  | plain hcontrol hslash => simp [readBasic?, hslash, hcontrol]

/-- **A string with escapes is read up to its closing mark.** -/
theorem readBasic?_escape (run : Nat) (cs rest : List Char) :
    readBasic? (escape false run cs ++ '"' :: rest) = some (cs, rest) := by
  induction cs generalizing run with
  | nil => simp [escape, readBasic?]
  | cons c cs ih =>
      rw [escape]
      split
      · rename_i hquote
        simp [readBasic?, unescape?, ih, consChar, hquote]
      · rename_i hquote
        rw [List.append_assoc, readBasic?_escapeChar hquote, ih]
        rfl

/-- **A string without escapes is read up to its closing mark.** -/
theorem readLiteral?_append {cs : List Char} (hmark : '\x27' ∉ cs)
    (hcontrol : ∀ c ∈ cs, isControl c = false) (rest : List Char) :
    readLiteral? (cs ++ '\x27' :: rest) = some (cs, rest) := by
  induction cs with
  | nil => simp [readLiteral?]
  | cons c cs ih =>
      obtain ⟨hc, hcs⟩ := not_or.1 (mt List.mem_cons.2 hmark)
      obtain ⟨hplain, hrest⟩ := List.forall_mem_cons.1 hcontrol
      simp [readLiteral?, Ne.symm hc, hplain, ih hcs hrest, consChar]

/-! ### Strings over several lines -/

/-- Puts characters before the text that was read. -/
def consAll (front : List Char) : ReadText → ReadText :=
  Option.map fun (content, rest) => (front ++ content, rest)

/-- No character in front changes nothing. -/
theorem consAll_nil (r : ReadText) : consAll [] r = r := by
  cases r <;> rfl

/-- Characters go in front one by one. -/
theorem consAll_cons (c : Char) (front : List Char) (r : ReadText) :
    consAll (c :: front) r = consChar c (consAll front r) := by
  cases r <;> rfl

/-- A character that ends no line is no break. -/
theorem atBreak_eq_false {c : Char} (hnewline : c ≠ '\n') (hreturn : c ≠ '\r') (cs : List Char) :
    atBreak (c :: cs) = false := by
  simp [atBreak, hnewline, hreturn]

/-- A character that is not a control is none of the controls. -/
theorem ne_of_isControl {c d : Char} (h : isControl c = false) (hd : isControl d = true) :
    c ≠ d := by
  rintro rfl
  rw [h] at hd
  cases hd

/-- A written character is read as the character. -/
theorem readBasicLines?_escapeChar {c : Char} (hquote : c ≠ '"') (cs : List Char) :
    readBasicLines? (escapeChar true c ++ cs) false = consChar c (readBasicLines? cs false) := by
  have hescaped := escaped_escapeChar true c
  generalize escapeChar true c = written at hescaped ⊢
  cases hescaped with
  | letter h hu hU => simp [readBasicLines?, h, hu, hU]
  | digits h => simp [readBasicLines?, h]
  | newline _ hc => simp [readBasicLines?, hc]
  | plain hcontrol hslash =>
      have hnewline := ne_of_isControl hcontrol (d := '\n') (by decide)
      have hreturn := ne_of_isControl hcontrol (d := '\r') (by decide)
      simp [readBasicLines?, hslash, hcontrol, hquote, hnewline, atBreak_eq_false hnewline hreturn]

/-- A mark that two more do not follow is read as itself. -/
theorem readBasicLines?_mark {cs : List Char} (h : ∀ rest, cs ≠ '"' :: '"' :: rest) :
    readBasicLines? ('"' :: cs) false = consChar '"' (readBasicLines? cs false) := by
  have hplain : isControl '"' = false := by decide
  simp [readBasicLines?, h, hplain, atBreak]

/-- A mark that two more do not follow is read as text. -/
theorem readLiteralLines?_mark {cs : List Char} (h : ∀ rest, cs ≠ '\x27' :: '\x27' :: rest) :
    readLiteralLines? ('\x27' :: cs) = consChar '\x27' (readLiteralLines? cs) := by
  have hplain : isControl '\x27' = false := by decide
  simp [readLiteralLines?, h, hplain, atBreak]

/-- Up to two marks are read as themselves, if no mark follows and one that two more do not follow
is read so. -/
theorem read_replicate {mark : Char} {read : List Char → ReadText}
    (hread : ∀ cs, (∀ rest, cs ≠ mark :: mark :: rest) →
      read (mark :: cs) = consChar mark (read cs))
    {run : Nat} (hrun : run ≤ 2) {c : Char} (hc : c ≠ mark) (cs : List Char) :
    read (List.replicate run mark ++ c :: cs) =
      consAll (List.replicate run mark) (read (c :: cs)) := by
  obtain rfl | rfl | rfl : run = 0 ∨ run = 1 ∨ run = 2 := by omega
  · exact (consAll_nil _).symm
  · rw [List.replicate_one, consAll_cons, consAll_nil]
    exact hread _ (by simp [hc])
  · have htwo : List.replicate 2 mark = [mark, mark] := rfl
    rw [htwo, consAll_cons, consAll_cons, consAll_nil, List.cons_append, List.cons_append,
      List.nil_append, hread _ (by simp [hc]), hread _ (by simp [hc])]

/-- Up to two marks may stand before the three that close a string with escapes. -/
theorem readBasicLines?_close {run : Nat} (hrun : run ≤ 2) {rest : List Char}
    (hrest : rest.head? ≠ some '"') :
    readBasicLines? (List.replicate run '"' ++ '"' :: '"' :: '"' :: rest) false =
      some (List.replicate run '"', rest) := by
  have hnext (more : List Char) : rest ≠ '"' :: more := fun h => hrest (by rw [h]; rfl)
  obtain rfl | rfl | rfl : run = 0 ∨ run = 1 ∨ run = 2 := by omega
  · simp [readBasicLines?, hnext]
  · simp [readBasicLines?]
  · simp [readBasicLines?, List.replicate]

/-- Up to two marks may stand before the three that close a string without escapes. -/
theorem readLiteralLines?_close {run : Nat} (hrun : run ≤ 2) {rest : List Char}
    (hrest : rest.head? ≠ some '\x27') :
    readLiteralLines? (List.replicate run '\x27' ++ '\x27' :: '\x27' :: '\x27' :: rest) =
      some (List.replicate run '\x27', rest) := by
  have hnext (more : List Char) : rest ≠ '\x27' :: more := fun h => hrest (by rw [h]; rfl)
  obtain rfl | rfl | rfl : run = 0 ∨ run = 1 ∨ run = 2 := by omega
  · simp [readLiteralLines?, hnext]
  · simp [readLiteralLines?]
  · simp [readLiteralLines?, List.replicate]

/-- What a character other than a quotation mark is written as does not begin with one. -/
theorem exists_escapeChar {c : Char} (hquote : c ≠ '"') (lines : Bool) :
    ∃ d ds, d ≠ '"' ∧ escapeChar lines c = d :: ds := by
  have hescaped := escaped_escapeChar lines c
  generalize escapeChar lines c = written at hescaped ⊢
  cases hescaped with
  | letter => exact ⟨_, _, by decide, rfl⟩
  | digits => exact ⟨_, _, by decide, rfl⟩
  | newline => exact ⟨_, _, hquote, rfl⟩
  | plain => exact ⟨_, _, hquote, rfl⟩

/-- **A string with escapes over several lines is read up to its closing marks.** -/
theorem readBasicLines?_escape {run : Nat} (hrun : run ≤ 2) (cs : List Char) {rest : List Char}
    (hrest : rest.head? ≠ some '"') :
    readBasicLines? (List.replicate run '"' ++
        (escape true run cs ++ '"' :: '"' :: '"' :: rest)) false =
      some (List.replicate run '"' ++ cs, rest) := by
  have hflush {run : Nat} (hrun : run ≤ 2) {c : Char} (hc : c ≠ '"') (cs : List Char) :
      readBasicLines? (List.replicate run '"' ++ c :: cs) false =
        consAll (List.replicate run '"') (readBasicLines? (c :: cs) false) :=
    @read_replicate '"' (readBasicLines? · false) (fun _ => readBasicLines?_mark) run hrun c hc cs
  induction cs generalizing run with
  | nil =>
      rw [escape, List.nil_append, readBasicLines?_close hrun hrest, List.append_nil]
  | cons c cs ih =>
      rw [escape]
      split
      · rename_i hquote
        subst hquote
        split
        · -- One more mark has been passed.
          rename_i hfew
          have hmore := @ih (run + 1) (by omega)
          rw [List.replicate_succ', List.append_assoc, List.append_assoc] at hmore
          exact hmore
        · -- After two marks the third one is written as an escape.
          have hnone := @ih 0 (by omega)
          rw [List.replicate_zero, List.nil_append, List.nil_append] at hnone
          rw [List.cons_append, List.cons_append, hflush hrun (by decide)]
          simp [readBasicLines?, unescape?, hnone, consChar, consAll]
      · rename_i hquote
        have hnone := @ih 0 (by omega)
        rw [List.replicate_zero, List.nil_append, List.nil_append] at hnone
        obtain ⟨d, ds, hd, hwritten⟩ := exists_escapeChar hquote true
        have hread := readBasicLines?_escapeChar hquote
          (escape true 0 cs ++ '"' :: '"' :: '"' :: rest)
        rw [hwritten, List.cons_append] at hread
        rw [hwritten, List.append_assoc, List.cons_append, hflush hrun hd, hread, hnone]
        rfl

/-- The longest run is at least the one at hand. -/
theorem le_longestRun (mark : Char) (run : Nat) (cs : List Char) :
    run ≤ longestRun mark run cs := by
  induction cs generalizing run with
  | nil => exact Nat.le_refl run
  | cons c cs ih =>
      rw [longestRun]
      split
      · exact Nat.le_of_succ_le (ih (run + 1))
      · exact Nat.le_max_left ..

/-- A text that needs no escapes has no control in front but the newline, and its rest needs none.
-/
theorem isControl_of_needsEscapes {c : Char} {cs : List Char}
    (h : needsEscapes (c :: cs) = false) :
    (c ≠ '\n' → isControl c = false) ∧ needsEscapes cs = false := by
  simp only [needsEscapes, List.any_cons, Bool.or_eq_false_iff, Bool.and_eq_false_iff,
    bne_eq_false_iff_eq] at h
  exact ⟨fun hnewline => h.1.resolve_right hnewline, h.2⟩

/-- A character that needs no escape is read as itself. -/
theorem readLiteralLines?_plain {c : Char} (hmark : c ≠ '\x27')
    (hplain : c ≠ '\n' → isControl c = false) (cs : List Char) :
    readLiteralLines? (c :: cs) = consChar c (readLiteralLines? cs) := by
  by_cases hnewline : c = '\n'
  · simp [readLiteralLines?, hnewline]
  · have hcontrol := hplain hnewline
    have hreturn := ne_of_isControl hcontrol (d := '\r') (by decide)
    simp [readLiteralLines?, hmark, hnewline, hcontrol, atBreak_eq_false hnewline hreturn]

/-- **A string without escapes over several lines is read up to its closing marks.** -/
theorem readLiteralLines?_append {run : Nat} {cs : List Char}
    (hfew : longestRun '\x27' run cs ≤ 2) (hescapes : needsEscapes cs = false) {rest : List Char}
    (hrest : rest.head? ≠ some '\x27') :
    readLiteralLines? (List.replicate run '\x27' ++
        (cs ++ '\x27' :: '\x27' :: '\x27' :: rest)) =
      some (List.replicate run '\x27' ++ cs, rest) := by
  have hrun := Nat.le_trans (le_longestRun _ _ _) hfew
  induction cs generalizing run with
  | nil =>
      rw [List.nil_append, List.append_nil]
      exact readLiteralLines?_close hrun hrest
  | cons c cs ih =>
      obtain ⟨hplain, hescapes'⟩ := isControl_of_needsEscapes hescapes
      rw [longestRun] at hfew
      split at hfew
      · -- One more mark has been passed.
        rename_i hmark
        subst hmark
        have hmore := ih hfew hescapes' (Nat.le_trans (le_longestRun _ _ _) hfew)
        rw [List.replicate_succ', List.append_assoc, List.append_assoc] at hmore
        exact hmore
      · rename_i hmark
        have hnone := ih (Nat.le_trans (Nat.le_max_right ..) hfew) hescapes' (Nat.zero_le 2)
        rw [List.replicate_zero, List.nil_append, List.nil_append] at hnone
        rw [List.cons_append, read_replicate (fun _ => readLiteralLines?_mark) hrun hmark,
          readLiteralLines?_plain hmark hplain, hnone]
        rfl

/-! ### Strings of any kind -/

/-- After one double mark follows the basic form, unless two more marks follow. -/
theorem read?_basic {cs : List Char} (h : ∀ rest, cs ≠ '"' :: '"' :: rest) :
    read? ('"' :: cs) = readBasic? cs := by
  simp [read?]

/-- After one single mark follows the literal form, unless two more follow. -/
theorem read?_literal {cs : List Char} (h : ∀ rest, cs ≠ '\x27' :: '\x27' :: rest) :
    read? ('\x27' :: cs) = readLiteral? cs := by
  simp [read?]

/-- The line break behind the opening marks does not count, and what follows does not begin with
one that would be dropped in its place. -/
theorem dropBreak_opening {cs text : List Char}
    (h : '\n' ∉ cs → text.head? ≠ some '\n' ∧ text.head? ≠ some '\r') :
    dropBreak ((if cs.contains '\n' then ['\n'] else []) ++ text) = text := by
  by_cases hnewline : '\n' ∈ cs
  · simp [hnewline, dropBreak]
  · obtain ⟨hfirst, hsecond⟩ := h hnewline
    rw [if_neg (by simpa using hnewline), List.nil_append]
    cases text with
    | nil => rfl
    | cons c text =>
        have hc : c ≠ '\n' ∧ c ≠ '\r' := by simpa using And.intro hfirst hsecond
        simp [dropBreak, hc]

/-- What a text is written as with escapes begins with a line break only if the text does. -/
theorem head?_escape {cs tail : List Char} (h : '\n' ∉ cs) :
    (escape true 0 cs ++ '"' :: tail).head? ≠ some '\n' ∧
      (escape true 0 cs ++ '"' :: tail).head? ≠ some '\r' := by
  cases cs with
  | nil => simp [escape]
  | cons c cs =>
      rw [escape]
      split
      · rename_i hquote
        simp [hquote]
      · have hescaped := escaped_escapeChar true c
        generalize escapeChar true c = written at hescaped ⊢
        cases hescaped with
        | letter => simp
        | digits => simp
        | newline _ hc => exact absurd (List.mem_cons.2 (.inl hc.symm)) h
        | plain hcontrol =>
            have hnewline := ne_of_isControl hcontrol (d := '\n') (by decide)
            have hreturn := ne_of_isControl hcontrol (d := '\r') (by decide)
            simp [hnewline, hreturn]

/-- A literal on one line does not begin with the end of a line. -/
theorem head?_literal {cs tail : List Char} (h : '\n' ∉ cs) (hescapes : needsEscapes cs = false) :
    (cs ++ '\x27' :: tail).head? ≠ some '\n' ∧ (cs ++ '\x27' :: tail).head? ≠ some '\r' := by
  cases cs with
  | nil => simp
  | cons c cs =>
      have hc : c ≠ '\n' := fun heq => h (List.mem_cons.2 (.inl heq.symm))
      have hcontrol := (isControl_of_needsEscapes hescapes).1 hc
      have hreturn := ne_of_isControl hcontrol (d := '\r') (by decide)
      simp [hc, hreturn]

section

variable {rest : List Char} (hquote : rest.head? ≠ some '"') (hmark : rest.head? ≠ some '\x27')

include hquote in
/-- A text in the basic form is read back. -/
theorem read?_enclose_escape (cs : List Char) :
    read? (enclose ['"'] (escape false 0 cs) ++ rest) = some (cs, rest) := by
  have hnot (more : List Char) : escape false 0 cs ++ '"' :: rest ≠ '"' :: '"' :: more := by
    cases cs with
    | nil =>
        intro heq
        rw [(List.cons.inj heq).2] at hquote
        exact hquote rfl
    | cons c cs =>
        intro heq
        rw [escape] at heq
        split at heq
        · simp at heq
        · rename_i hc
          obtain ⟨d, ds, hd, hwritten⟩ := exists_escapeChar hc false
          rw [hwritten] at heq
          exact hd (List.cons.inj heq).1
  have htext : enclose ['"'] (escape false 0 cs) ++ rest =
      '"' :: (escape false 0 cs ++ '"' :: rest) := by
    simp [enclose]
  rw [htext, read?_basic hnot, readBasic?_escape]

include hmark in
/-- One in the literal form is, if it has neither the mark nor a control in it. -/
theorem read?_enclose {cs : List Char} (hcs : '\x27' ∉ cs)
    (hcontrol : ∀ c ∈ cs, isControl c = false) :
    read? (enclose ['\x27'] cs ++ rest) = some (cs, rest) := by
  have hnot (more : List Char) : cs ++ '\x27' :: rest ≠ '\x27' :: '\x27' :: more := by
    cases cs with
    | nil =>
        intro heq
        rw [(List.cons.inj heq).2] at hmark
        exact hmark rfl
    | cons c cs =>
        intro heq
        exact hcs (List.mem_cons.2 (.inl (List.cons.inj heq).1.symm))
  have htext : enclose ['\x27'] cs ++ rest = '\x27' :: (cs ++ '\x27' :: rest) := by
    simp [enclose]
  rw [htext, read?_literal hnot, readLiteral?_append hcs hcontrol]

include hquote in
/-- One in the basic form of many lines is read back. -/
theorem read?_encloseLines_escape (cs : List Char) :
    read? (encloseLines '"' cs (escape true 0 cs) ++ rest) = some (cs, rest) := by
  have htext : encloseLines '"' cs (escape true 0 cs) ++ rest = '"' :: '"' :: '"' ::
      ((if cs.contains '\n' then ['\n'] else []) ++
        (escape true 0 cs ++ '"' :: '"' :: '"' :: rest)) := by
    simp [encloseLines]
  rw [htext, read?, dropBreak_opening fun h => head?_escape h]
  exact readBasicLines?_escape (Nat.zero_le 2) cs hquote

include hmark in
/-- One in the literal form of many lines is, if it has no run of three marks and needs no escapes.
-/
theorem read?_encloseLines {cs : List Char} (hfew : longestRun '\x27' 0 cs ≤ 2)
    (hescapes : needsEscapes cs = false) :
    read? (encloseLines '\x27' cs cs ++ rest) = some (cs, rest) := by
  have htext : encloseLines '\x27' cs cs ++ rest = '\x27' :: '\x27' :: '\x27' ::
      ((if cs.contains '\n' then ['\n'] else []) ++
        (cs ++ '\x27' :: '\x27' :: '\x27' :: rest)) := by
    simp [encloseLines]
  rw [htext, read?, dropBreak_opening fun h => head?_literal h hescapes]
  exact readLiteralLines?_append hfew hescapes hmark

include hquote hmark in
/-- **A string is read as what it was written from.** -/
theorem read?_write (cs : List Char) : read? (write cs ++ rest) = some (cs, rest) := by
  unfold write
  extract_lets bare
  split
  · exact read?_enclose_escape hquote cs
  split
  · rename_i hplain
    simp only [Bool.and_eq_true, Bool.not_eq_true', List.contains_eq_mem, decide_eq_false_iff_not,
      needsEscapes, List.any_eq_false] at hplain
    obtain ⟨⟨hescapes, hcs⟩, hnewline⟩ := hplain
    refine read?_enclose hmark hcs fun c hc => ?_
    have hne : c ≠ '\n' := fun heq => hnewline (heq ▸ hc)
    simpa [hne] using hescapes c hc
  split
  · exact read?_encloseLines_escape hquote cs
  split
  · rename_i hplain
    simp only [Bool.and_eq_true, Bool.not_eq_true', decide_eq_true_eq] at hplain
    exact read?_encloseLines hmark hplain.2 hplain.1
  split
  · exact read?_encloseLines_escape hquote cs
  · exact read?_enclose_escape hquote cs

end

end Quoted

/-! ### Keys -/

namespace Key

open Quoted

/-- **A key is read as what it was written from,** up to where it cannot go on. -/
theorem read?_write (cs : List Char) {d : Char} (hstop : isBareChar d = false)
    (rest : List Char) : read? (write cs ++ d :: rest) = some (cs, d :: rest) := by
  have hbasic (rest : List Char) :
      read? (enclose ['"'] (escape false 0 cs) ++ rest) = some (cs, rest) := by
    have htext : enclose ['"'] (escape false 0 cs) ++ rest =
        '"' :: (escape false 0 cs ++ '"' :: rest) := by
      simp [enclose]
    rw [htext, read?, readBasic?_escape]
  rw [write]
  split
  · rename_i hbare
    simp only [Bool.and_eq_true, Bool.not_eq_true', List.isEmpty_eq_false_iff, List.all_eq_true]
      at hbare
    obtain ⟨hne, hall⟩ := hbare
    obtain ⟨c, cs, rfl⟩ := List.exists_cons_of_ne_nil hne
    have hc := hall c List.mem_cons_self
    have hquote : c ≠ '"' := by
      rintro rfl
      revert hc
      decide
    have hmark : c ≠ '\x27' := by
      rintro rfl
      revert hc
      decide
    have hread : read? (c :: cs ++ d :: rest) =
        if ((c :: cs ++ d :: rest).takeWhile isBareChar).isEmpty then none
        else some ((c :: cs ++ d :: rest).takeWhile isBareChar,
          (c :: cs ++ d :: rest).dropWhile isBareChar) := by
      simp [read?, hquote, hmark]
    rw [hread, List.takeWhile_append_of_pos hall, List.dropWhile_append_of_pos hall,
      List.takeWhile_cons_of_neg (by simp [hstop]), List.dropWhile_cons_of_neg (by simp [hstop]),
      List.append_nil]
    rfl
  split
  · exact hbasic _
  split
  · rename_i hplain
    simp only [Bool.and_eq_true, Bool.not_eq_true', List.contains_eq_mem, decide_eq_false_iff_not,
      List.any_eq_false] at hplain
    have htext : enclose ['\x27'] cs ++ d :: rest = '\x27' :: (cs ++ '\x27' :: d :: rest) := by
      simp [enclose]
    rw [htext, read?, readLiteral?_append hplain.2]
    simpa using hplain.1
  · exact hbasic _

/-- A written key begins with none of the characters that a line with something else than a key
begins with. -/
theorem exists_write (cs : List Char) : ∃ c ds, write cs = c :: ds ∧
    c ∉ [' ', '\t', '\n', '\r', '[', '#', '\ufeff'] := by
  rw [write]
  split
  · rename_i hbare
    simp only [Bool.and_eq_true, Bool.not_eq_true', List.isEmpty_eq_false_iff, List.all_eq_true]
      at hbare
    obtain ⟨c, ds, rfl⟩ := List.exists_cons_of_ne_nil hbare.1
    refine ⟨c, ds, rfl, fun hmem => ?_⟩
    have hnone : [' ', '\t', '\n', '\r', '[', '#', '\ufeff'].any isBareChar = false := by decide
    exact List.any_eq_false.1 hnone c hmem (hbare.2 c List.mem_cons_self)
  split
  · exact ⟨_, _, rfl, by decide⟩
  split
  · exact ⟨_, _, rfl, by decide⟩
  · exact ⟨_, _, rfl, by decide⟩

end Key

end ConfigGraft.Toml
