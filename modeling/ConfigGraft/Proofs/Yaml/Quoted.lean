import ConfigGraft.Proofs.Yaml.Character

/-!
# Quoted scalars are read as they were written

Between single quotes a text stands as it is, but that quotes are written twice and that lines are
indented. Blanks around a line break would be lost in this, so there must be none. Between double
quotes whatever could be lost is escaped.

Blanks and breaks are held back by the reader until it has seen what follows them. The inductions
carry them along: what is held back and what is still to be read are together a part of the text.

## Main results

* `Quoted.readSingle?_singleText` — a text between single quotes is read back;
* `Quoted.readDouble?_doubleText` — a text between double quotes is read back.
-/

namespace ConfigGraft.Yaml

open Style

/-! ### Neighbours in a text -/

namespace Style

variable {p q : Char → Bool}

/-- Neighbours in the rest are neighbours in the whole. -/
theorem hasNeighbours_of_append {front cs : List Char}
    (h : hasNeighbours p q (front ++ cs) = false) : hasNeighbours p q cs = false := by
  induction front with
  | nil => exact h
  | cons a front ih =>
      refine ih ?_
      rw [List.cons_append] at h
      cases hmore : front ++ cs with
      | nil => rfl
      | cons b more =>
          rw [hmore, hasNeighbours, Bool.or_eq_false_iff] at h
          exact h.2

/-- Where no neighbours are, what follows the one kind is not of the other. -/
theorem not_neighbours {front cs : List Char} {a b : Char}
    (h : hasNeighbours p q (front ++ a :: b :: cs) = false) (ha : p a = true) : q b = false := by
  have hhead := hasNeighbours_of_append h
  rw [hasNeighbours, Bool.or_eq_false_iff, ha, Bool.true_and] at hhead
  exact hhead.1

end Style

namespace Quoted

/-! ### Single quotes -/

/-- What the reader holds back of a text: spaces within a line, or breaks other than line feeds. -/
inductive Held : Bool → Gap → List Char → Prop
  | within {front : List Char} : (∀ c ∈ front, c = ' ') → Held false { blanks := front } front
  | across {front : List Char} :
      front ≠ [] → (∀ c ∈ front, endsLine c = true ∧ c ≠ '\n') → Held true { breaks := front } front

/-- At first nothing is held back. -/
theorem held_nil : Held false {} [] := .within (List.forall_mem_nil _)

/-- What is held back comes to the text in the end. -/
theorem Held.text_eq {broken : Bool} {gap : Gap} {front : List Char} (h : Held broken gap front) :
    gap.text = front := by
  cases h with
  | within => rfl
  | across hne hbreaks =>
      cases front with
      | nil => exact absurd rfl hne
      | cons a more =>
          have hfeed : a ≠ '\n' := (hbreaks a List.mem_cons_self).2
          simp [Gap.text, hfeed]

/-- No break of a text stands beside a space. -/
structure Tight (cs : List Char) : Prop where
  after : hasNeighbours endsLine (· == ' ') cs = false
  before : hasNeighbours (· == ' ') endsLine cs = false

/-- The rest of a tight text is tight. -/
theorem Tight.of_append {front cs : List Char} (h : Tight (front ++ cs)) : Tight cs :=
  ⟨hasNeighbours_of_append h.after, hasNeighbours_of_append h.before⟩

/-- What is allowed between single quotes. -/
theorem of_singleAllowed {cs : List Char} (h : singleAllowed cs = true) :
    (∀ c ∈ cs, isPrintable c = true) ∧ Tight cs := by
  rw [singleAllowed, Bool.and_eq_true, Bool.and_eq_true, List.all_eq_true, Bool.not_eq_true',
    Bool.not_eq_true'] at h
  exact ⟨h.1.1, h.1.2, h.2⟩

/-- Behind breaks that are held back there is no space. -/
theorem Tight.ne_space {front cs : List Char} {gap : Gap} {c : Char}
    (h : Tight (front ++ c :: cs)) (hheld : Held true gap front) : c ≠ ' ' := by
  cases hheld with
  | across hne hbreaks =>
      obtain ⟨more, a, rfl⟩ := (List.eq_nil_or_concat front).resolve_left hne
      rw [List.concat_eq_append, List.append_assoc] at h
      have hspace := not_neighbours h.after (hbreaks a (by simp)).1
      exact beq_eq_false_iff_ne.1 hspace

/-- Before a break no space is held back. -/
theorem Tight.eq_nil {front cs : List Char} {gap : Gap} {c : Char}
    (h : Tight (front ++ c :: cs)) (hheld : Held false gap front) (hc : endsLine c = true) :
    front = [] := by
  cases hheld with
  | within hspaces =>
      rcases List.eq_nil_or_concat front with hnil | ⟨more, a, rfl⟩
      · exact hnil
      · rw [List.concat_eq_append, List.append_assoc] at h
        have hspace := beq_iff_eq.2 (hspaces a (by simp))
        rw [not_neighbours h.before hspace] at hc
        cases hc

/-- A break is held back. -/
theorem Held.addBreak {broken : Bool} {gap : Gap} {front cs : List Char} {c : Char}
    (h : Held broken gap front) (htight : Tight (front ++ c :: cs)) (hc : endsLine c = true)
    (hfeed : c ≠ '\n') : Held true (gap.addBreak c) (front ++ [c]) := by
  cases broken with
  | false =>
      obtain rfl := htight.eq_nil h hc
      cases h with
      | within => exact .across (List.cons_ne_nil _ _) (List.forall_mem_singleton.2 ⟨hc, hfeed⟩)
  | true =>
      cases h with
      | across hne hbreaks =>
          refine .across (by simp) (List.forall_mem_append.2 ⟨hbreaks, ?_⟩)
          exact List.forall_mem_singleton.2 ⟨hc, hfeed⟩

/-- A space within a line is held back. -/
theorem Held.addBlank {gap : Gap} {front : List Char} (h : Held false gap front) :
    Held false (gap.addBlank ' ') (front ++ [' ']) := by
  cases h with
  | within hspaces =>
      exact .within (List.forall_mem_append.2 ⟨hspaces, List.forall_mem_singleton.2 rfl⟩)

/-- A gap with breaks in it crosses lines. -/
theorem Held.crosses {gap : Gap} {front : List Char} (h : Held true gap front) :
    gap.crosses = true := by
  cases h with
  | across hne => simpa [Gap.crosses] using hne

/-- Spaces at the start of a line do not count. -/
theorem readSingle?_spaces {gap : Gap} (hcrosses : gap.crosses = true) (n : Nat) (rest : List Char)
    (line column : Nat) :
    readSingle? (spaces n ++ rest) line column (.text gap) =
      readSingle? rest line (column + n) (.text gap) := by
  induction n generalizing column with
  | zero => rfl
  | succ n ih =>
      have hspaces : spaces (n + 1) ++ rest = ' ' :: (spaces n ++ rest) := rfl
      have hblank : isBlank ' ' = true := by decide
      rw [hspaces, readSingle?, if_pos hblank, Gap.addBlank, if_pos hcrosses, ih]
      congr 1
      omega

/-- The indentation of a line does not count. -/
theorem readSingle?_indentation {broken : Bool} {gap : Gap} {front : List Char}
    (hheld : Held broken gap front) (indent : Nat) (rest : List Char) (line column : Nat) :
    readSingle? ((if broken then spaces indent else []) ++ rest) line column (.text gap) =
      readSingle? rest line (column + if broken then indent else 0) (.text gap) := by
  cases broken with
  | false => rfl
  | true => exact readSingle?_spaces hheld.crosses indent rest line column

/-- A quote closes the text, if there is not another one behind it. -/
theorem readSingle?_close {tail : List Char} (htail : tail.head? ≠ some '\x27') {gap : Gap}
    {line column : Nat} :
    readSingle? ('\x27' :: tail) line column (.text gap) =
      some (gap.text, ⟨tail, line, column + 1⟩) := by
  have hblank : isBlank '\x27' = false := by decide
  have hbreak : isBreak '\x27' = false := by decide
  have hmark : ¬ (column = 0 ∧ isDocumentMark ('\x27' :: tail) = true) := by
    rintro ⟨-, h⟩
    cases h
  have hquote : readSingle? tail line (column + 1) .quote =
      some ([], ⟨tail, line, column + 1⟩) := by
    cases tail with
    | nil => rfl
    | cons c tail =>
        have hc : c ≠ '\x27' := fun heq => htail (congrArg some heq)
        rw [readSingle?, if_neg hc]
  rw [readSingle?, if_neg (by simp [hblank]), if_neg (by simp [hbreak]), if_neg hmark, if_pos rfl,
    hquote]
  simp [prepend]

/-- A character that is neither blank nor a break is read from what it is written as. -/
theorem readSingle?_char {c : Char} (hblank : isBlank c = false) (hbreak : isBreak c = false)
    {gap : Gap} {line column : Nat} (hcolumn : 0 < column) (rest : List Char) :
    readSingle? ((if c = '\x27' then [c, c] else [c]) ++ rest) line column (.text gap) =
      prepend (gap.text ++ [c]) (readSingle? rest line
        (column + (if c = '\x27' then [c, c] else [c]).length) (.text {})) := by
  have hmark {cs : List Char} : ¬ (column = 0 ∧ isDocumentMark cs = true) := by omega
  split
  · rename_i hquote
    have hagain : readSingle? (c :: rest) line (column + 1) .quote =
        prepend [c] (readSingle? rest line (column + 2) (.text {})) := by
      rw [readSingle?, if_pos hquote]
    rw [List.cons_append, readSingle?, if_neg (by simp [hblank]), if_neg (by simp [hbreak]),
      if_neg hmark, if_pos hquote]
    refine (congrArg _ hagain).trans ?_
    simp [prepend, Function.comp_def]
  · rename_i hquote
    rw [List.cons_append, readSingle?, if_neg (by simp [hblank]), if_neg (by simp [hbreak]),
      if_neg hmark, if_neg hquote]
    rfl

/-- **A text between single quotes is read back.** Within one line the reader goes on by as many
columns as were written. -/
theorem readSingle?_singleText {indent : Nat} (hindent : 0 < indent) (tail : List Char)
    (htail : tail.head? ≠ some '\x27') {cs front : List Char} {broken : Bool} {gap : Gap}
    (line column : Nat) (hheld : Held broken gap front) (hcolumn : broken = false → 0 < column)
    (hprintable : ∀ c ∈ cs, isPrintable c = true) (hfeed : '\n' ∉ cs)
    (htight : Tight (front ++ cs)) :
    ∃ line' column', readSingle? (singleText indent broken cs ++ '\x27' :: tail) line column
        (.text gap) = some (front ++ cs, ⟨tail, line', column'⟩) ∧ line ≤ line' ∧
      (broken = false → cs.any endsLine = false →
        line' = line ∧ column' = column + (singleText indent false cs).length + 1) := by
  induction cs generalizing front broken gap line column with
  | nil =>
      refine ⟨line, column + (if broken then indent else 0) + 1, ?_, Nat.le_refl _, ?_⟩
      · rw [List.append_nil, ← hheld.text_eq, singleText, readSingle?_indentation hheld]
        exact readSingle?_close htail
      · rintro rfl -
        exact ⟨rfl, rfl⟩
  | cons c cs ih =>
      obtain ⟨hc, hcs⟩ := List.forall_mem_cons.1 hprintable
      obtain ⟨hcfeed, hmore⟩ := not_or.1 (mt List.mem_cons.2 hfeed)
      have happend : front ++ c :: cs = (front ++ [c]) ++ cs := by simp
      rw [singleText]
      by_cases hends : endsLine c = true
      · -- A break begins a new line, whatever was before it.
        have hblank : isBlank c = false := isBlank_of_endsLine hc hends
        obtain ⟨line', column', hread, hline, -⟩ := ih (line + 1) 0
          (hheld.addBreak htight hends (Ne.symm hcfeed)) nofun hcs hmore (happend ▸ htight)
        refine ⟨line', column', ?_, by omega, fun _ hnone => by simp [hends] at hnone⟩
        rw [if_pos hends, if_neg (fun h => hcfeed h.1.symm), happend, ← hread, List.append_assoc,
          List.singleton_append, readSingle?, if_neg (by simp [hblank]),
          if_pos (isBreak_eq hc ▸ hends)]
      · by_cases hspace : c = ' '
        · subst hspace
          cases broken with
          | true => exact absurd rfl (htight.ne_space hheld)
          | false =>
              obtain ⟨line', column', hread, hline, hplace⟩ := ih line (column + 1)
                hheld.addBlank (fun _ => Nat.succ_pos _) hcs hmore
                (happend ▸ htight)
              refine ⟨line', column', ?_, hline, fun _ hnone => ?_⟩
              · rw [if_neg hends, if_pos rfl, happend, ← hread, List.cons_append, readSingle?,
                  if_pos (by decide)]
              · obtain ⟨hline, hcolumn⟩ := hplace rfl (Bool.or_eq_false_iff.1 hnone).2
                rw [singleText, if_neg hends, if_pos rfl, List.length_cons]
                omega
        · -- What was held back is settled by a character that is neither.
          obtain ⟨hblank, hbreak⟩ := not_gap_of_isPrintable hc (eq_false_of_ne_true hends) hspace
          have hpositive : 0 < column + if broken then indent else 0 := by
            cases broken with
            | false => exact hcolumn rfl
            | true => exact Nat.add_pos_right column hindent
          have hcharpositive : 0 < column + (if broken then indent else 0) +
              (if c = '\x27' then [c, c] else [c]).length := by omega
          rw [happend] at htight
          obtain ⟨line', column', hread, hline, hplace⟩ := ih line _ held_nil
            (fun _ => hcharpositive) hcs hmore htight.of_append
          refine ⟨line', column', ?_, hline, fun hbroken hnone => ?_⟩
          · rw [if_neg hends, if_neg hspace, List.append_assoc, List.append_assoc,
              readSingle?_indentation hheld, readSingle?_char hblank hbreak hpositive, hread,
              hheld.text_eq, happend]
            simp [prepend]
          · subst hbroken
            obtain ⟨hline, hcolumn⟩ := hplace rfl (Bool.or_eq_false_iff.1 hnone).2
            rw [singleText, if_neg hends, if_neg hspace]
            simp only [Bool.false_eq_true, if_false, List.nil_append, List.length_append]
            simp only [Bool.false_eq_true, if_false] at hcolumn
            omega

/-! ### Double quotes -/

/-- A code is written in as many digits as are asked for. -/
@[simp] theorem length_hexDigits (count n : Nat) : (hexDigits count n).length = count := by
  induction count generalizing n with
  | zero => rfl
  | succ count ih => rw [hexDigits, List.length_append, ih, List.length_singleton]

/-- How many numbers can be told apart by so many digits. -/
def hexSpan : Nat → Nat
  | 0 => 1
  | count + 1 => 16 * hexSpan count

/-- A hexadecimal digit that is written is read back. -/
theorem hexDigit?_upperHexDigit : ∀ n < 16, hexDigit? (upperHexDigit n) = some n := by decide

/-- Digits are read as the number that they were written from. -/
theorem readDouble?_hexDigits (count more value n : Nat) (rest : List Char) (line column : Nat)
    (hmore : 0 < more) :
    readDouble? (hexDigits count n ++ rest) line column (.code (count + more) value) =
      readDouble? rest line (column + count)
        (.code more (value * hexSpan count + n % hexSpan count)) := by
  induction count generalizing more n rest with
  | zero => simp [hexDigits, hexSpan, Nat.mod_one]
  | succ count ih =>
      have hdigit := hexDigit?_upperHexDigit (n % 16) (Nat.mod_lt _ (by decide))
      have hsum : 16 * (value * hexSpan count + n / 16 % hexSpan count) + n % 16 =
          value * hexSpan (count + 1) + n % hexSpan (count + 1) := by
        rw [hexSpan, Nat.mod_mul, Nat.mul_add, Nat.mul_left_comm]
        omega
      have hcount : count + 1 + more = count + (more + 1) := by omega
      rw [hexDigits, List.append_assoc, hcount, ih (more + 1) (n / 16) _ (Nat.succ_pos _),
        List.singleton_append, readDouble?, hdigit]
      simp only [hsum, Nat.add_sub_cancel, if_pos (Nat.succ_lt_succ hmore), Nat.add_assoc]

/-- A character is read from its code. -/
theorem readDouble?_code {count : Nat} {c : Char} (hcount : 0 < count)
    (hc : c.toNat < hexSpan count) (rest : List Char) (line column : Nat) :
    readDouble? (hexDigits count c.toNat ++ rest) line column (.code count 0) =
      prepend [c] (readDouble? rest line (column + count) (.text {})) := by
  obtain ⟨count, rfl⟩ : ∃ n, count = n + 1 := ⟨count - 1, by omega⟩
  have hdigit := hexDigit?_upperHexDigit (c.toNat % 16) (Nat.mod_lt _ (by decide))
  have hfits : c.toNat / 16 % hexSpan count = c.toNat / 16 := by
    exact Nat.mod_eq_of_lt (Nat.div_lt_of_lt_mul hc)
  have hcode : ofCode? (16 * (0 * hexSpan count + c.toNat / 16 % hexSpan count) + c.toNat % 16) =
      some c := by
    have hnumber :
        16 * (0 * hexSpan count + c.toNat / 16 % hexSpan count) + c.toNat % 16 = c.toNat := by
      rw [hfits]
      omega
    rw [hnumber, ofCode?, if_pos (show c.toNat.isValidChar from c.valid), Char.ofNat_toNat]
  rw [hexDigits, List.append_assoc, readDouble?_hexDigits count 1 0 _ _ _ _ (by decide),
    List.singleton_append, readDouble?, hdigit]
  simp only [Nat.lt_irrefl, if_false, hcode, Nat.add_assoc]

/-- What a character other than a space can be written as: a letter that stands for it, its code
behind a letter that says how many digits it has, or itself. -/
inductive Escaped (c : Char) : List Char → Prop
  | letter {l : Char} : escape? l = some (.char c) → isBreak l = false → Escaped c ['\\', l]
  | code {l : Char} {count : Nat} : escape? l = some (.code count) → isBreak l = false →
      0 < count → c.toNat < hexSpan count → Escaped c ('\\' :: l :: hexDigits count c.toNat)
  | plain : isPrintable c = true → endsLine c = false → c ≠ '"' → c ≠ '\\' → Escaped c [c]

/-- An escape stands for its character. -/
theorem escaped_escapeText (c : Char) : Escaped c ('\\' :: escapeText c) := by
  have hletter {d l : Char} {otherwise : List Char} (h : escape? l = some (.char d))
      (hl : isBreak l = false) (hother : Escaped c ('\\' :: otherwise)) :
      Escaped c ('\\' :: if c = d then [l] else otherwise) := by
    split
    · rename_i hc
      exact .letter (hc ▸ h) hl
    · exact hother
  rw [escapeText]
  refine hletter rfl rfl (hletter rfl rfl (hletter rfl rfl ?_))
  refine hletter rfl rfl (hletter rfl rfl (hletter rfl rfl ?_))
  refine hletter rfl rfl (hletter rfl rfl (hletter rfl rfl ?_))
  split
  · rename_i hself
    rcases hself with rfl | rfl
    · exact .letter rfl rfl
    · exact .letter rfl rfl
  refine hletter rfl rfl (hletter rfl rfl (hletter rfl rfl ?_))
  have hbound : c.toNat < hexSpan 8 := c.val.toNat_lt
  rw [escapeCode]
  split
  · rename_i hsmall
    exact .code rfl rfl (by decide) (Nat.lt_succ_of_le hsmall)
  split
  · rename_i hsmall
    exact .code rfl rfl (by decide) (Nat.lt_succ_of_le hsmall)
  · exact .code rfl rfl (by decide) hbound

/-- So does what is written between double quotes. -/
theorem escaped_doubleChar (c : Char) : Escaped c (doubleChar c) := by
  rw [doubleChar]
  split
  · exact escaped_escapeText c
  · rename_i hplain
    simp only [Bool.or_eq_true, not_or, Bool.not_eq_true, Bool.not_eq_false', beq_iff_eq] at hplain
    obtain ⟨⟨⟨hprintable, hends⟩, hquote⟩, hslash⟩ := hplain
    exact .plain hprintable hends hquote hslash

/-- A character other than a space is read from what it is written as. -/
theorem readDouble?_doubleChar {c : Char} (hspace : c ≠ ' ') (rest : List Char) (gap : Gap)
    {line column : Nat} (hcolumn : 0 < column) :
    readDouble? (doubleChar c ++ rest) line column (.text gap) =
      prepend (gap.text ++ [c]) (readDouble? rest line (column + (doubleChar c).length)
        (.text {})) := by
  have hmark {cs : List Char} : ¬ (column = 0 ∧ isDocumentMark cs = true) := by omega
  -- A backslash settles what was held back, and begins an escape.
  have hescape (cs : List Char) : readDouble? ('\\' :: cs) line column (.text gap) =
      prepend gap.text (readDouble? cs line (column + 1) .escape) := by
    rw [readDouble?, if_neg (by decide), if_neg (by decide), if_neg hmark, if_neg (by decide),
      if_pos rfl]
  have hwritten := escaped_doubleChar c
  generalize doubleChar c = written at hwritten ⊢
  cases hwritten with
  | letter hletter hl =>
      rw [List.cons_append, List.cons_append, List.nil_append, hescape, readDouble?,
        if_neg (by simp [hl]), hletter]
      simp [prepend, Function.comp_def]
  | code hcode hl hcount hsize =>
      rw [List.cons_append, List.cons_append, hescape, readDouble?, if_neg (by simp [hl]), hcode]
      simp only [readDouble?_code hcount hsize, List.length_cons, length_hexDigits]
      have hcolumns (count : Nat) : column + 2 + count = column + (count + 1 + 1) := by omega
      simp [prepend, Function.comp_def, hcolumns]
  | plain hprintable hends hquote hslash =>
      obtain ⟨hblank, hbreak⟩ := not_gap_of_isPrintable hprintable hends hspace
      rw [List.cons_append, readDouble?, if_neg (by simp [hblank]), if_neg (by simp [hbreak]),
        if_neg hmark, if_neg hquote, if_neg hslash]
      rfl

/-- **A text between double quotes is read back,** and the reader goes on by as many columns as were
written. -/
theorem readDouble?_doubleText (cs tail : List Char) {front : List Char} {gap : Gap} (line : Nat)
    {column : Nat}
    (hheld : Held false gap front) (hcolumn : 0 < column) :
    readDouble? (cs.flatMap doubleChar ++ '"' :: tail) line column (.text gap) =
      some (front ++ cs, ⟨tail, line, column + (cs.flatMap doubleChar).length + 1⟩) := by
  induction cs generalizing front gap column with
  | nil =>
      have hmark {cs : List Char} : ¬ (column = 0 ∧ isDocumentMark cs = true) := by omega
      rw [List.append_nil, ← hheld.text_eq, List.flatMap_nil, List.nil_append, readDouble?,
        if_neg (by decide), if_neg (by decide), if_neg hmark, if_pos rfl]
      rfl
  | cons c cs ih =>
      have happend : front ++ c :: cs = (front ++ [c]) ++ cs := by simp
      rw [List.flatMap_cons, List.append_assoc]
      by_cases hspace : c = ' '
      · subst hspace
        have hwritten : doubleChar ' ' = [' '] := by decide
        rw [hwritten, happend, List.singleton_append, readDouble?, if_pos (by decide),
          ih hheld.addBlank (Nat.succ_pos _), List.length_append, List.length_singleton]
        congr 3
        omega
      · rw [readDouble?_doubleChar hspace _ gap hcolumn, ih held_nil (by omega),
          hheld.text_eq, happend, List.length_append]
        simp [prepend]
        omega

end Quoted

end ConfigGraft.Yaml
