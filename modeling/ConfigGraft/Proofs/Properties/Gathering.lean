import ConfigGraft.Proofs.Properties.LogicalLine

/-!
# Gathering logical lines one line at a time

The reader finds logical lines by looking ahead for the lines that each of them needs. The same can
be done by going through the lines one by one. Between two lines there is nothing to remember but
the text that has been gathered for a logical line that is still open, if there is one. So what a
line adds depends on that text alone, and lines that come behind others are gone through from where
those have left off.

## Main results

* `takeLines_append` — lines behind others go on from what those leave open;
* `map_fst_logicalLines` — **going through the lines finds the logical lines,** without their
  numbers;
* `exists_of_logical` — nothing is open where a logical line begins;
* `not_continues_takeLines` — what is left open ends in an even number of backslashes;
* `mapError_parse` — what a text says is decided by its logical lines.
-/

namespace ConfigGraft.Properties

/-! ### Going through lines -/

/-- What becomes of the text that was gathered for a logical line: it is whole, or it is left open
without its last backslash. -/
def settle (text : List Char) : List (List Char) × Option (List Char) :=
  if continues text then ([], some text.dropLast) else ([text], none)

/-- Takes a line to what is open: the logical line that it completes, if it does, and what is open
then. -/
def takeLine (open? : Option (List Char)) (raw : List Char) :
    List (List Char) × Option (List Char) :=
  match open? with
  | some text => settle (text ++ raw.dropWhile isBlank)
  | none =>
    if isSilent (raw.dropWhile isBlank) then ([], none) else settle (raw.dropWhile isBlank)

/-- Takes lines to what is open, from the first to the last: the logical lines that they complete,
and what is open behind them. -/
def takeLines (open? : Option (List Char)) : List (List Char) →
    List (List Char) × Option (List Char)
  | [] => ([], open?)
  | raw :: rest =>
    ((takeLine open? raw).1 ++ (takeLines (takeLine open? raw).2 rest).1,
      (takeLines (takeLine open? raw).2 rest).2)

/-- What is left open behind the lines of a text. -/
def openAfter (lines : List (List Char)) : Option (List Char) := (takeLines none lines).2

/-- The logical lines that come of what is open and the lines behind it. At the end of the text the
last one is whole as it is. -/
def wholeTexts (open? : Option (List Char)) (lines : List (List Char)) : List (List Char) :=
  (takeLines open? lines).1 ++ (takeLines open? lines).2.toList

/-- The logical lines that come of a text that was gathered and the lines behind it. -/
def gatherOn (text : List Char) (lines : List (List Char)) : List (List Char) :=
  (settle text).1 ++ wholeTexts (settle text).2 lines

section

variable {open? : Option (List Char)} {text raw : List Char}

/-- A text that goes on is kept open without its last backslash. -/
theorem settle_of_continues (h : continues text = true) : settle text = ([], some text.dropLast) :=
  if_pos h

/-- One that does not is whole. -/
theorem settle_of_not_continues (h : ¬ continues text = true) : settle text = ([text], none) :=
  if_neg h

/-- **Lines behind others go on from what those leave open.** -/
theorem takeLines_append (open? : Option (List Char)) (front back : List (List Char)) :
    takeLines open? (front ++ back) =
      ((takeLines open? front).1 ++ (takeLines (takeLines open? front).2 back).1,
        (takeLines (takeLines open? front).2 back).2) := by
  induction front generalizing open? with
  | nil => rfl
  | cons raw front ih => rw [List.cons_append, takeLines, ih, takeLines, List.append_assoc]

/-- The lines behind are taken with what the lines in front left open. -/
theorem wholeTexts_append (open? : Option (List Char)) (front back : List (List Char)) :
    wholeTexts open? (front ++ back) =
      (takeLines open? front).1 ++ wholeTexts (takeLines open? front).2 back := by
  rw [wholeTexts, takeLines_append, wholeTexts, List.append_assoc]

/-- Lines are taken one after the other. -/
theorem wholeTexts_cons (open? : Option (List Char)) (raw : List Char) (rest : List (List Char)) :
    wholeTexts open? (raw :: rest) =
      (takeLine open? raw).1 ++ wholeTexts (takeLine open? raw).2 rest := by
  rw [wholeTexts, takeLines, wholeTexts, List.append_assoc]

/-- A line adds to what is open. -/
theorem wholeTexts_some_cons (text raw : List Char) (rest : List (List Char)) :
    wholeTexts (some text) (raw :: rest) = gatherOn (text ++ raw.dropWhile isBlank) rest :=
  wholeTexts_cons _ _ _

/-- A line that says nothing is passed over if nothing is open. -/
theorem wholeTexts_cons_silent (h : isSilent (raw.dropWhile isBlank) = true)
    (rest : List (List Char)) : wholeTexts none (raw :: rest) = wholeTexts none rest := by
  rw [wholeTexts_cons, takeLine, if_pos h, List.nil_append]

/-- Any other line begins a logical line. -/
theorem wholeTexts_cons_speaking (h : isSilent (raw.dropWhile isBlank) = false)
    (rest : List (List Char)) :
    wholeTexts none (raw :: rest) = gatherOn (raw.dropWhile isBlank) rest := by
  rw [wholeTexts_cons, takeLine, if_neg (by simp [h]), gatherOn]

/-- A line that goes on is gathered with the next. -/
theorem gatherOn_of_continues (h : continues text = true) (rest : List (List Char)) :
    gatherOn text rest = wholeTexts (some text.dropLast) rest := by
  rw [gatherOn, settle_of_continues h, List.nil_append]

/-- One that does not is gathered alone. -/
theorem gatherOn_of_not_continues (h : continues text = false) (rest : List (List Char)) :
    gatherOn text rest = text :: wholeTexts none rest := by
  rw [gatherOn, settle_of_not_continues (by simp [h]), List.singleton_append]

/-! ### Logical lines -/

/-- A logical line is gathered with the lines that it needs, and then the others follow. -/
theorem gatherOn_eq (text : List Char) (lines : List (List Char × Nat)) :
    gatherOn text (lines.map Prod.fst) =
      (joinLines text lines).1 :: wholeTexts none ((joinLines text lines).2.map Prod.fst) := by
  induction lines generalizing text with
  | nil =>
      rw [joinLines, gatherOn, settle]
      split <;> rfl
  | cons next more ih =>
      rw [joinLines]
      split
      · rename_i hopen
        rw [gatherOn_of_continues hopen, List.map_cons, wholeTexts_some_cons, ih]
      · rename_i hwhole
        rw [gatherOn_of_not_continues (eq_false_of_ne_true hwhole)]

/-- **Going through the lines finds the logical lines.** -/
theorem map_fst_logicalLines (lines : List (List Char × Nat)) :
    (logicalLines lines).map Prod.fst = wholeTexts none (lines.map Prod.fst) := by
  fun_induction logicalLines lines with
  | case1 => rfl
  | case2 raw n rest hsilent ih => rw [ih, List.map_cons, wholeTexts_cons_silent hsilent]
  | case3 raw n rest hspeaks ih =>
      rw [List.map_cons, ih, List.map_cons,
        wholeTexts_cons_speaking (eq_false_of_ne_true hspeaks), gatherOn_eq]

/-- A line that is gathered for is followed by the lines that were left, and before these nothing
is open. -/
theorem exists_joinLines (text : List Char) (lines : List (List Char)) (n : Nat) :
    ∃ front back, lines = front ++ back ∧
      (joinLines text (lines.zipIdx n)).2 = back.zipIdx (front.length + n) ∧
      (back = [] ∨ (takeLines (settle text).2 front).2 = none) := by
  induction lines generalizing text n with
  | nil => exact ⟨[], [], rfl, rfl, .inl rfl⟩
  | cons next more ih =>
      rw [List.zipIdx_cons, joinLines]
      by_cases hopen : continues text = true
      · obtain ⟨front, back, hmore, hleft, hclosed⟩ :=
          ih (text.dropLast ++ next.dropWhile isBlank) (n + 1)
        refine ⟨next :: front, back, by rw [hmore, List.cons_append], ?_, ?_⟩
        · rw [if_pos hopen, hleft, List.length_cons, Nat.add_assoc, Nat.add_comm 1]
        · rwa [settle_of_continues hopen, takeLines, takeLine]
      · refine ⟨[], next :: more, rfl, ?_, .inr ?_⟩
        · rw [if_neg hopen, List.length_nil, Nat.zero_add, List.zipIdx_cons]
        · rw [settle_of_not_continues hopen]
          rfl

/-- **Where a logical line begins nothing is open,** and the line there is neither blank nor a
comment. -/
theorem exists_of_logical {n m : Nat} {line : List Char} {lines : List (List Char)}
    (h : Logical (lines.zipIdx n) m line) :
    ∃ front raw back, lines = front ++ raw :: back ∧ m = front.length + n ∧
      openAfter front = none ∧ isSilent (raw.dropWhile isBlank) = false := by
  rw [logical_iff] at h
  generalize hnumbered : lines.zipIdx n = numbered at h
  fun_induction logicalLines numbered generalizing lines n with
  | case1 => cases h
  | case2 raw k rest hsilent ih =>
      cases lines with
      | nil => cases hnumbered
      | cons first more =>
          rw [List.zipIdx_cons, List.cons.injEq, Prod.mk.injEq] at hnumbered
          obtain ⟨⟨rfl, rfl⟩, rfl⟩ := hnumbered
          obtain ⟨front, raw', back, rfl, rfl, hclosed, hspeaks⟩ := ih rfl h
          refine ⟨first :: front, raw', back, rfl, by rw [List.length_cons]; omega, ?_, hspeaks⟩
          rw [openAfter, takeLines, takeLine, if_pos hsilent]
          exact hclosed
  | case3 raw k rest hspeaks ih =>
      cases lines with
      | nil => cases hnumbered
      | cons first more =>
          rw [List.zipIdx_cons, List.cons.injEq, Prod.mk.injEq] at hnumbered
          obtain ⟨⟨rfl, rfl⟩, rfl⟩ := hnumbered
          rcases List.mem_cons.1 h with heq | h
          · exact ⟨[], first, more, rfl, by rw [(Prod.mk.inj heq).2]; exact (Nat.zero_add n).symm,
              rfl, eq_false_of_ne_true hspeaks⟩
          · -- The logical line begins behind the lines that the first one needs.
            obtain ⟨needed, left, rfl, hleft, hclosed⟩ :=
              exists_joinLines (first.dropWhile isBlank) more (n + 1)
            obtain ⟨front, raw', back, rfl, rfl, hopen, hspeaks'⟩ := ih hleft.symm h
            refine ⟨first :: (needed ++ front), raw', back, by simp, ?_, ?_, hspeaks'⟩
            · rw [List.length_cons, List.length_append]
              omega
            · have hneeded := hclosed.resolve_left (by simp)
              rw [openAfter, takeLines, takeLine, if_neg hspeaks, takeLines_append, hneeded]
              exact hopen

/-! ### Backslashes at the end -/

/-- The number of backslashes at the end of a text. -/
def trailing (text : List Char) : Nat := (text.reverse.takeWhile (· == '\\')).length

/-- A text goes on if it ends in an odd number of backslashes. -/
theorem continues_iff : continues text = true ↔ trailing text % 2 = 1 := beq_iff_eq

/-- It does not if the number is even. -/
theorem not_continues_iff : continues text = false ↔ trailing text % 2 = 0 := by
  rw [← Bool.not_eq_true, continues_iff]
  omega

/-- A backslash at the end is one more. -/
theorem trailing_concat (text : List Char) : trailing (text ++ ['\\']) = trailing text + 1 := by
  simp [trailing]

/-- Behind a character that is no backslash the count starts anew. -/
theorem trailing_append_cons {c : Char} (hc : c ≠ '\\') (front back : List Char) :
    trailing (front ++ c :: back) = trailing back := by
  rw [trailing, List.reverse_append, List.reverse_cons, List.append_assoc, List.takeWhile_append]
  split
  · rename_i hall
    simp [hc, hall, trailing]
  · rfl

/-- Texts that end in an even number of backslashes do so together. -/
theorem trailing_append (front back : List Char) :
    trailing (front ++ back) = trailing back ∨
      trailing (front ++ back) = trailing front + trailing back := by
  rw [trailing, List.reverse_append, List.takeWhile_append]
  split
  · rename_i hall
    right
    rw [List.length_append, List.length_reverse, trailing, trailing, hall, List.length_reverse,
      Nat.add_comm]
  · exact .inl rfl

/-- A text that asks for another line ends in a backslash, without which it does not. -/
theorem exists_of_continues (h : continues text = true) :
    ∃ front, text = front ++ ['\\'] ∧ continues front = false := by
  rcases List.eq_nil_or_concat text with rfl | ⟨front, c, rfl⟩
  · cases h
  · rw [List.concat_eq_append] at h ⊢
    by_cases hc : c = '\\'
    · subst hc
      refine ⟨front, rfl, not_continues_iff.2 ?_⟩
      rw [continues_iff, trailing_concat] at h
      omega
    · rw [continues_concat hc] at h
      cases h

/-- **What is left open ends in an even number of backslashes.** -/
theorem not_continues_takeLines (h : ∀ text ∈ open?, continues text = false)
    (lines : List (List Char)) : ∀ text ∈ (takeLines open? lines).2, continues text = false := by
  have hsettle (text : List Char) : ∀ rest ∈ (settle text).2, continues rest = false := by
    intro rest hrest
    rw [settle] at hrest
    split at hrest
    · rename_i hopen
      obtain ⟨front, rfl, hfront⟩ := exists_of_continues hopen
      rw [List.dropLast_concat] at hrest
      exact Option.some.inj hrest ▸ hfront
    · cases hrest
  induction lines generalizing open? with
  | nil => exact h
  | cons raw rest ih =>
      refine ih ?_
      cases open? with
      | some text => exact hsettle _
      | none =>
          rw [takeLine]
          split
          · rintro _ ⟨⟩
          · exact hsettle _

end

/-! ### Entries -/

/-- Adds the entries of logical lines to a table, from the first line to the last. -/
def readTexts (table : Properties) : List (List Char) → Except EscapeFault Properties
  | [] => .ok table
  | line :: rest =>
    match readEntry line with
    | .error cause => .error cause
    | .ok (key, value) => readTexts (table.insert key value) rest

/-- What the entries of logical lines make of a table does not depend on their numbers. -/
theorem mapError_readEntries (table : Properties) (lines : List (List Char × Nat)) :
    (readEntries table lines).mapError Fault.cause = readTexts table (lines.map Prod.fst) := by
  induction lines generalizing table with
  | nil => rfl
  | cons entry rest ih =>
      obtain ⟨line, n⟩ := entry
      rw [readEntries, List.map_cons, readTexts]
      cases readEntry line with
      | error cause => rfl
      | ok entry => exact ih _

/-- Lines with the same entry make the same of a table. -/
theorem readTexts_congr {line line' : List Char} (h : readEntry line = readEntry line')
    (table : Properties) (front back : List (List Char)) :
    readTexts table (front ++ line :: back) = readTexts table (front ++ line' :: back) := by
  induction front generalizing table with
  | nil => rw [List.nil_append, List.nil_append, readTexts, readTexts, h]
  | cons first front ih =>
      rw [List.cons_append, List.cons_append, readTexts, readTexts]
      cases readEntry first with
      | error cause => rfl
      | ok entry => exact ih _

/-- **What a text says is decided by its logical lines.** -/
theorem mapError_parse (content : List Char) :
    (parse content).mapError Fault.cause =
      readTexts .empty (wholeTexts none (Text.lines content)) := by
  rw [parse, mapError_readEntries, map_fst_logicalLines, List.zipIdx_map_fst]

end ConfigGraft.Properties
