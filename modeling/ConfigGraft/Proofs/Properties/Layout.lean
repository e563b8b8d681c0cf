import ConfigGraft.Proofs.Properties.Gathering

/-!
# The layout of a properties text

The same entries can be laid out in many ways. Breaks may have a carriage return or not, blank lines
and comments may stand between logical lines, a logical line may begin with any blanks, it may be
broken in places where no backslash and no blank is in the way, and any separator may stand between
its key and its value. `Relayout` lists these changes for a text that is given by its lines. None of
them makes a difference to what is read, whatever else stands in the text.

All of them but the last leave the logical lines as they are. Another separator makes another
logical line, but with the same key and the same value.

## Main results

* `wholeTexts_insert`, `wholeTexts_blanks`, `wholeTexts_wrap` — the logical lines stay the same;
* `readTexts_separator` — a logical line with another separator has the same entry;
* `parse_relayout` — **a change of the layout makes no difference** to what is read.
-/

namespace ConfigGraft.Properties

/-! ### Changes of the layout -/

/-- Whether a logical line begins behind some lines of a text, with the first of the others. -/
def Begins (front back : List (List Char)) : Prop :=
  ∃ line, Logical ((front ++ back).zipIdx 1) (front.length + 1) line

/-- A line that says nothing: it is blank, or it is a comment. -/
inductive SaysNothing : List Char → Prop
  | blank {raw : List Char} : (∀ c ∈ raw, isBlank c = true) → SaysNothing raw
  | comment {blanks text : List Char} {sign : Char} :
      (∀ c ∈ blanks, isBlank c = true) → sign = '#' ∨ sign = '!' →
        SaysNothing (blanks ++ sign :: text)

/-- **A separator:** blanks, or a sign with blanks around it or not. -/
inductive Separator : List Char → Prop
  | blanks {gap : List Char} : gap ≠ [] → (∀ c ∈ gap, isBlank c = true) → Separator gap
  | sign {before after : List Char} {c : Char} :
      (∀ d ∈ before, isBlank d = true) → isSign c = true → (∀ d ∈ after, isBlank d = true) →
        Separator (before ++ c :: after)

/-- **A change of the layout** of a text that is given by its lines. -/
inductive Relayout : List (List Char) → List (List Char) → Prop
  /-- A line that says nothing is put in front of a logical line, or at the end of a text if nothing
  is left open there. -/
  | insert {front back : List (List Char)} {raw : List Char} :
      SaysNothing raw → '\n' ∉ raw → Begins front back ∨ back = [] ∧ openAfter front = none →
        Relayout (front ++ back) (front ++ raw :: back)
  /-- A logical line begins with other blanks. -/
  | blanks {front back : List (List Char)} {blanks blanks' body : List Char} :
      Begins front ((blanks ++ body) :: back) → (∀ c ∈ blanks, isBlank c = true) →
        (∀ c ∈ blanks', isBlank c = true) →
        Relayout (front ++ (blanks ++ body) :: back) (front ++ (blanks' ++ body) :: back)
  /-- A logical line is broken, on the line where it begins, behind a character that is no blank, or
  on one of its further lines. An even number of backslashes is before the break, and no blank is
  behind it. -/
  | wrap {front back : List (List Char)} {before after blanks : List Char} :
      (Begins front ((before ++ after) :: back) ∧ ∃ c ∈ before, isBlank c = false) ∨
        openAfter front ≠ none →
        ¬ EndsOpen before → (∀ c ∈ after.head?, isBlank c = false) →
        (∀ c ∈ blanks, isBlank c = true) →
        Relayout (front ++ (before ++ after) :: back)
          (front ++ (before ++ ['\\']) :: (blanks ++ after) :: back)
  /-- In a logical line that is on one line alone, another separator comes between the key and the
  value. -/
  | separator {front back : List (List Char)} {blanks key gap gap' value : List Char} :
      Begins front ((blanks ++ (key ++ gap ++ value)) :: back) →
        (EndsOpen (key ++ gap ++ value) → back = []) → (∀ c ∈ blanks, isBlank c = true) →
        key ≠ [] → KeyText key → Separator gap → Separator gap' →
        (∀ c ∈ value.head?, isBlank c = false ∧ isSign c = false) →
        Relayout (front ++ (blanks ++ (key ++ gap ++ value)) :: back)
          (front ++ (blanks ++ (key ++ gap' ++ value)) :: back)

section

variable {front back lines lines' : List (List Char)}
  {raw text blanks blanks' before after key gap gap' value : List Char}

/-! ### Lines that say nothing -/

/-- Blanks in front are dropped with those that follow. -/
theorem dropWhile_blanks (h : ∀ c ∈ blanks, isBlank c = true) (cs : List Char) :
    (blanks ++ cs).dropWhile isBlank = cs.dropWhile isBlank :=
  List.dropWhile_append_of_pos h

/-- A line that says nothing is silent once its indent is dropped. -/
theorem SaysNothing.isSilent_dropWhile (h : SaysNothing raw) :
    isSilent (raw.dropWhile isBlank) = true := by
  cases h with
  | blank hblank =>
      rw [← List.append_nil raw, dropWhile_blanks hblank]
      rfl
  | comment hblanks hsign =>
      rw [dropWhile_blanks hblanks]
      obtain rfl | rfl := hsign <;> rfl

/-- A carriage return at the end of a comment is not missed. -/
theorem SaysNothing.withoutBreak (h : SaysNothing raw) :
    SaysNothing (Text.withoutBreak (raw, true)) := by
  rw [Text.withoutBreak]
  split
  · rename_i hreturn
    cases h with
    | blank hblank => exact absurd (hblank _ (List.mem_of_getLast? hreturn)) (by decide)
    | @comment blanks text sign hblanks hsign =>
        cases text with
        | nil =>
            rw [List.getLast?_concat] at hreturn
            obtain rfl := Option.some.inj hreturn
            exact absurd hsign (by decide)
        | cons c text =>
            rw [List.dropLast_append_of_ne_nil (List.cons_ne_nil _ _), List.dropLast_cons_cons]
            exact .comment hblanks hsign
  · exact h

/-- Where a logical line begins nothing is open, and the line there says something. -/
theorem Begins.nothing_open (h : Begins front (raw :: back)) :
    openAfter front = none ∧ isSilent (raw.dropWhile isBlank) = false := by
  obtain ⟨line, hlogical⟩ := h
  obtain ⟨front', raw', back', hlines, hnumber, hclosed, hspeaks⟩ := exists_of_logical hlogical
  obtain ⟨rfl, hrest⟩ := List.append_inj hlines (by omega)
  obtain ⟨rfl, rfl⟩ := List.cons.inj hrest
  exact ⟨hclosed, hspeaks⟩

/-- Behind the last line no logical line begins. -/
theorem Begins.ne_nil (h : Begins front back) : back ≠ [] := by
  rintro rfl
  obtain ⟨line, hlogical⟩ := h
  obtain ⟨front', raw', back', hlines, hnumber, -⟩ := exists_of_logical hlogical
  have hlength := congrArg List.length hlines
  simp only [List.length_append, List.length_cons, List.length_nil] at hlength
  omega

/-- **Where nothing is open, a line that says nothing is passed over.** -/
theorem wholeTexts_insert (hraw : SaysNothing raw) (hopen : openAfter front = none)
    (back : List (List Char)) :
    wholeTexts none (front ++ raw :: back) = wholeTexts none (front ++ back) := by
  rw [wholeTexts_append, wholeTexts_append, ← openAfter, hopen,
    wholeTexts_cons_silent hraw.isSilent_dropWhile]

/-! ### Blanks -/

/-- **The blanks at the start of a line are left out.** -/
theorem wholeTexts_blanks (hblanks : ∀ c ∈ blanks, isBlank c = true)
    (hblanks' : ∀ c ∈ blanks', isBlank c = true) (front back : List (List Char))
    (body : List Char) :
    wholeTexts none (front ++ (blanks' ++ body) :: back) =
      wholeTexts none (front ++ (blanks ++ body) :: back) := by
  have htake (open? : Option (List Char)) :
      takeLine open? (blanks' ++ body) = takeLine open? (blanks ++ body) := by
    simp only [takeLine, dropWhile_blanks hblanks, dropWhile_blanks hblanks']
  rw [wholeTexts_append, wholeTexts_append, wholeTexts_cons, wholeTexts_cons, htake]

/-! ### Breaks -/

/-- A blank is neither a backslash nor the end of a line. -/
theorem ne_of_isBlank {c : Char} (h : isBlank c = true) : c ≠ '\\' ∧ c ≠ '\n' ∧ c ≠ '\r' := by
  refine ⟨?_, ?_, ?_⟩ <;> rintro rfl <;> exact absurd h (by decide)

/-- Blanks at the start do not count among the backslashes at the end. -/
theorem trailing_dropWhile (cs : List Char) : trailing (cs.dropWhile isBlank) = trailing cs := by
  induction cs with
  | nil => rfl
  | cons c cs ih =>
      rw [List.dropWhile_cons]
      split
      · rename_i hblank
        rw [ih, ← List.nil_append (c :: cs), trailing_append_cons (ne_of_isBlank hblank).1]
      · rfl

/-- Up to a character that is no blank, the blanks at the start are those of what is before it. -/
theorem dropWhile_append_of_head (h : ∀ c ∈ after.head?, isBlank c = false) (before : List Char) :
    (before ++ after).dropWhile isBlank = before.dropWhile isBlank ++ after := by
  rw [List.dropWhile_append]
  split
  · rename_i hempty
    rw [List.isEmpty_iff.1 hempty, List.nil_append, ← List.nil_append after,
      dropWhile_isBlank_append (List.forall_mem_nil _) h, List.nil_append]
  · rfl

/-- A text is taken up again where it was broken. -/
theorem gatherOn_wrap (htext : continues text = false) (hblanks : ∀ c ∈ blanks, isBlank c = true)
    (hafter : ∀ c ∈ after.head?, isBlank c = false) (rest : List (List Char)) :
    gatherOn (text ++ ['\\']) ((blanks ++ after) :: rest) = gatherOn (text ++ after) rest := by
  have hopen : continues (text ++ ['\\']) = true := by
    rw [not_continues_iff] at htext
    rw [continues_iff, trailing_concat]
    omega
  rw [gatherOn_of_continues hopen, List.dropLast_concat, wholeTexts_some_cons,
    dropWhile_isBlank_append hblanks hafter]

/-- Texts with their backslashes in pairs at the end have them in pairs together. -/
theorem not_continues_append (hfront : continues text = false) (hback : continues after = false) :
    continues (text ++ after) = false := by
  rw [not_continues_iff] at hfront hback ⊢
  rcases trailing_append text after with htrailing | htrailing <;> omega

/-- **A logical line that is broken is put together again.** -/
theorem wholeTexts_wrap
    (hplace : (Begins front ((before ++ after) :: back) ∧ ∃ c ∈ before, isBlank c = false) ∨
      openAfter front ≠ none)
    (hbefore : ¬ EndsOpen before) (hafter : ∀ c ∈ after.head?, isBlank c = false)
    (hblanks : ∀ c ∈ blanks, isBlank c = true) :
    wholeTexts none (front ++ (before ++ ['\\']) :: (blanks ++ after) :: back) =
      wholeTexts none (front ++ (before ++ after) :: back) := by
  have hstop : ∀ c ∈ (['\\'] : List Char).head?, isBlank c = false := by
    rintro _ ⟨⟩
    rfl
  have heven : continues (before.dropWhile isBlank) = false := by
    rw [endsOpen_iff, continues_iff, ← trailing_dropWhile, ← continues_iff] at hbefore
    exact eq_false_of_ne_true hbefore
  rw [wholeTexts_append, wholeTexts_append, ← openAfter]
  cases hopen : openAfter front with
  | some text =>
      -- What is open is even, so the backslashes before the break can be counted on its line.
      have htext : continues text = false :=
        not_continues_takeLines (by rintro _ ⟨⟩) front text hopen
      rw [wholeTexts_some_cons, wholeTexts_some_cons, dropWhile_append_of_head hstop,
        dropWhile_append_of_head hafter, ← List.append_assoc, ← List.append_assoc,
        gatherOn_wrap (not_continues_append htext heven) hblanks hafter]
  | none =>
      obtain ⟨hbegins, c, hc, hblank⟩ := hplace.resolve_right (not_not.2 hopen)
      have hspeaks := hbegins.nothing_open.2
      -- The line is seen to say something by its first character, which is before the break.
      obtain ⟨d, body, hbody⟩ : ∃ d body, before.dropWhile isBlank = d :: body := by
        refine List.exists_cons_of_ne_nil fun hnil => ?_
        exact absurd (List.dropWhile_eq_nil_iff.1 hnil c hc) (by simp [hblank])
      have hspeaks' : isSilent ((before ++ ['\\']).dropWhile isBlank) = false := by
        rw [dropWhile_append_of_head hafter, hbody] at hspeaks
        rw [dropWhile_append_of_head hstop, hbody]
        exact hspeaks
      rw [wholeTexts_cons_speaking hspeaks, wholeTexts_cons_speaking hspeaks',
        dropWhile_append_of_head hstop, dropWhile_append_of_head hafter,
        gatherOn_wrap heven hblanks hafter]

/-! ### Separators -/

/-- A separator is the gap before a value that begins neither with a blank nor with a sign. -/
theorem Separator.gap_append (h : Separator gap)
    (hvalue : ∀ c ∈ value.head?, isBlank c = false ∧ isSign c = false) : Gap gap value := by
  cases h with
  | blanks hne hblanks => exact .blanks hne hblanks hvalue
  | sign hbefore hsign hafter => exact .sign hbefore hsign hafter fun c hc => (hvalue c hc).1

/-- A separator is of blanks and signs. -/
theorem Separator.isBlank_or (h : Separator gap) :
    ∀ c ∈ gap, isBlank c = true ∨ isSign c = true := by
  cases h with
  | blanks _ hblanks => exact fun c hc => .inl (hblanks c hc)
  | sign hbefore hsign hafter =>
      intro c hc
      rcases List.mem_append.1 hc with hc | hc
      · exact .inl (hbefore c hc)
      · rcases List.mem_cons.1 hc with rfl | hc
        · exact .inr hsign
        · exact .inl (hafter c hc)

/-- A separator is not empty. -/
theorem Separator.ne_nil (h : Separator gap) : gap ≠ [] := by
  cases h with
  | blanks hne => exact hne
  | sign => simp

/-- A sign is neither a backslash nor the end of a line. -/
theorem ne_of_isSign {c : Char} (h : isSign c = true) : c ≠ '\\' ∧ c ≠ '\n' ∧ c ≠ '\r' := by
  refine ⟨?_, ?_, ?_⟩ <;> rintro rfl <;> exact absurd h (by decide)

/-- The backslashes at the end of a line are in its value. -/
theorem Separator.trailing_append (h : Separator gap) (key value : List Char) :
    trailing (key ++ gap ++ value) = trailing value := by
  rcases List.eq_nil_or_concat gap with hnil | ⟨front, c, hgap⟩
  · exact absurd hnil h.ne_nil
  · rw [List.concat_eq_append] at hgap
    have hc : c ≠ '\\' := by
      rcases h.isBlank_or c (by simp [hgap]) with hblank | hsign
      · exact (ne_of_isBlank hblank).1
      · exact (ne_of_isSign hsign).1
    rw [hgap, ← List.append_assoc, List.append_assoc, List.singleton_append,
      trailing_append_cons hc]

/-- **Lines with the same key and the same value have the same entry.** -/
theorem Divided.readEntry_eq {line line' : List Char} (h : Divided line key value)
    (h' : Divided line' key value) : readEntry line' = readEntry line := by
  obtain ⟨rfl, rfl⟩ := divided_iff.1 h
  obtain ⟨hkey, hvalue⟩ := divided_iff.1 h'
  rw [readEntry, readEntry, ← hkey, ← hvalue]

/-- A key that is not empty does not begin with a blank. -/
theorem KeyText.dropWhile_append (hkey : KeyText key) (hne : key ≠ []) (rest : List Char) :
    (key ++ rest).dropWhile isBlank = key ++ rest := by
  cases hkey with
  | nil => exact absurd rfl hne
  | plain _ _ hblank => exact List.dropWhile_cons_of_neg (by simp [hblank])
  | pair => rfl

/-- A line that is not empty says something or not by its first character. -/
theorem isSilent_append (hne : key ≠ []) (rest : List Char) :
    isSilent (key ++ rest) = isSilent key := by
  cases key with
  | nil => exact absurd rfl hne
  | cons c key => rfl

/-- The logical lines of a text in which one of them is on one line alone. If it is the last line of
the text and still open there, its last backslash is dropped. -/
theorem wholeTexts_alone {line : List Char} (hopen : openAfter front = none)
    (hblanks : ∀ c ∈ blanks, isBlank c = true) (hline : line.dropWhile isBlank = line)
    (hspeaks : isSilent line = false) (halone : continues line = true → back = []) :
    wholeTexts none (front ++ (blanks ++ line) :: back) =
      (takeLines none front).1 ++
        (if continues line then line.dropLast else line) :: wholeTexts none back := by
  have hdrop : (blanks ++ line).dropWhile isBlank = line := by
    rw [dropWhile_blanks hblanks, hline]
  rw [wholeTexts_append, ← openAfter, hopen,
    wholeTexts_cons_speaking (by rwa [hdrop]), hdrop]
  cases hcontinues : continues line with
  | true =>
      rw [halone hcontinues, gatherOn_of_continues hcontinues]
      rfl
  | false =>
      rw [gatherOn_of_not_continues hcontinues]
      rfl

/-- **A logical line with another separator has the same entry.** -/
theorem readTexts_separator (hbegins : Begins front ((blanks ++ (key ++ gap ++ value)) :: back))
    (halone : EndsOpen (key ++ gap ++ value) → back = [])
    (hblanks : ∀ c ∈ blanks, isBlank c = true) (hne : key ≠ []) (hkey : KeyText key)
    (hgap : Separator gap) (hgap' : Separator gap')
    (hvalue : ∀ c ∈ value.head?, isBlank c = false ∧ isSign c = false) (table : Properties) :
    readTexts table (wholeTexts none (front ++ (blanks ++ (key ++ gap' ++ value)) :: back)) =
      readTexts table (wholeTexts none (front ++ (blanks ++ (key ++ gap ++ value)) :: back)) := by
  have hdrop (gap : List Char) :
      (key ++ gap ++ value).dropWhile isBlank = key ++ gap ++ value := by
    rw [List.append_assoc]
    exact hkey.dropWhile_append hne _
  have hspeaks : isSilent key = false := by
    have hspeaks := hbegins.nothing_open.2
    rwa [dropWhile_blanks hblanks, hdrop, List.append_assoc, isSilent_append hne] at hspeaks
  have hspeaks' (gap : List Char) : isSilent (key ++ gap ++ value) = false := by
    rwa [List.append_assoc, isSilent_append hne]
  -- Both lines ask for another one exactly if their value does.
  have hends {gap : List Char} (hgap : Separator gap) :
      continues (key ++ gap ++ value) = continues value := by
    rw [Bool.eq_iff_iff, continues_iff, continues_iff, hgap.trailing_append]
  rw [endsOpen_iff, hends hgap] at halone
  have hlines {gap : List Char} (hgap : Separator gap) :
      wholeTexts none (front ++ (blanks ++ (key ++ gap ++ value)) :: back) =
        (takeLines none front).1 ++
          (if continues value then (key ++ gap ++ value).dropLast else key ++ gap ++ value) ::
            wholeTexts none back := by
    rw [← hends hgap]
    exact wholeTexts_alone hbegins.nothing_open.1 hblanks (hdrop gap) (hspeaks' gap)
      (by rwa [hends hgap])
  rw [hlines hgap, hlines hgap']
  refine readTexts_congr ?_ table _ _
  cases hcontinues : continues value with
  | false =>
      exact Divided.readEntry_eq (.behind hkey (hgap.gap_append hvalue))
        (.behind hkey (hgap'.gap_append hvalue))
  | true =>
      have hvalue_ne : value ≠ [] := by
        rintro rfl
        cases hcontinues
      have hhead : ∀ c ∈ value.dropLast.head?, isBlank c = false ∧ isSign c = false := by
        intro c hc
        rw [List.head?_dropLast, Option.mem_ite_none_right] at hc
        exact hvalue c hc.2
      simp only [if_true, List.dropLast_append_of_ne_nil hvalue_ne]
      exact Divided.readEntry_eq (.behind hkey (hgap.gap_append hhead))
        (.behind hkey (hgap'.gap_append hhead))

/-! ### Whole texts -/

/-- Whether a line holds no part of a break. -/
def Unbroken (line : List Char) : Prop := '\n' ∉ line ∧ '\r' ∉ line

/-- A text is on one line if both its parts are. -/
theorem unbroken_append {front back : List Char} :
    Unbroken (front ++ back) ↔ Unbroken front ∧ Unbroken back := by
  simp only [Unbroken, List.mem_append, not_or]
  exact and_and_and_comm

/-- Blanks are on one line. -/
theorem unbroken_of_blanks (h : ∀ c ∈ blanks, isBlank c = true) : Unbroken blanks :=
  ⟨fun hc => (ne_of_isBlank (h _ hc)).2.1 rfl, fun hc => (ne_of_isBlank (h _ hc)).2.2 rfl⟩

/-- A separator is on one line. -/
theorem Separator.unbroken (h : Separator gap) : Unbroken gap := by
  refine ⟨fun hc => ?_, fun hc => ?_⟩
  · rcases h.isBlank_or _ hc with hblank | hsign
    · exact (ne_of_isBlank hblank).2.1 rfl
    · exact (ne_of_isSign hsign).2.1 rfl
  · rcases h.isBlank_or _ hc with hblank | hsign
    · exact (ne_of_isBlank hblank).2.2 rfl
    · exact (ne_of_isSign hsign).2.2 rfl

/-- Lines without breaks of their own are cut where they were put together. -/
theorem lines_of_unbroken (h : ∀ line ∈ lines, Unbroken line) :
    Text.lines (lines.flatMap (· ++ ['\n'])) = lines := by
  rw [Text.lines_flatMap fun line hline => (h line hline).1,
    Text.map_withoutBreak fun line hline => (h line hline).2]

/-- The same where each break has a carriage return. -/
theorem lines_of_unbroken_returns (h : ∀ line ∈ lines, Unbroken line) :
    Text.lines (lines.flatMap (· ++ ['\r', '\n'])) = lines := by
  have hreturns : lines.flatMap (· ++ ['\r', '\n']) =
      (lines.map (· ++ ['\r'])).flatMap (· ++ ['\n']) := by
    simp [List.flatMap_map]
  rw [hreturns, Text.lines_flatMap, List.map_map]
  · simp [Text.withoutBreak, Function.comp_def]
  · intro line hline
    obtain ⟨line, hmem, rfl⟩ := List.mem_map.1 hline
    simp [(h line hmem).1]

/-- **The entries of the logical lines stay the same** when the layout of a text is changed. -/
theorem Relayout.readTexts_eq (h : Relayout lines lines') (hlines : ∀ line ∈ lines, Unbroken line)
    (table : Properties) :
    readTexts table (wholeTexts none (Text.lines (lines'.flatMap (· ++ ['\n'])))) =
      readTexts table (wholeTexts none lines) := by
  cases h with
  | @insert front back raw hraw hfeed hplace =>
      have hopen : openAfter front = none := by
        rcases hplace with hbegins | ⟨-, hopen⟩
        · obtain ⟨first, rest, rfl⟩ := List.exists_cons_of_ne_nil hbegins.ne_nil
          exact hbegins.nothing_open.1
        · exact hopen
      have hcut : Text.lines ((front ++ raw :: back).flatMap (· ++ ['\n'])) =
          front ++ Text.withoutBreak (raw, true) :: back := by
        rw [Text.lines_flatMap]
        · rw [List.map_append, List.map_cons,
            Text.map_withoutBreak fun line hline => (hlines line (List.mem_append_left _ hline)).2,
            Text.map_withoutBreak fun line hline => (hlines line (List.mem_append_right _ hline)).2]
        · intro line hline
          rcases List.mem_append.1 hline with hline | hline
          · exact (hlines line (List.mem_append_left _ hline)).1
          · rcases List.mem_cons.1 hline with rfl | hline
            · exact hfeed
            · exact (hlines line (List.mem_append_right _ hline)).1
      rw [hcut, wholeTexts_insert hraw.withoutBreak hopen]
  | @blanks front back blanks blanks' body hbegins hblanks hblanks' =>
      simp only [List.forall_mem_append, List.forall_mem_cons, unbroken_append] at hlines
      rw [lines_of_unbroken, wholeTexts_blanks hblanks hblanks']
      simp only [List.forall_mem_append, List.forall_mem_cons, unbroken_append]
      exact ⟨hlines.1, ⟨unbroken_of_blanks hblanks', hlines.2.1.2⟩, hlines.2.2⟩
  | @wrap front back before after blanks hplace hbefore hafter hblanks =>
      simp only [List.forall_mem_append, List.forall_mem_cons, unbroken_append] at hlines
      rw [lines_of_unbroken, wholeTexts_wrap hplace hbefore hafter hblanks]
      simp only [List.forall_mem_append, List.forall_mem_cons, unbroken_append]
      exact ⟨hlines.1, ⟨hlines.2.1.1, by simp [Unbroken]⟩,
        ⟨unbroken_of_blanks hblanks, hlines.2.1.2⟩, hlines.2.2⟩
  | @separator front back blanks key gap gap' value hbegins halone hblanks hne hkey hgap hgap'
      hvalue =>
      simp only [List.forall_mem_append, List.forall_mem_cons, unbroken_append] at hlines
      rw [lines_of_unbroken,
        readTexts_separator hbegins halone hblanks hne hkey hgap hgap' hvalue]
      simp only [List.forall_mem_append, List.forall_mem_cons, unbroken_append]
      obtain ⟨hfront, ⟨hlead, ⟨hkey, -⟩, hvalue⟩, hback⟩ := hlines
      exact ⟨hfront, ⟨hlead, ⟨hkey, hgap'.unbroken⟩, hvalue⟩, hback⟩

/-- **A change of the layout makes no difference.** For a text of lines that end in line feeds, the
same table is read when each break gets a carriage return, and when a line that says nothing comes
in, a logical line begins with other blanks, is broken or gets another separator. A text that cannot
be read stays so, with the same cause. -/
theorem parse_relayout (hlines : ∀ line ∈ lines, Unbroken line) :
    (parse (lines.flatMap (· ++ ['\r', '\n']))).mapError Fault.cause =
        (parse (lines.flatMap (· ++ ['\n']))).mapError Fault.cause ∧
      ∀ lines', Relayout lines lines' →
        (parse (lines'.flatMap (· ++ ['\n']))).mapError Fault.cause =
          (parse (lines.flatMap (· ++ ['\n']))).mapError Fault.cause := by
  refine ⟨?_, fun lines' hrelayout => ?_⟩
  · rw [mapError_parse, mapError_parse, lines_of_unbroken hlines, lines_of_unbroken_returns hlines]
  · rw [mapError_parse, mapError_parse, lines_of_unbroken hlines]
    exact hrelayout.readTexts_eq hlines .empty

end

/-! ### An instance -/

/-- A logical line on two lines, and another one behind it. -/
def sampleLines : List (List Char) := ["k=v\\".toList, "  w".toList, "a b".toList]

/-- The same with a comment between them, which ends in a backslash and a carriage return. -/
def sampleCommented : List (List Char) :=
  ["k=v\\".toList, "  w".toList, " # x\\\r".toList, "a b".toList]

/-- The comment makes no difference. -/
theorem parse_relayout_sampleLines :
    (∀ line ∈ sampleLines, Unbroken line) ∧ Relayout sampleLines sampleCommented ∧
      (parse (sampleCommented.flatMap (· ++ ['\n']))).mapError Fault.cause =
        (parse (sampleLines.flatMap (· ++ ['\n']))).mapError Fault.cause := by
  have hunbroken : ∀ line ∈ sampleLines, Unbroken line := by
    simp only [sampleLines, List.forall_mem_cons, Unbroken]
    refine ⟨?_, ?_, ?_, List.forall_mem_nil _⟩ <;> decide
  have hgathers : Gathers "k=v\\".toList ((["  w".toList, "a b".toList]).zipIdx 2) "k=vw".toList
      [("a b".toList, 3)] :=
    .absorb (endsOpen_iff.2 (by decide)) (.whole (endsOpen_iff.not.2 (by decide)))
  have hbegins : Begins ["k=v\\".toList, "  w".toList] ["a b".toList] :=
    ⟨"a b".toList, .behind (by decide) hgathers
      (.here (by decide) (.whole (endsOpen_iff.not.2 (by decide))))⟩
  have hcomment : SaysNothing ([' '] ++ '#' :: " x\\\r".toList) :=
    .comment (List.forall_mem_singleton.2 rfl) (.inl rfl)
  have hrelayout : Relayout (["k=v\\".toList, "  w".toList] ++ ["a b".toList])
      (["k=v\\".toList, "  w".toList] ++ " # x\\\r".toList :: ["a b".toList]) :=
    .insert hcomment (by decide) (.inl hbegins)
  exact ⟨hunbroken, hrelayout, (parse_relayout hunbroken).2 _ hrelayout⟩

end ConfigGraft.Properties
