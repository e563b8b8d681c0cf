import ConfigGraft.Proofs.Yaml.Quoted

/-!
# Plain scalars are read as they were written

A text is written without quotes if it has nothing in it that would end a scalar or begin something
else: no sign at its start, no colon before a gap and no number sign behind one. So it is read up to
the colon or the line break that was written behind it.

## Main results

* `Plain.read?_text` — a plain text is passed over and kept;
* `Plain.read?_key`, `Plain.read?_line` — it ends at a colon before a gap, and where a line follows
  that is not indented.
-/

namespace ConfigGraft.Yaml

open Style Quoted

namespace Plain

/-- What was read, with text in front of it. -/
def withFront (front : List Char) (r : Option (List Char × Spot × Bool)) :
    Option (List Char × Spot × Bool) :=
  r.map fun found => (front ++ found.1, found.2)

/-- Fronts are put one before the other. -/
theorem withFront_withFront (front back : List Char) (r : Option (List Char × Spot × Bool)) :
    withFront front (withFront back r) = withFront (front ++ back) r := by
  cases r <;> simp [withFront]

/-- No front changes nothing. -/
theorem withFront_nil (r : Option (List Char × Spot × Bool)) : withFront [] r = r := by
  cases r <;> simp [withFront]

variable {floor line column : Nat} {gap : Gap} {front cs rest tail : List Char} {c : Char}

/-- A character that does not end the scalar is kept, behind what was held back. -/
theorem read?_char (hblank : isBlank c = false) (hbreak : isBreak c = false)
    (hends : endsAt false floor column gap (c :: rest) = false) :
    read? false floor (c :: rest) line column gap =
      withFront (gap.text ++ [c]) (read? false floor rest line (column + 1) {}) := by
  have hstray : isStrayColon false (c :: rest) = false := by
    unfold isStrayColon
    split <;> rfl
  rw [read?, if_neg (by simp [hblank]), if_neg (by simp [hbreak]), if_neg (by simp [hends]),
    if_neg (by simp [hstray])]
  cases read? false floor rest line (column + 1) {} <;> simp [withFront]

/-- A character within a line ends a scalar only as a colon before a gap, or behind a gap as the
sign of a comment. -/
theorem endsAt_eq_false (hheld : Held false gap front) (hcolon : c = ':' → atGap rest = false)
    (hgap : front ≠ [] → floor ≤ column ∧ 0 < column ∧ c ≠ '#') :
    endsAt false floor column gap (c :: rest) = false := by
  have hcolon' : (c == ':' && atGap rest) = false := by
    by_cases hc : c = ':'
    · simp [hcolon hc]
    · simp [hc]
  cases hheld with
  | within =>
      cases front with
      | nil => simp [endsAt, Gap.isEmpty, Gap.crosses, hcolon']
      | cons a front =>
          obtain ⟨hfloor, hcolumn, hcomment⟩ := hgap (List.cons_ne_nil _ _)
          have hfirst : (column == 0) = false := beq_eq_false_iff_ne.2 (by omega)
          simp [endsAt, hcolon', hfirst, hcomment, hfloor]

/-- Behind a character of the text, the rest of it is passed over and kept. -/
theorem read?_inner {a : Char} (hheld : Held false gap front)
    (hplain : ∀ c ∈ cs, isPrintable c = true ∧ endsLine c = false)
    (hsign : innerSign (a :: cs) = false) (ha : front ≠ [] → a = ' ')
    (hlast : (front ++ cs).getLast? ≠ some ' ') (hfloor : floor ≤ column + 1)
    (hgap : front ≠ [] → floor ≤ column ∧ 0 < column) (tail : List Char) :
    read? false floor (cs ++ tail) line column gap =
      withFront (front ++ cs) (read? false floor tail line (column + cs.length) {}) := by
  induction cs generalizing a front gap column with
  | nil =>
      cases hheld with
      | within hspaces =>
          rcases List.eq_nil_or_concat front with rfl | ⟨more, b, rfl⟩
          · exact (withFront_nil _).symm
          · refine absurd ?_ hlast
            simpa using hspaces b (by simp)
  | cons c cs ih =>
      obtain ⟨⟨hc, hends⟩, hcs⟩ := List.forall_mem_cons.1 hplain
      rw [innerSign, Bool.or_eq_false_iff, Bool.or_eq_false_iff] at hsign
      obtain ⟨⟨hcolon, hcomment⟩, hsign⟩ := hsign
      have happend : front ++ c :: cs = (front ++ [c]) ++ cs := by simp
      have hlength : column + (c :: cs).length = column + 1 + cs.length := by
        rw [List.length_cons]
        omega
      by_cases hspace : c = ' '
      · subst hspace
        rw [List.cons_append, read?, if_pos (by decide), if_neg (fun h => absurd h.1 (by decide)),
          ih hheld.addBlank hcs hsign (fun _ => rfl) (happend ▸ hlast) (by omega)
            (fun _ => ⟨by omega, by omega⟩), happend, hlength]
      · obtain ⟨hblank, hbreak⟩ := not_gap_of_isPrintable hc hends hspace
        have hnot : endsAt false floor column gap (c :: (cs ++ tail)) = false := by
          refine endsAt_eq_false hheld ?_ ?_
          · rintro rfl
            rw [beq_self_eq_true, Bool.true_and] at hcolon
            exact atGap_append hcolon tail
          · intro hfront
            refine ⟨(hgap hfront).1, (hgap hfront).2, ?_⟩
            rintro rfl
            rw [ha hfront] at hcomment
            cases hcomment
        have hlater : cs.getLast? ≠ some ' ' := by
          cases cs with
          | nil => simp
          | cons b cs => simpa [List.getLast?_append, List.getLast?_cons_cons] using hlast
        rw [List.cons_append, read?_char hblank hbreak hnot,
          ih held_nil hcs hsign (fun h => absurd rfl h) hlater (by omega) (fun h => absurd rfl h),
          withFront_withFront, hheld.text_eq, hlength]
        simp

/-- What makes a text plain: its characters, what it begins with, and what is in it. -/
theorem of_plainAllowed (h : plainAllowed cs = true) :
    startsLikeMark cs = false ∧ leadingSign cs = false ∧ innerSign cs = false ∧
      (∀ c ∈ cs, isPrintable c = true ∧ endsLine c = false) ∧ cs.head? ≠ some ' ' ∧
      cs.getLast? ≠ some ' ' := by
  simp only [plainAllowed, Bool.and_eq_true, Bool.not_eq_true', List.all_eq_true,
    List.any_eq_false, bne_iff_ne, Bool.not_eq_true] at h
  obtain ⟨⟨⟨⟨⟨⟨hmark, hlead⟩, hinner⟩, hprintable⟩, hends⟩, hhead⟩, hlast⟩ := h
  exact ⟨hmark, hlead, hinner, fun c hc => ⟨hprintable c hc, hends c hc⟩, hhead, hlast⟩

/-- A plain text begins with no gap. -/
theorem not_gap_of_plainAllowed (h : plainAllowed (c :: cs) = true) :
    isBlank c = false ∧ isBreak c = false := by
  obtain ⟨-, -, -, hchars, hhead, -⟩ := of_plainAllowed h
  obtain ⟨hprintable, hends⟩ := hchars c List.mem_cons_self
  exact not_gap_of_isPrintable hprintable hends fun heq => hhead (congrArg some heq)

/-- **A plain text is passed over and kept.** Only the columns behind its first character have to
be far enough in. -/
theorem read?_text (hplain : plainAllowed cs = true) (hne : cs ≠ []) (hfloor : floor ≤ column + 1)
    (tail : List Char) :
    read? false floor (cs ++ tail) line column {} =
      withFront cs (read? false floor tail line (column + cs.length) {}) := by
  obtain ⟨-, hlead, hinner, hchars, -, hlast⟩ := of_plainAllowed hplain
  cases cs with
  | nil => exact absurd rfl hne
  | cons c cs =>
      have hcs := (List.forall_mem_cons.1 hchars).2
      rw [leadingSign, Bool.or_eq_false_iff] at hlead
      obtain ⟨hblank, hbreak⟩ := not_gap_of_plainAllowed hplain
      have hnot : endsAt false floor column {} (c :: (cs ++ tail)) = false := by
        refine endsAt_eq_false held_nil ?_ (fun h => absurd rfl h)
        rintro rfl
        exact atGap_append (by simpa using hlead.2) tail
      have hlater : ([] ++ cs).getLast? ≠ some ' ' := by
        cases cs with
        | nil => simp
        | cons b cs => simpa [List.getLast?_cons_cons] using hlast
      rw [List.cons_append, read?_char hblank hbreak hnot,
        read?_inner held_nil hcs hinner (fun h => absurd rfl h) hlater (by omega)
          (fun h => absurd rfl h), withFront_withFront, List.length_cons]
      have hlength : column + 1 + cs.length = column + (cs.length + 1) := by omega
      rw [hlength]
      rfl

/-- **A plain scalar ends at a colon before a gap.** -/
theorem read?_key (hgap : atGap tail = true) :
    read? false floor (':' :: tail) line column {} =
      some ([], ⟨':' :: tail, line, column⟩, false) := by
  have hends : endsAt false floor column {} (':' :: tail) = true := by
    simp [endsAt, hgap]
  rw [read?, if_neg (by decide), if_neg (by decide), if_pos hends]
  rfl

/-- Spaces at the start of a line are passed over. -/
theorem read?_spaces {more : List Char} (hcrosses : gap.crosses = true) (n : Nat) :
    read? false floor (spaces n ++ more) line column gap =
      read? false floor more line (column + n) gap := by
  induction n generalizing column with
  | zero => rfl
  | succ n ih =>
      have hspaces : spaces (n + 1) ++ more = ' ' :: (spaces n ++ more) := rfl
      have hcolumn : column + 1 + n = column + (n + 1) := by omega
      rw [hspaces, read?, if_pos (by decide), if_neg (fun h => absurd h.1 (by decide)),
        Gap.addBlank, if_pos hcrosses, ih, hcolumn]

/-- **A plain scalar ends where a line follows that is not indented.** -/
theorem read?_line {next : List Char} {indent : Nat} (hindent : indent < floor)
    (hnext : Resumes next) :
    read? false floor ('\n' :: (spaces indent ++ next)) line column {} =
      some ([], ⟨next, line + 1, indent⟩, true) := by
  have hcrosses : (Gap.addBreak '\n' {}).crosses = true := rfl
  rw [read?, if_neg (by decide), if_pos (by decide), read?_spaces hcrosses, Nat.zero_add]
  cases next with
  | nil => rfl
  | cons c next =>
      obtain ⟨hblank, hbreak, -⟩ := hnext c rfl
      have hends : endsAt false floor indent (Gap.addBreak '\n' {}) (c :: next) = true := by
        simp [endsAt, Gap.isEmpty, hcrosses, hindent]
      rw [read?, if_neg (by simp [hblank]), if_neg (by simp [hbreak]), if_pos hends, hcrosses]

end Plain

end ConfigGraft.Yaml
