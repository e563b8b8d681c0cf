import ConfigGraft.Yaml.Writer

/-!
# Characters of a written text

Everything that is written consists of printable characters: what is not printable is escaped. A
text of such characters may be read, and is not changed when it is prepared for that, since there is
one way only in it to end a line.

## Main results

* `Style.isBreak_eq` — writer and reader agree on where lines end;
* `oneBreak_eq_self` — a printable text is prepared as it is.
-/

namespace ConfigGraft.Yaml

namespace Style

variable {c : Char}

/-- A printable character may stand in a text. -/
theorem isAllowed_of_isPrintable (h : isPrintable c = true) : isAllowed c = true := by
  simp only [isPrintable, isAllowed, Bool.or_eq_true, Bool.and_eq_true] at h ⊢
  grind

/-- A printable character is none that is not. -/
theorem ne_of_isPrintable (h : isPrintable c = true) {d : Char} (hd : isPrintable d = false) :
    c ≠ d := by
  rintro rfl
  rw [hd] at h
  cases h

/-- Writer and reader agree on the printable characters that end a line. -/
theorem isBreak_eq (h : isPrintable c = true) : isBreak c = endsLine c := by
  have hreturn : (c == '\r') = false := beq_eq_false_iff_ne.2 (ne_of_isPrintable h (by decide))
  have hnext : (c == '\u0085') = false := beq_eq_false_iff_ne.2 (ne_of_isPrintable h (by decide))
  rw [isBreak, endsLine, hreturn, hnext, Bool.or_false, Bool.or_false]

/-- A space is the only printable blank. -/
theorem isBlank_eq (h : isPrintable c = true) : isBlank c = (c == ' ') := by
  have htab : (c == '\t') = false := beq_eq_false_iff_ne.2 (ne_of_isPrintable h (by decide))
  rw [isBlank, htab, Bool.or_false]

/-- What ends a line is not blank, if it is printable. -/
theorem isBlank_of_endsLine (h : isPrintable c = true) (hc : endsLine c = true) :
    isBlank c = false := by
  rw [isBlank_eq h]
  refine beq_eq_false_iff_ne.2 ?_
  rintro rfl
  cases hc

/-- No gap is in a printable character other than a space that does not end a line. -/
theorem not_gap_of_isPrintable (h : isPrintable c = true) (hends : endsLine c = false)
    (hspace : c ≠ ' ') : isBlank c = false ∧ isBreak c = false := by
  rw [isBlank_eq h, isBreak_eq h]
  exact ⟨beq_eq_false_iff_ne.2 hspace, hends⟩

/-- Before a gap that a reader sees there is one for the writer. -/
theorem gapAhead_of_atGap {cs : List Char} (h : atGap cs = true) : gapAhead cs = true := by
  cases cs with
  | nil => rfl
  | cons c cs =>
      simp only [atGap, gapAhead, isBlank, isBreak, endsLine, Bool.or_eq_true] at h ⊢
      grind

/-- A text that begins with no gap does so whatever is behind it. -/
theorem atGap_append {cs : List Char} (h : gapAhead cs = false) (tail : List Char) :
    atGap (cs ++ tail) = false := by
  cases cs with
  | nil => cases h
  | cons c cs =>
      refine eq_false_of_ne_true fun hgap => ?_
      have hahead : gapAhead (c :: cs) = true := gapAhead_of_atGap hgap
      rw [hahead] at h
      cases h

end Style

open Style

/-- What is not blank is neither a space nor a tab. -/
theorem ne_of_isBlank {c : Char} (h : isBlank c = false) : c ≠ ' ' ∧ c ≠ '\t' := by
  rwa [isBlank, Bool.or_eq_false_iff, beq_eq_false_iff_ne, beq_eq_false_iff_ne] at h

/-- A text of printable characters is prepared as it is. -/
theorem oneBreak_eq_self {cs : List Char} (h : ∀ c ∈ cs, isPrintable c = true) :
    oneBreak cs = cs := by
  fun_induction oneBreak cs with
  | case1 => rfl
  | case2 rest ih => exact absurd (h '\r' List.mem_cons_self) (by decide)
  | case3 c rest hne ih =>
      obtain ⟨hc, hrest⟩ := List.forall_mem_cons.1 h
      rw [ih hrest, if_neg]
      rintro (rfl | rfl) <;> cases hc

/-- A text of printable characters begins at its start. -/
theorem Token.start_eq {cs : List Char} (h : ∀ c ∈ cs, isPrintable c = true) :
    Token.start cs = ⟨cs, 0, 0⟩ := by
  unfold Token.start
  split
  · exact absurd (h '\ufeff' List.mem_cons_self) (by decide)
  · rfl

/-- Whether a token begins at the start of a text, or the text is at its end. A blank, a break and
the sign of a comment stand between tokens. -/
def Resumes (text : List Char) : Prop :=
  ∀ c, text.head? = some c → isBlank c = false ∧ isBreak c = false ∧ c ≠ '#'

/-- The end of a text counts as the start of a token. -/
theorem resumes_nil : Resumes [] := nofun

/-- A token begins at a character that stands in no gap. -/
theorem resumes_cons {c : Char} {text : List Char} (hblank : isBlank c = false)
    (hbreak : isBreak c = false) (hcomment : c ≠ '#') : Resumes (c :: text) := by
  rintro d ⟨⟩
  exact ⟨hblank, hbreak, hcomment⟩

end ConfigGraft.Yaml
