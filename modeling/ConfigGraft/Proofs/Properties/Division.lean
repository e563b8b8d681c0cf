import ConfigGraft.Proofs.Properties.Escapes
import ConfigGraft.Proofs.Properties.Malformed

/-!
# The division of a line

A logical line is divided into a key and a value. The key goes up to the first sign or blank that no
backslash protects. Between it and the value there are blanks, and one sign at most with blanks
around it. `Divided` says so without a procedure, and there is one way only to divide a line, the
one in which the reader does it.

## Main results

* `divided_iff` — the reader divides a line as it is said;
* `readEntry_error_iff` — **a line is rejected exactly if an escape in its key or in its value is
  malformed.**
-/

namespace ConfigGraft.Properties

/-- A text in which a backslash protects every sign and every blank. -/
inductive KeyText : List Char → Prop
  | nil : KeyText []
  | plain {c : Char} {cs : List Char} :
      c ≠ '\\' → isSign c = false → isBlank c = false → KeyText cs → KeyText (c :: cs)
  | pair {c : Char} {cs : List Char} : KeyText cs → KeyText ('\\' :: c :: cs)

/-- What stands between a key and the value behind it: nothing at the end of the line, blanks, or a
sign with blanks around it. -/
inductive Gap : List Char → List Char → Prop
  | none : Gap [] []
  | blanks {gap value : List Char} :
      gap ≠ [] → (∀ c ∈ gap, isBlank c = true) →
        (∀ c ∈ value.head?, isBlank c = false ∧ isSign c = false) → Gap gap value
  | sign {before after value : List Char} {c : Char} :
      (∀ d ∈ before, isBlank d = true) → isSign c = true → (∀ d ∈ after, isBlank d = true) →
        (∀ d ∈ value.head?, isBlank d = false) → Gap (before ++ c :: after) value

/-- **A line, its key and its value.** A backslash at the very end of the line protects nothing and
belongs to the key. -/
inductive Divided : List Char → List Char → List Char → Prop
  | behind {key gap value : List Char} :
      KeyText key → Gap gap value → Divided (key ++ gap ++ value) key value
  | loose {key : List Char} : KeyText key → Divided (key ++ ['\\']) (key ++ ['\\']) []

section

variable {line key gap value cs : List Char} {c : Char}

/-! ### Keys -/

/-- No sign is a blank. -/
theorem isBlank_of_isSign (h : isSign c = true) : isBlank c = false := by
  simp only [isSign, Bool.or_eq_true, beq_iff_eq] at h
  obtain rfl | rfl := h <;> rfl

/-- No blank is a sign. -/
theorem isSign_of_isBlank (h : isBlank c = true) : isSign c = false :=
  eq_false_of_ne_true fun hsign => absurd h (by simp [isBlank_of_isSign hsign])

/-- A key goes on through protected characters. -/
theorem KeyText.cutKey_append (h : KeyText key) (rest : List Char) :
    cutKey (key ++ rest) = (key ++ (cutKey rest).1, (cutKey rest).2) := by
  induction h with
  | nil => rfl
  | plain hback hsign hblank _ ih => rw [List.cons_append, cutKey_plain hback hsign hblank, ih]; rfl
  | pair _ ih => rw [List.cons_append, List.cons_append, cutKey_escape, ih]; rfl

/-- A key ends at a sign or a blank. -/
theorem cutKey_stop (h : isSign c = true ∨ isBlank c = true) (rest : List Char) :
    cutKey (c :: rest) = ([], c :: rest) := by
  have hback : c ≠ '\\' := by
    rintro rfl
    revert h
    decide
  rw [cutKey]
  · rw [if_pos (by simpa using h)]
  all_goals simp_all

/-- A key ends where the gap begins. -/
theorem Gap.cutKey_append (h : Gap gap value) : cutKey (gap ++ value) = ([], gap ++ value) := by
  cases h with
  | none => rfl
  | blanks hne hblanks =>
      cases gap with
      | nil => exact absurd rfl hne
      | cons c gap => exact cutKey_stop (.inr (hblanks c List.mem_cons_self)) _
  | @sign before _ _ c hbefore hsign =>
      cases before with
      | nil => exact cutKey_stop (.inl hsign) _
      | cons d before => exact cutKey_stop (.inr (hbefore d List.mem_cons_self)) _

/-! ### Values -/

/-- Blanks are left out up to a character that is none. -/
theorem dropWhile_isBlank_append (hgap : ∀ c ∈ gap, isBlank c = true)
    (hvalue : ∀ c ∈ value.head?, isBlank c = false) :
    (gap ++ value).dropWhile isBlank = value := by
  rw [List.dropWhile_append_of_pos hgap]
  cases value with
  | nil => rfl
  | cons c value => rw [List.dropWhile_cons_of_neg (by simp [hvalue c rfl])]

/-- The value begins where the gap ends. -/
theorem Gap.valuePart_append (h : Gap gap value) : valuePart (gap ++ value) = value := by
  cases h with
  | none => rfl
  | blanks hne hblanks hvalue =>
      cases gap with
      | nil => exact absurd rfl hne
      | cons c gap =>
          obtain ⟨hc, hgap⟩ := List.forall_mem_cons.1 hblanks
          rw [List.cons_append, valuePart, if_neg (by simp [isSign_of_isBlank hc]),
            dropWhile_isBlank_append hgap fun c hc => (hvalue c hc).1]
          cases value with
          | nil => rfl
          | cons d value => exact if_neg (by simp [hvalue d rfl])
  | @sign before after _ c hbefore hsign hafter hvalue =>
      have hbehind := dropWhile_isBlank_append hafter hvalue
      cases before with
      | nil => rw [List.nil_append, List.cons_append, valuePart, if_pos hsign, hbehind]
      | cons d before =>
          obtain ⟨hd, hbefore⟩ := List.forall_mem_cons.1 hbefore
          have hstop : ∀ d ∈ (c :: (after ++ value)).head?, isBlank d = false := by
            rintro _ ⟨⟩
            exact isBlank_of_isSign hsign
          rw [List.cons_append, List.cons_append, List.append_assoc, List.cons_append, valuePart,
            if_neg (by simp [isSign_of_isBlank hd]), dropWhile_isBlank_append hbefore hstop]
          simp only [hsign, if_true, hbehind]

/-- What is left after the blanks does not begin with one. -/
theorem head?_dropWhile_isBlank (cs : List Char) :
    ∀ c ∈ (cs.dropWhile isBlank).head?, isBlank c = false := by
  intro c hc
  have hhead := List.head?_dropWhile_not isBlank cs
  rw [hc] at hhead
  exact hhead

/-- Behind a key there is a gap, and then the value. -/
theorem exists_gap (h : isSign c = true ∨ isBlank c = true) (rest : List Char) :
    ∃ gap, Gap gap (valuePart (c :: rest)) ∧ gap ++ valuePart (c :: rest) = c :: rest := by
  have hblanks (cs : List Char) : ∀ d ∈ cs.takeWhile isBlank, isBlank d = true :=
    List.all_eq_true.1 List.all_takeWhile
  have hcut (cs : List Char) : cs.takeWhile isBlank ++ cs.dropWhile isBlank = cs :=
    List.takeWhile_append_dropWhile
  rw [valuePart]
  split
  · rename_i hsign
    refine ⟨c :: rest.takeWhile isBlank, ?_, congrArg (c :: ·) (hcut rest)⟩
    exact .sign (List.forall_mem_nil _) hsign (hblanks rest) (head?_dropWhile_isBlank rest)
  · -- The key ends at a blank, and a sign may come behind more blanks.
    rename_i hsign
    have hc : ∀ d ∈ c :: rest.takeWhile isBlank, isBlank d = true :=
      List.forall_mem_cons.2 ⟨h.resolve_left hsign, hblanks rest⟩
    have hhead := head?_dropWhile_isBlank rest
    have hrest := hcut rest
    cases hdrop : rest.dropWhile isBlank with
    | nil =>
        rw [hdrop, List.append_nil] at hrest
        rw [hrest] at hc
        exact ⟨c :: rest, .blanks (List.cons_ne_nil _ _) hc (by rintro _ ⟨⟩), List.append_nil _⟩
    | cons d more =>
        rw [hdrop] at hhead hrest
        simp only
        split
        · rename_i hd
          refine ⟨(c :: rest.takeWhile isBlank) ++ d :: more.takeWhile isBlank, ?_, ?_⟩
          · exact .sign hc hd (hblanks more) (head?_dropWhile_isBlank more)
          · rw [List.append_assoc, List.cons_append, List.cons_append, hcut more, hrest]
        · rename_i hd
          refine ⟨c :: rest.takeWhile isBlank, .blanks (List.cons_ne_nil _ _) hc ?_, ?_⟩
          · rintro _ ⟨⟩
            exact ⟨hhead d rfl, eq_false_of_ne_true hd⟩
          · rw [List.cons_append, hrest]

/-! ### Lines -/

/-- A plain character in front belongs to the key. -/
theorem Divided.plain (hback : c ≠ '\\') (hsign : isSign c = false) (hblank : isBlank c = false)
    (h : Divided line key value) : Divided (c :: line) (c :: key) value := by
  cases h with
  | behind hkey hgap => exact .behind (.plain hback hsign hblank hkey) hgap
  | loose hkey => exact .loose (.plain hback hsign hblank hkey)

/-- So does a backslash, with the character behind it. -/
theorem Divided.pair (h : Divided line key value) :
    Divided ('\\' :: c :: line) ('\\' :: c :: key) value := by
  cases h with
  | behind hkey hgap => exact .behind (.pair hkey) hgap
  | loose hkey => exact .loose (.pair hkey)

/-- The reader divides a line. -/
theorem divided_cutKey (line : List Char) :
    Divided line (cutKey line).1 (valuePart (cutKey line).2) := by
  fun_induction cutKey line with
  | case1 => exact .behind .nil .none
  | case2 => exact .loose .nil
  | case3 c rest ih => exact ih.pair
  | case4 c rest _ _ hstop =>
      obtain ⟨gap, hgap, hline⟩ := exists_gap (by simpa using hstop) rest
      have hdivided := Divided.behind .nil hgap
      rwa [List.nil_append, hline] at hdivided
  | case5 c rest hpair hlast hstop ih =>
      have hback : c ≠ '\\' := by
        rintro rfl
        cases rest with
        | nil => exact hpair rfl rfl
        | cons d rest => exact hlast d rest rfl rfl
      rw [Bool.or_eq_true, not_or, Bool.not_eq_true, Bool.not_eq_true] at hstop
      exact ih.plain hback hstop.1 hstop.2

/-- **There is one way to divide a line**, the one in which the reader does it. -/
theorem divided_iff :
    Divided line key value ↔ key = (cutKey line).1 ∧ value = valuePart (cutKey line).2 := by
  constructor
  · rintro (⟨hkey, hgap⟩ | hkey)
    · rw [List.append_assoc, hkey.cutKey_append, hgap.cutKey_append, hgap.valuePart_append,
        List.append_nil]
      exact ⟨rfl, rfl⟩
    · rw [hkey.cutKey_append]
      exact ⟨rfl, rfl⟩
  · rintro ⟨rfl, rfl⟩
    exact divided_cutKey line

/-- Whether an escape in the key or in the value of a line is malformed. -/
def Faulty (line : List Char) : Prop :=
  ∃ key value, Divided line key value ∧ (Malformed key ∨ Malformed value)

/-- **A line is rejected exactly if an escape in its key or in its value is malformed.** -/
theorem readEntry_error_iff (line : List Char) :
    (∃ cause, readEntry line = .error cause) ↔ Faulty line := by
  have hfaulty : Faulty line ↔
      Malformed (cutKey line).1 ∨ Malformed (valuePart (cutKey line).2) := by
    simp [Faulty, divided_iff, and_assoc]
  rw [hfaulty, ← unescape_error_iff, ← unescape_error_iff, readEntry]
  cases unescape (cutKey line).1 with
  | error fault => simp
  | ok key => cases unescape (valuePart (cutKey line).2) <;> simp

end

end ConfigGraft.Properties
