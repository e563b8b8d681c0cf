/-!
# Blank characters

The characters with the Unicode property `White_Space`, and the removal of runs of them from the
ends of a text. Variable files are trimmed with them, and a document that holds nothing else
counts as empty.
-/

namespace ConfigGraft.Text

/-- Whether a character has the Unicode property `White_Space`. -/
def isBlank (c : Char) : Bool :=
  let n := c.toNat
  (0x9 ≤ n && n ≤ 0xD) || n == 0x20 || n == 0x85 || n == 0xA0 || n == 0x1680 ||
    (0x2000 ≤ n && n ≤ 0x200A) || n == 0x2028 || n == 0x2029 || n == 0x202F || n == 0x205F ||
    n == 0x3000

/-- The text without the characters of a class at its end. -/
def dropEnd (p : Char → Bool) (cs : List Char) : List Char :=
  (cs.reverse.dropWhile p).reverse

/-- The text without blanks at either end. -/
def trim (cs : List Char) : List Char :=
  dropEnd isBlank (cs.dropWhile isBlank)

/-- Nothing is left of nothing. -/
@[simp] theorem trim_nil : trim [] = [] := rfl

/-- A blank at the end does not matter. -/
theorem trim_concat {c : Char} (h : isBlank c = true) (cs : List Char) :
    trim (cs ++ [c]) = trim cs := by
  have hdrop (ds : List Char) : dropEnd isBlank (ds ++ [c]) = dropEnd isBlank ds := by
    rw [dropEnd, List.reverse_append, List.reverse_singleton, List.singleton_append,
      List.dropWhile_cons_of_pos h, dropEnd]
  rw [trim, List.dropWhile_append, trim]
  split
  · rename_i hempty
    rw [List.isEmpty_iff.1 hempty, List.dropWhile_cons_of_pos h, List.dropWhile_nil]
  · exact hdrop _

/-- A text without blanks at its ends stays as it is. -/
theorem trim_eq_self {cs : List Char} (hhead : ∀ c ∈ cs.head?, isBlank c = false)
    (hlast : ∀ c ∈ cs.getLast?, isBlank c = false) : trim cs = cs := by
  have hdrop {ds : List Char} (h : ∀ c ∈ ds.head?, isBlank c = false) :
      ds.dropWhile isBlank = ds := by
    cases ds with
    | nil => rfl
    | cons d ds => exact List.dropWhile_cons_of_neg (by simp [h d rfl])
  rw [trim, hdrop hhead, dropEnd, hdrop (by rwa [List.head?_reverse]), List.reverse_reverse]

/-- A text that stays as it is begins with no blank. -/
theorem head?_of_trim_eq_self {cs : List Char} (h : trim cs = cs) :
    ∀ c ∈ cs.head?, isBlank c = false := by
  intro c hc
  cases cs with
  | nil => cases hc
  | cons d cs =>
    obtain rfl := Option.some.inj hc
    refine eq_false_of_ne_true fun hblank => ?_
    -- The blank would be dropped, and nothing makes up for it.
    have hlength := congrArg List.length h
    have hdropped := (List.dropWhile_sublist isBlank (l := cs)).length_le
    have hkept := (List.dropWhile_sublist isBlank (l := (cs.dropWhile isBlank).reverse)).length_le
    rw [List.length_reverse] at hkept
    rw [trim, List.dropWhile_cons_of_pos hblank, dropEnd, List.length_reverse,
      List.length_cons] at hlength
    omega

end ConfigGraft.Text
