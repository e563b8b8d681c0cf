import ConfigGraft.Proofs.Binary64.FewDigits
import ConfigGraft.Yaml.Reader

/-!
# Numbers are written and read again

The text of a number begins with a digit, behind a minus sign if there is one, so it is neither one
of the words for no value and for a truth value nor one of those for infinity. A whole number has no
other characters, and no zero that it does not need. A floating-point number has a point or an
exponent, which no whole number has.

The text that a number was read from is another matter: it is that of the number only if it is
spelled in the same way.

## Main results

* `Number.text_eq_iff` — **a whole number has the text that it was read from exactly if that is a
  plain numeral;**
* `Number.text_eq_layout` — a number that was spelled with few digits has these digits in its text;
* `Value.ofPlain?_text` — **the text of a number that was read means that number.**
-/

namespace ConfigGraft.Yaml

open Decimal

variable {c : Char} {cs ds : List Char}

/-- A minus sign, if there is one. -/
def minus (negative : Bool) : List Char := if negative then ['-'] else []

/-! ### Texts that begin with a digit -/

namespace Number

/-- A sign has no say in whether digits are padded with zeros. -/
theorem isPaddedDigits_minus (negative : Bool) (hc : c.isDigit = true) (cs : List Char) :
    isPaddedDigits (minus negative ++ c :: cs) =
      (c == '0' && !cs.isEmpty && cs.all Char.isDigit) := by
  rw [isPaddedDigits, minus, splitSign_of_isDigit negative hc]
  split
  · rename_i rest heq
    cases heq
    rfl
  · rename_i hne
    have hzero : c ≠ '0' := by
      rintro rfl
      exact hne cs rfl
    rw [beq_false_of_ne hzero, Bool.false_and, Bool.false_and]

/-- No plus sign stands before a minus sign or a digit. -/
theorem dropPlus_minus (negative : Bool) (hc : c.isDigit = true) (cs : List Char) :
    dropPlus (minus negative ++ c :: cs) = minus negative ++ c :: cs := by
  have hplus : c ≠ '+' := ne_of_isDigit hc rfl
  cases negative with
  | true => rfl
  | false => exact dropPlus.eq_2 _ fun rest heq => hplus (List.head_eq_of_cons_eq heq)

/-- A whole number is read off its digits, and its sign off the sign. -/
theorem readWhole?_minus (negative : Bool) (hc : c.isDigit = true) (cs : List Char) :
    readWhole? (minus negative ++ c :: cs) =
      (size? (isPaddedDigits (minus negative ++ c :: cs)) (c :: cs)).map fun n : Nat =>
        if negative then -(n : Int) else (n : Int) := by
  cases negative with
  | true =>
    refine (readWhole?.eq_1 (c :: cs)).trans ?_
    cases hsize : size? (isPaddedDigits ('-' :: c :: cs)) (c :: cs) <;> simp [minus, hsize]
  | false =>
    have hminus : c ≠ '-' := ne_of_isDigit hc rfl
    have hdrop := dropPlus_minus false hc cs
    refine (readWhole?.eq_2 _ fun rest heq => hminus (List.head_eq_of_cons_eq heq)).trans ?_
    exact congrArg (fun text => (size? (isPaddedDigits (c :: cs)) text).map Int.ofNat) hdrop

/-- A text that begins with a digit is none of the words for infinity. -/
theorem readFloat?_minus (negative : Bool) (hc : c.isDigit = true) (cs : List Char) :
    readFloat? (minus negative ++ c :: cs) =
      (Decimal.read? (minus negative ++ c :: cs)).bind fun d =>
        if (Binary64.ofDecimal d).isFinite then some (.ofDecimal d) else none := by
  have hpoint : c ≠ '.' := ne_of_isDigit hc rfl
  have hplus : c ≠ '+' := ne_of_isDigit hc rfl
  have hminus : c ≠ '-' := ne_of_isDigit hc rfl
  rw [readFloat?, dropPlus_minus negative hc]
  cases hread : Decimal.read? (minus negative ++ c :: cs) <;> cases negative <;>
    simp [minus, hpoint, hplus, hminus]

end Number

namespace Value

/-- What begins as a number is not null. -/
theorem isNullText_minus (negative : Bool) (hc : c.isDigit = true) (cs : List Char) :
    isNullText (minus negative ++ c :: cs) = false := by
  have hother : c ≠ '~' ∧ c ≠ 'n' ∧ c ≠ 'N' :=
    ⟨ne_of_isDigit hc rfl, ne_of_isDigit hc rfl, ne_of_isDigit hc rfl⟩
  cases negative <;> simp [isNullText, minus, hother]

/-- Nor is it a truth value. -/
theorem truth?_minus (negative : Bool) (hc : c.isDigit = true) (cs : List Char) :
    truth? (minus negative ++ c :: cs) = none := by
  have hother : c ≠ 't' ∧ c ≠ 'T' ∧ c ≠ 'f' ∧ c ≠ 'F' :=
    ⟨ne_of_isDigit hc rfl, ne_of_isDigit hc rfl, ne_of_isDigit hc rfl, ne_of_isDigit hc rfl⟩
  cases negative <;> simp [truth?, minus, hother]

/-- What a text that begins with a digit means if it is a whole number. -/
theorem ofPlain?_of_readWhole? {n : Int} (negative : Bool) (hc : c.isDigit = true)
    (hread : Number.readWhole? (minus negative ++ c :: cs) = some n)
    (hfits : Number.fits 64 n = true) :
    ofPlain? (minus negative ++ c :: cs) = some (.number (.whole n)) := by
  have hne : minus negative ++ c :: cs ≠ [] := List.append_ne_nil_of_right_ne_nil _ nofun
  have hnull := isNullText_minus negative hc cs
  rw [ofPlain?, if_neg (by simp [hne, hnull]), truth?_minus negative hc, readWhole?, hread,
    Option.bind_some, wholeNumber?, if_pos hfits]

/-- What a text that begins with a digit means if it is a floating-point number. -/
theorem ofPlain?_of_readFloat? {x : Binary64} (negative : Bool) (hc : c.isDigit = true)
    (hwhole : Number.readWhole? (minus negative ++ c :: cs) = none)
    (hpadded : Number.isPaddedDigits (minus negative ++ c :: cs) = false)
    (hread : Number.readFloat? (minus negative ++ c :: cs) = some x) :
    ofPlain? (minus negative ++ c :: cs) = some (.number (.float x)) := by
  have hne : minus negative ++ c :: cs ≠ [] := List.append_ne_nil_of_right_ne_nil _ nofun
  have hnull := isNullText_minus negative hc cs
  rw [ofPlain?, if_neg (by simp [hne, hnull]), truth?_minus negative hc, readWhole?, hwhole,
    Option.bind_none, hpadded, hread]
  rfl

end Value

/-! ### Digits -/

namespace Number

/-- A digit has its distance from zero as value. -/
theorem digitValue?_of_isDigit (hc : c.isDigit = true) :
    digitValue? 10 c = some (c.toNat - 48) := by
  rw [digitValue?, if_pos hc]
  exact if_pos (digitChar_of_isDigit hc).1

/-- Digits are read as what they spell. -/
theorem natOfDigits?_digits (hne : ds ≠ []) (hds : ∀ c ∈ ds, c.isDigit = true) :
    natOfDigits? 10 ds = some (natOfDigits ds) := by
  have hfold : ∀ n, ds.foldlM (fun n c => (digitValue? 10 c).map (n * 10 + ·)) n =
      some (ds.foldl (fun n c => n * 10 + (c.toNat - 48)) n) := by
    clear hne
    induction ds with
    | nil => exact fun _ => rfl
    | cons c ds ih =>
      obtain ⟨hc, hds⟩ := List.forall_mem_cons.1 hds
      intro n
      rw [List.foldlM_cons, digitValue?_of_isDigit hc]
      exact ih hds _
  cases ds with
  | nil => exact absurd rfl hne
  | cons c ds => exact hfold 0

/-- What has a character that is no digit is not read. -/
theorem natOfDigits?_eq_none (front rest : List Char) (hc : digitValue? 10 c = none) :
    natOfDigits? 10 (front ++ c :: rest) = none := by
  have hfold : ∀ n, (front ++ c :: rest).foldlM
      (fun n c => (digitValue? 10 c).map (n * 10 + ·)) n = none := by
    induction front with
    | nil =>
      intro n
      rw [List.nil_append, List.foldlM_cons, hc]
      rfl
    | cons x front ih =>
      intro n
      rw [List.cons_append, List.foldlM_cons]
      cases digitValue? 10 x with
      | none => rfl
      | some value => exact ih _
  cases front with
  | nil => exact hfold 0
  | cons x front => exact hfold 0

/-- A base sign has a letter in the second place. -/
theorem ofBase?_eq_none (h : ∀ c, cs[1]? = some c → c ≠ 'x' ∧ c ≠ 'o' ∧ c ≠ 'b') :
    ofBase? cs = none := by
  rw [ofBase?.eq_def]
  split
  · exact absurd rfl (h 'x' rfl).1
  · exact absurd rfl (h 'o' rfl).2.1
  · exact absurd rfl (h 'b' rfl).2.2
  · rfl

/-- Digits alone name no other base. -/
theorem ofBase?_digits (hds : ∀ c ∈ ds, c.isDigit = true) : ofBase? ds = none := by
  refine ofBase?_eq_none fun c hc => ?_
  have hdigit := hds c (List.mem_of_getElem? hc)
  exact ⟨ne_of_isDigit hdigit rfl, ne_of_isDigit hdigit rfl, ne_of_isDigit hdigit rfl⟩

/-! ### Whole numbers -/

/-- A whole number is written as its digits, behind a minus sign if it is negative. -/
theorem text_whole (k : Int) : text (.whole k) = minus (decide (k < 0)) ++ digits k.natAbs := by
  rw [text, toList_toString, minus]
  simp only [decide_eq_true_eq]

/-- No zero stands before further digits of a number. -/
theorem isPaddedDigits_digits (negative : Bool) (n : Nat) :
    isPaddedDigits (minus negative ++ digits n) = false := by
  obtain ⟨c, cs, hdigits, hall⟩ := exists_digits_eq_cons n
  rw [hdigits, isPaddedDigits_minus negative (hall c List.mem_cons_self)]
  by_cases hzero : n = 0
  · subst hzero
    cases hdigits
    rfl
  · have hhead : c ≠ '0' := by
      rintro rfl
      exact head?_digits hzero (congrArg List.head? hdigits)
    rw [beq_false_of_ne hhead, Bool.false_and, Bool.false_and]

/-- Digits without padding are a size. -/
theorem size?_digits (hne : ds ≠ []) (hds : ∀ c ∈ ds, c.isDigit = true) :
    size? false ds = some (natOfDigits ds) := by
  rw [size?, ofBase?_digits hds]
  exact natOfDigits?_digits hne hds

/-- **A whole number is read from its text.** -/
theorem readWhole?_text (k : Int) : readWhole? (text (.whole k)) = some k := by
  have hpadded := isPaddedDigits_digits (decide (k < 0)) k.natAbs
  have hsize := size?_digits (digits_ne_nil k.natAbs) fun c => isDigit_of_mem_digits
  obtain ⟨c, cs, hdigits, hall⟩ := exists_digits_eq_cons k.natAbs
  rw [natOfDigits_digits] at hsize
  rw [text_whole]
  rw [hdigits] at hpadded hsize ⊢
  rw [readWhole?_minus _ (hall c List.mem_cons_self), hpadded, hsize]
  simp only [decide_eq_true_eq, Option.map_some, Option.some.injEq]
  split <;> omega

/-- A whole number in base ten: digits, behind a minus sign if there is one, but not minus zero. -/
def IsNumeral (cs : List Char) : Prop :=
  ∃ negative ds, cs = minus negative ++ ds ∧ (∀ c ∈ ds, c.isDigit = true) ∧ cs ≠ ['-', '0']

/-- That is a numeral. -/
theorem isNumeral_text (k : Int) : IsNumeral (text (.whole k)) := by
  refine ⟨_, _, text_whole k, fun c => isDigit_of_mem_digits, fun hzero => ?_⟩
  have hread := readWhole?_text k
  rw [hzero] at hread
  obtain rfl : 0 = k := Option.some.inj hread
  cases hzero

/-- **A whole number has the text that it was read from** exactly if that is a plain numeral. -/
theorem text_eq_iff {k : Int} (h : readWhole? cs = some k) :
    text (.whole k) = cs ↔ IsNumeral cs := by
  refine ⟨fun htext => htext ▸ isNumeral_text k, ?_⟩
  rintro ⟨negative, ds, rfl, hds, hzero⟩
  cases ds with
  | nil => cases negative <;> cases h
  | cons c ds =>
    have hc := hds c List.mem_cons_self
    rw [readWhole?_minus negative hc] at h
    -- Padded digits are not read.
    have hpadded : isPaddedDigits (minus negative ++ c :: ds) = false := by
      refine Bool.eq_false_iff.2 fun hpadded => ?_
      rw [hpadded, size?, ofBase?_digits hds] at h
      cases h
    rw [hpadded, size?_digits (List.cons_ne_nil c ds) hds] at h
    have hdigits : digits (natOfDigits (c :: ds)) = c :: ds := by
      refine digits_natOfDigits (List.cons_ne_nil c ds) hds fun hhead => ?_
      obtain rfl := Option.some.inj hhead
      rw [isPaddedDigits_minus negative hc] at hpadded
      have hall : ds.all Char.isDigit = true :=
        List.all_eq_true.2 fun x hx => hds x (List.mem_cons_of_mem _ hx)
      simpa [hall] using hpadded
    rw [Option.map_some, Option.some.injEq] at h
    subst h
    rw [text_whole]
    cases negative with
    | false =>
      have hsign : ¬ (natOfDigits (c :: ds) : Int) < 0 := by omega
      rw [if_neg Bool.false_ne_true, decide_eq_false hsign, Int.natAbs_natCast, hdigits]
    | true =>
      have hne : natOfDigits (c :: ds) ≠ 0 := by
        intro hspelled
        rw [hspelled] at hdigits
        exact hzero (congrArg ('-' :: ·) hdigits.symm)
      have hsign : -(natOfDigits (c :: ds) : Int) < 0 := by omega
      rw [if_pos rfl, decide_eq_true hsign, Int.natAbs_neg, Int.natAbs_natCast, hdigits]

/-- The mode of a file is read in base eight and written in base ten. -/
example : readWhole? "0o755".toList = some 493 ∧ text (.whole 493) = "493".toList := by decide

/-! ### Floating-point numbers -/

/-- What has a point or an exponent is no whole number. -/
theorem readWhole?_of_marked {negative : Bool} (h : Marked negative cs) :
    readWhole? cs = none ∧ isPaddedDigits cs = false := by
  obtain ⟨c, more, mark, rest, rfl, hdigits, hmark⟩ := h
  have hnone : digitValue? 10 mark = none ∧ mark.isDigit = false ∧
      mark ≠ 'x' ∧ mark ≠ 'o' ∧ mark ≠ 'b' := by
    obtain rfl | rfl := hmark <;> decide
  obtain ⟨hc, hmore⟩ := List.forall_mem_cons.1 hdigits
  have hpadded : isPaddedDigits (minus negative ++ c :: (more ++ mark :: rest)) = false := by
    rw [isPaddedDigits_minus negative hc, List.all_append, List.all_cons, hnone.2.1,
      Bool.false_and, Bool.and_false, Bool.and_false]
  have hbase : ofBase? (c :: (more ++ mark :: rest)) = none := by
    refine ofBase?_eq_none fun x hx => ?_
    cases more with
    | nil =>
      cases hx
      exact hnone.2.2
    | cons y more =>
      obtain rfl : y = x := Option.some.inj hx
      have hy := hmore y List.mem_cons_self
      exact ⟨ne_of_isDigit hy rfl, ne_of_isDigit hy rfl, ne_of_isDigit hy rfl⟩
  refine ⟨?_, hpadded⟩
  refine (readWhole?_minus negative hc _).trans ?_
  rw [hpadded, size?, hbase]
  exact congrArg _ (natOfDigits?_eq_none (c :: more) rest hnone.1)

/-- The text of a decimal number: all places, unless there are too many on either side. -/
def layout (d : Decimal) : List Char :=
  if -5 < d.magnitude ∧ d.magnitude ≤ 16 then d.positional else d.scientific

/-- A decimal is laid out with its sign in front. -/
theorem marked_layout (d : Decimal) : Marked d.negative (layout d) := by
  rw [layout]
  split
  · exact marked_positional d
  · exact marked_scientific d

/-- The layout of a decimal is read as one of the same sign and size. -/
theorem read?_layout (d : Decimal) :
    ∃ d', Decimal.read? (layout d) = some d' ∧ d'.negative = d.negative ∧ d'.size = d.size := by
  rw [layout]
  split
  · exact read?_positional d
  · exact read?_scientific d

/-- A finite float is written as its shortest decimal is laid out. -/
theorem floatText_finite (negative : Bool) (m : Nat) (e : Int) :
    floatText (.finite negative m e) = layout (Binary64.toDecimal negative m e) := by
  by_cases hzero : m = 0
  · have hdigits : digits 0 = ['0'] := rfl
    have hone : magnitude { negative, coefficient := 0, exponent := 0 } = 1 := by
      rw [magnitude, hdigits]
      rfl
    rw [floatText, if_pos hzero, Binary64.toDecimal, if_pos hzero, layout, hone,
      if_pos (by decide), positional, hdigits]
    rfl
  · rw [floatText, if_neg hzero]
    rfl

/-- The shortest decimal has the sign of the float. -/
theorem negative_toDecimal (negative : Bool) (m : Nat) (e : Int) :
    (Binary64.toDecimal negative m e).negative = negative := by
  rw [Binary64.toDecimal]
  split <;> rfl

/-- The text of a finite number has a point or an exponent. -/
theorem marked_floatText (negative : Bool) (m : Nat) (e : Int) :
    Marked negative (floatText (.finite negative m e)) := by
  have hmarked := marked_layout (Binary64.toDecimal negative m e)
  rw [negative_toDecimal] at hmarked
  rw [floatText_finite]
  exact hmarked

/-- **A finite number is read from its text.** -/
theorem readFloat?_floatText (negative : Bool) {m : Nat} {e : Int}
    (h : Binary64.Regular m e) :
    readFloat? (floatText (.finite negative m e)) = some (.finite negative m e) := by
  obtain ⟨d, hread, hsign, hsize⟩ := read?_layout (Binary64.toDecimal negative m e)
  rw [← floatText_finite] at hread
  have hrounded := Binary64.ofDecimal_toDecimal h hsign hsize
  obtain ⟨c, more, mark, rest, htext, hdigits, -⟩ := marked_floatText negative m e
  rw [htext] at hread ⊢
  refine (readFloat?_minus negative (hdigits c List.mem_cons_self) _).trans ?_
  rw [minus, hread, Option.bind_some, hrounded]
  rfl

/-- What is spelled in digits is no word for a number. -/
theorem eq_ofDecimal {d : Decimal} {x : Binary64} (h : readFloat? cs = some x)
    (hd : Decimal.read? (dropPlus cs) = some d) : x = .ofDecimal d ∧ x.isFinite = true := by
  rw [readFloat?] at h
  split at h
  · rename_i hword
    have hnone : ∀ w ∈ [".inf".toList, ".Inf".toList, ".INF".toList], Decimal.read? w = none := by
      decide
    cases (hnone _ (List.contains_iff_mem.1 hword)).symm.trans hd
  split at h
  · rename_i hword
    have hnone : ∀ w ∈ ["-.inf".toList, "-.Inf".toList, "-.INF".toList],
        Decimal.read? (dropPlus w) = none := by
      decide
    cases (hnone _ (List.contains_iff_mem.1 hword)).symm.trans hd
  split at h
  · rename_i hword
    have hnone : ∀ w ∈ [".nan".toList, ".NaN".toList, ".NAN".toList],
        Decimal.read? (dropPlus w) = none := by
      decide
    cases (hnone _ (List.contains_iff_mem.1 hword)).symm.trans hd
  split at h
  · cases h
  rw [hd] at h
  simp only at h
  split at h
  · rename_i hfinite
    cases h
    exact ⟨rfl, hfinite⟩
  · cases h

/-- **A number that is spelled with few digits** has these digits in its text. -/
theorem text_eq_layout {d : Decimal} {x : Binary64} (h : readFloat? cs = some x)
    (hd : Decimal.read? (dropPlus cs) = some d) (hfew : d.normalize.coefficient < 10 ^ 15)
    (hlarge : -306 ≤ d.magnitude) : text (.float x) = layout d.normalize := by
  obtain ⟨hx, hfinite⟩ := eq_ofDecimal h hd
  cases x with
  | nan | infinity => cases hfinite
  | finite negative m e =>
    rw [text, floatText_finite, Binary64.toDecimal_eq_normalize hfew hlarge hx.symm]

end Number

/-! ### What is read -/

namespace Value

variable {n : Number}

/-- A plain scalar that means a number was read as a whole number or as a floating-point number. -/
theorem of_ofPlain?_number (h : ofPlain? cs = some (.number n)) :
    (∃ k, n = .whole k ∧ Number.readWhole? cs = some k ∧ Number.fits 64 k = true) ∨
      ∃ x, n = .float x ∧ Number.readFloat? cs = some x := by
  rw [ofPlain?] at h
  split at h
  · cases h
  split at h
  · cases h
  split at h
  · rename_i value? hwhole
    obtain ⟨k, hread, hn⟩ := Option.bind_eq_some_iff.1 hwhole
    rw [wholeNumber?] at hn
    split at hn
    · rename_i hfits
      rw [← Option.some.inj hn] at h
      cases h
      exact .inl ⟨k, rfl, hread, hfits⟩
    · split at hn
      · rw [← Option.some.inj hn] at h
        cases h
      · cases hn
  split at h
  · rename_i x hfloat
    cases h
    split at hfloat
    · cases hfloat
    · exact .inr ⟨x, rfl, hfloat⟩
  · cases h

/-- A finite number that was read has the form of the format. -/
theorem regular_of_readFloat? {negative : Bool} {m : Nat} {e : Int}
    (h : Number.readFloat? cs = some (.finite negative m e)) : Binary64.Regular m e := by
  rw [Number.readFloat?] at h
  split at h
  · cases h
  split at h
  · cases h
  split at h
  · cases h
  split at h
  · cases h
  split at h
  · split at h
    · exact (Binary64.rounds_of_ofDecimal (Option.some.inj h)).2.1
    · cases h
  · cases h

/-- **The text of a number that was read** means that number. -/
theorem ofPlain?_text (h : ofPlain? cs = some (.number n)) :
    ofPlain? n.text = some (.number n) := by
  obtain ⟨k, rfl, -, hfits⟩ | ⟨x, rfl, hread⟩ := of_ofPlain?_number h
  · have hread := Number.readWhole?_text k
    obtain ⟨c, cs, hdigits, hall⟩ := exists_digits_eq_cons k.natAbs
    rw [Number.text_whole, hdigits] at hread ⊢
    exact ofPlain?_of_readWhole? _ (hall c List.mem_cons_self) hread hfits
  · cases x with
    | nan => rfl
    | infinity negative => cases negative <;> rfl
    | finite negative m e =>
      have hregular := regular_of_readFloat? hread
      have htext := Number.readFloat?_floatText negative hregular
      have hmarked := Number.marked_floatText negative m e
      obtain ⟨hwhole, hpadded⟩ := Number.readWhole?_of_marked hmarked
      obtain ⟨c, more, mark, rest, hshape, hdigits, -⟩ := hmarked
      rw [Number.text, hshape]
      rw [hshape] at htext hwhole hpadded
      exact ofPlain?_of_readFloat? negative (hdigits c List.mem_cons_self) hwhole hpadded htext

end Value

end ConfigGraft.Yaml
