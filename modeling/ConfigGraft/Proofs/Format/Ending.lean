import ConfigGraft.ChangeSet.Apply
import Mathlib.Data.List.Induction

/-!
# Endings of file names

The format of a file shows at the end of its name, which is looked at in small letters. There are
characters of other alphabets whose small form has English letters in it: the Kelvin sign becomes a
k, and the I with a dot above becomes an i with a dot behind it. None of the endings has a k in it,
and none has a dot above, so these characters are never part of one. A name has an ending only if
it has the very letters of it, capital or small. A capital sigma has two small forms, one of them
for the end of a word only, and it makes no difference which one is taken.

## Main results

* `Text.LowerForm.suffix_iff` — an ending is one in English letters;
* `Format.claims_iff` — **a format claims the names that have one of its endings;**
* `Format.ofFile?_ending` — **no name is claimed by two formats,** and the rest by none.
-/

namespace ConfigGraft

namespace Text

/-! ### Small letters -/

/-- The characters that endings are made of: the point and small English letters other than k. -/
def InEnding (c : Char) : Prop := c = '.' ∨ ('a' ≤ c ∧ c ≤ 'z' ∧ c ≠ 'k')

instance : DecidablePred InEnding := fun c => inferInstanceAs (Decidable (c = '.' ∨ _))

/-- The small forms of a character. A capital sigma has another one for the end of a word. -/
inductive SmallForm (c : Char) : List Char → Prop
  | usual : SmallForm c (lowerChar c)
  | finalSigma : c = 'Σ' → SmallForm c ['ς']

/-- A text in small letters, by whatever rule its capital sigmas are written. -/
inductive LowerForm : List Char → List Char → Prop
  | nil : LowerForm [] []
  | concat {cs ds form : List Char} {c : Char} :
      LowerForm cs ds → SmallForm c form → LowerForm (cs ++ [c]) (ds ++ form)

/-- The lower form that is computed is a full one. -/
theorem lowerForm_lower (cs : List Char) : LowerForm cs (lower cs) := by
  induction cs using List.reverseRecOn with
  | nil => exact .nil
  | append_singleton cs c ih =>
      rw [lower, List.flatMap_append, List.flatMap_singleton]
      exact ih.concat .usual

/-- The capital letters of other alphabets lie behind the English letters, and so do their small
letters, but for that of the Kelvin sign. -/
theorem capitalRuns_tail : ∀ run ∈ capitalRuns.tail, 0x7A < run.first ∧
    (0x7A < run.first + run.distance ∨
      run.first = 0x212A ∧ run.last = 0x212A ∧ run.distance = -8383) := by
  decide +kernel

/-- A number that is that of no character gives the one with the number zero. -/
theorem toNat_ofNat (n : Nat) : (Char.ofNat n).toNat = n ∨ (Char.ofNat n).toNat = 0 := by
  by_cases h : n.isValidChar
  · exact .inl (congrArg Char.toNat (dif_pos h : Char.ofNat n = Char.ofNatAux n h))
  · exact .inr (congrArg Char.toNat (dif_neg h))

/-- The characters of endings lie in one short stretch, and none of them is the letter a sign
outside ASCII is lowered to. -/
theorem toNat_of_inEnding {c : Char} (h : InEnding c) :
    0x2E ≤ c.toNat ∧ c.toNat ≤ 0x7A ∧ c.toNat ≠ 0x6B := by
  obtain rfl | ⟨ha, hz, hk⟩ := h
  · decide
  · have hlow : 0x61 ≤ c.toNat := ha
    exact ⟨by omega, hz, fun heq => hk (Char.toNat_inj.1 heq)⟩

/-- An English capital letter becomes its small letter. -/
theorem lowerChar_of_isUpper {c : Char} (h : c.val ≥ 'A'.val ∧ c.val ≤ 'Z'.val) :
    lowerChar c = [c.toLower] := by
  have hbounds : 0x41 ≤ c.toNat ∧ c.toNat ≤ 0x5A := h
  have hletters : ∀ n < 26, lowerChar (Char.ofNat (0x41 + n)) =
      [(Char.ofNat (0x41 + n)).toLower] := by decide
  have hletter := hletters (c.toNat - 0x41) (by omega)
  rwa [Nat.add_sub_of_le hbounds.1, Char.ofNat_toNat] at hletter

/-- **A character that becomes part of an ending is an English letter or the point.** -/
theorem SmallForm.cases {c : Char} {form : List Char} (h : SmallForm c form) :
    form = [c.toLower] ∨
      ∃ front last, form = front ++ [last] ∧ ¬ InEnding last ∧ ¬ InEnding c.toLower := by
  cases h with
  | finalSigma hc =>
      subst hc
      exact .inr ⟨[], 'ς', rfl, by decide, by decide⟩
  | usual =>
      by_cases hupper : c.val ≥ 'A'.val ∧ c.val ≤ 'Z'.val
      · exact .inl (lowerChar_of_isUpper hupper)
      have hself : c.toLower = c := dif_neg hupper
      rw [hself, lowerChar]
      split
      · rename_i hdotted
        refine .inr ⟨['i'], Char.ofNat 0x307, rfl, by decide, fun hc => ?_⟩
        have hle := (toNat_of_inEnding hc).2.1
        omega
      split
      · rename_i run hfind
        have hcovers := List.find?_some hfind
        simp only [CapitalRun.covers, Bool.and_eq_true, decide_eq_true_eq] at hcovers
        have hmem : run ∈ capitalRuns.tail := by
          refine (List.mem_cons.1 (List.mem_of_find?_eq_some hfind)).resolve_left ?_
          rintro rfl
          exact hupper hcovers.1
        obtain ⟨hfirst, hsmall⟩ := capitalRuns_tail run hmem
        refine .inr ⟨[], _, rfl, fun hlast => ?_, fun hc => ?_⟩
        · have hsmall' := toNat_of_inEnding hlast
          have hnat := toNat_ofNat (c.toNat + run.distance).toNat
          omega
        · have hle := (toNat_of_inEnding hc).2.1
          omega
      · exact .inl rfl

/-- Ends are compared from the last character on. -/
theorem concat_suffix_concat {s cs : List Char} {a b : Char} :
    s ++ [a] <:+ cs ++ [b] ↔ a = b ∧ s <:+ cs := by
  rw [← List.reverse_prefix, List.reverse_concat, List.reverse_concat, List.cons_prefix_cons,
    List.reverse_prefix]

/-- **An ending of a text in small letters is one in English letters.** -/
theorem LowerForm.suffix_iff {cs ds s : List Char} (h : LowerForm cs ds)
    (hs : ∀ c ∈ s, InEnding c) : s <:+ ds ↔ s <:+ cs.map Char.toLower := by
  induction h generalizing s with
  | nil => rfl
  | @concat cs ds form c _ hform ih =>
      rw [List.map_append, List.map_singleton]
      rcases List.eq_nil_or_concat s with rfl | ⟨s, d, rfl⟩
      · simp
      · rw [List.concat_eq_append] at hs ⊢
        obtain ⟨hs, hd⟩ := List.forall_mem_append.1 hs
        have hd := hd d List.mem_cons_self
        rcases hform.cases with rfl | ⟨front, last, rfl, hlast, hc⟩
        · rw [concat_suffix_concat, concat_suffix_concat, ih hs]
        · rw [← List.append_assoc, concat_suffix_concat, concat_suffix_concat]
          refine iff_of_false ?_ ?_
          · rintro ⟨rfl, -⟩
            exact hlast hd
          · rintro ⟨rfl, -⟩
            exact hc hd

end Text

namespace Format

/-! ### Formats -/

/-- Whether a name ends in a suffix, with capital or small English letters. -/
def EndsLike (file suffix : String) : Prop :=
  ∃ front ending : String, file = front ++ ending ∧ ending.toLower = suffix

/-- Ending alike is ending with the suffix after each character is lowered. -/
theorem endsLike_iff {file suffix : String} :
    EndsLike file suffix ↔ suffix.toList <:+ file.toList.map Char.toLower := by
  have hlower (ending : String) : ending.toLower.toList = ending.toList.map Char.toLower :=
    String.toList_map
  constructor
  · rintro ⟨front, ending, rfl, rfl⟩
    rw [String.toList_append, List.map_append, hlower]
    exact List.suffix_append _ _
  · rintro ⟨more, hmore⟩
    obtain ⟨front, ending, hfile, -, hending⟩ := List.map_eq_append_iff.1 hmore.symm
    refine ⟨String.ofList front, String.ofList ending, ?_, ?_⟩
    · rw [← String.toList_inj, hfile]
      simp
    · rw [← String.toList_inj, hlower, String.toList_ofList, hending]

/-- The suffixes of the registry are spelled in such characters. -/
theorem inEnding_of_mem_suffixes (format : Format) :
    ∀ suffix ∈ format.suffixes, ∀ c ∈ suffix.toList, Text.InEnding c := by
  have hall : (format.suffixes.all fun suffix =>
      suffix.toList.all fun c => Text.InEnding c) = true := by
    cases format <;> decide
  intro suffix hsuffix c hc
  exact of_decide_eq_true (List.all_eq_true.1 (List.all_eq_true.1 hall suffix hsuffix) c hc)

/-- An ending is looked for in any small form of the name with the same result. -/
theorem suffix_lowerForm {file suffix : String} {small : List Char}
    (h : Text.LowerForm file.toList small) {format : Format} (hmem : suffix ∈ format.suffixes) :
    suffix.toList <:+ small ↔ EndsLike file suffix := by
  rw [endsLike_iff]
  exact h.suffix_iff (inEnding_of_mem_suffixes format suffix hmem)

/-- **A format claims the names that end in one of its suffixes,** in capital or small letters. -/
theorem claims_iff {format : Format} {file : String} :
    format.claims file = true ↔ ∃ suffix ∈ format.suffixes, EndsLike file suffix := by
  rw [claims, List.any_eq_true]
  refine exists_congr fun suffix => and_congr_right fun hmem => ?_
  rw [List.isSuffixOf_iff_suffix]
  exact suffix_lowerForm (Text.lowerForm_lower _) hmem

/-- No suffix of one format ends in a suffix of another. -/
theorem eq_of_suffix : ∀ f g : Format, ∀ s ∈ f.suffixes, ∀ t ∈ g.suffixes,
    s.toList <:+ t.toList → f = g := by
  intro f g
  cases f <;> cases g <;> decide

/-- No name is claimed by two formats. -/
theorem claims_unique {file : String} {f g : Format} (hf : f.claims file = true)
    (hg : g.claims file = true) : f = g := by
  obtain ⟨s, hs, hends⟩ := claims_iff.1 hf
  obtain ⟨t, ht, hends'⟩ := claims_iff.1 hg
  rcases List.suffix_or_suffix_of_suffix (endsLike_iff.1 hends) (endsLike_iff.1 hends') with
    hsuffix | hsuffix
  · exact eq_of_suffix f g s hs t ht hsuffix
  · exact (eq_of_suffix g f t ht s hs hsuffix).symm

/-- The registry lists every format. -/
theorem mem_all (format : Format) : format ∈ all := by
  cases format <;> decide

/-- A file has the format that claims it, no two of them claiming the same. -/
theorem ofFile?_eq_some_iff {file : String} {format : Format} :
    ofFile? file = some format ↔ format.claims file = true := by
  refine ⟨claims_of_ofFile?, fun h => ?_⟩
  cases hfound : ofFile? file with
  | none => exact absurd h (List.find?_eq_none.1 hfound format (mem_all format))
  | some other => rw [claims_unique (claims_of_ofFile? hfound) h]

/-- The formats can be asked in any order. -/
theorem find?_of_perm {formats : List Format} (h : formats.Perm all) (file : String) :
    formats.find? (·.claims file) = ofFile? file := by
  cases hfound : formats.find? (·.claims file) with
  | some format =>
      have hclaims := List.find?_some (p := fun f : Format => f.claims file) hfound
      exact (ofFile?_eq_some_iff.2 hclaims).symm
  | none =>
      refine (List.find?_eq_none.2 fun format hmem => ?_).symm
      exact List.find?_eq_none.1 hfound format (h.mem_iff.2 hmem)

/-- **No name is claimed by two formats,** so they can be asked in any order. A name is claimed by
none exactly if it ends in none of the five suffixes in capital or small English letters, and then
it is reported as it is. By what rule capital sigmas are written small makes no difference. -/
theorem ofFile?_ending (file : String) :
    (∀ f g : Format, f.claims file = true → g.claims file = true → f = g) ∧
    (∀ formats : List Format, formats.Perm all →
      formats.find? (·.claims file) = ofFile? file) ∧
    (∀ changes, ChangeSet.formatOf ⟨file, changes⟩ = .error (.unsupported file) ↔
      ¬ ∃ suffix ∈ [".yml", ".yaml", ".json", ".properties", ".toml"], EndsLike file suffix) ∧
    ∀ small, Text.LowerForm file.toList small → ∀ f : Format,
      f.claims file = f.suffixes.any fun suffix => suffix.toList.isSuffixOf small := by
  refine ⟨fun f g => claims_unique, fun formats h => find?_of_perm h file, fun changes => ?_,
    fun small hsmall f => ?_⟩
  · have hnone : ofFile? file = none ↔ ¬ ∃ suffix ∈
        [".yml", ".yaml", ".json", ".properties", ".toml"], EndsLike file suffix := by
      simp [ofFile?, List.find?_eq_none, claims_iff, all, suffixes, and_assoc]
    rw [← hnone, ChangeSet.formatOf]
    cases ofFile? file <;> simp
  · rw [Bool.eq_iff_iff, claims_iff, List.any_eq_true]
    refine exists_congr fun suffix => and_congr_right fun hmem => ?_
    rw [List.isSuffixOf_iff_suffix, suffix_lowerForm hsmall hmem]

/-- A name in capital letters, and one with a capital letter of another alphabet in its ending. -/
theorem ofFile?_ending_sampleNames :
    Format.yaml.claims "Settings.YAML" = true ∧
    (∀ g : Format, g.claims "Settings.YAML" = true → Format.yaml = g) ∧
    [.toml, .properties, .json, .yaml].find? (·.claims "Settings.YAML") = some Format.yaml ∧
    ChangeSet.formatOf ⟨"server.PROPERT\u0130ES", []⟩ =
      .error (.unsupported "server.PROPERT\u0130ES") := by
  have hclaims : Format.yaml.claims "Settings.YAML" = true := by decide
  obtain ⟨hunique, hperm, -, -⟩ := ofFile?_ending "Settings.YAML"
  obtain ⟨-, -, hnone, -⟩ := ofFile?_ending "server.PROPERT\u0130ES"
  refine ⟨hclaims, fun g => hunique .yaml g hclaims, ?_, (hnone []).2 ?_⟩
  · rw [hperm _ (by decide), ofFile?_eq_some_iff, hclaims]
  · simp only [endsLike_iff]
    decide

end Format

end ConfigGraft
