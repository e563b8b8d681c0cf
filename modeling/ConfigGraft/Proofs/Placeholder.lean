import ConfigGraft.Proofs.ChangeSet.Missing

/-!
# What a template says

A template is plain text with placeholders in it. There is one way only to take it apart so that no
placeholder is left over in the plain text, not even one that would go on into what follows: every
placeholder is taken where it begins first. Expansion leaves the plain text as it is and puts the
text of its variable in the place of each placeholder, whatever that text is.

## Main results

* `Placeholder.read?_eq_some_iff` — what reads as a placeholder is the text of one;
* `Template.decomposes_iff` — **a template has one decomposition;**
* `Template.expand_parts` — **expansion fills the placeholders of that decomposition,** and gathers
  the names of those that can be filled with nothing;
* `Template.expand_of_no_opening` — a text without an opening `${` stands for itself.
-/

namespace ConfigGraft

/-! ### Placeholders -/

namespace Placeholder

/-- **Well-formed** placeholders: the name has at least one character and neither a closing brace
nor a colon, and the default has no closing brace. -/
structure WellFormed (p : Placeholder) : Prop where
  name_ne_nil : p.name ≠ []
  name_char : ∀ c ∈ p.name, c ≠ '}' ∧ c ≠ ':'
  fallback_char : ∀ d, p.fallback? = some d → '}' ∉ d

variable {p : Placeholder} {cs rest : List Char}

/-- The front that satisfies a test ends at the first character that fails it. -/
theorem takeWhile_append_stop {f : Char → Bool} {c : Char} (hcs : ∀ x ∈ cs, f x = true)
    (hc : f c = false) : (cs ++ c :: rest).takeWhile f = cs := by
  rw [List.takeWhile_append_of_pos hcs, List.takeWhile_cons_of_neg (by simp [hc]), List.append_nil]

/-- Behind that front stands that character. -/
theorem dropWhile_append_stop {f : Char → Bool} {c : Char} (hcs : ∀ x ∈ cs, f x = true)
    (hc : f c = false) : (cs ++ c :: rest).dropWhile f = c :: rest := by
  rw [List.dropWhile_append_of_pos hcs, List.dropWhile_cons_of_neg (by simp [hc])]

/-- A name is read up to the sign behind it. -/
theorem read?_name {name : List Char} {c : Char} (hne : name ≠ [])
    (hname : ∀ x ∈ name, isNameChar x = true) (hc : isNameChar c = false) :
    read? ('$' :: '{' :: (name ++ c :: rest)) = readTail? name (c :: rest) := by
  rw [read?, takeWhile_append_stop hname hc, dropWhile_append_stop hname hc]
  cases name with
  | nil => exact absurd rfl hne
  | cons x xs => rfl

/-- The text of a placeholder reads as that placeholder. -/
theorem WellFormed.read?_append (h : p.WellFormed) (rest : List Char) :
    read? (p.text ++ rest) = some (p, rest) := by
  obtain ⟨name, fallback?⟩ := p
  have hname : ∀ c ∈ name, isNameChar c = true := by
    intro c hc
    simpa [isNameChar] using h.name_char c hc
  cases fallback? with
  | none =>
      have htext : text ⟨name, none⟩ ++ rest = '$' :: '{' :: (name ++ '}' :: rest) := by
        simp [text]
      rw [htext, read?_name h.name_ne_nil hname (by decide), readTail?]
  | some d =>
      have hd : ∀ c ∈ d, isFallbackChar c = true := by
        intro c hc
        have hbrace : c ≠ '}' := fun heq => h.fallback_char d rfl (heq ▸ hc)
        simpa [isFallbackChar] using hbrace
      have htext : text ⟨name, some d⟩ ++ rest =
          '$' :: '{' :: (name ++ ':' :: (d ++ '}' :: rest)) := by
        simp [text]
      rw [htext, read?_name h.name_ne_nil hname (by decide), readTail?,
        takeWhile_append_stop hd (by decide), dropWhile_append_stop hd (by decide)]

/-- Whatever is read is well-formed. -/
theorem wellFormed_of_read? (h : read? cs = some (p, rest)) : p.WellFormed := by
  unfold read? at h
  split at h
  · rename_i inner
    split at h
    · cases h
    · rename_i c name htake
      have hname : ∀ x ∈ c :: name, x ≠ '}' ∧ x ≠ ':' := by
        intro x hx
        have hchar := List.all_eq_true.1 (List.all_takeWhile (p := isNameChar) (l := inner))
        simpa [isNameChar] using hchar x (htake ▸ hx)
      unfold readTail? at h
      split at h
      · cases h
        refine ⟨List.cons_ne_nil _ _, hname, ?_⟩
        rintro d ⟨⟩
      · rename_i tail _
        split at h
        · cases h
          refine ⟨List.cons_ne_nil _ _, hname, ?_⟩
          rintro d ⟨⟩ hmem
          have hbrace := List.all_eq_true.1 (List.all_takeWhile (p := isFallbackChar) (l := tail))
          exact absurd (hbrace '}' hmem) (by decide)
        · cases h
      · cases h
  · cases h

/-- **What reads as a placeholder is the text of one.** -/
theorem read?_eq_some_iff : read? cs = some (p, rest) ↔ p.WellFormed ∧ cs = p.text ++ rest := by
  constructor
  · exact fun h => ⟨wellFormed_of_read? h, read?_text h⟩
  · rintro ⟨hwell, rfl⟩
    exact hwell.read?_append rest

/-- Nothing is read exactly where no placeholder begins. -/
theorem read?_eq_none_iff :
    read? cs = none ↔ ∀ p : Placeholder, p.WellFormed → ¬ p.text <+: cs := by
  constructor
  · rintro h p hwell ⟨rest, rfl⟩
    rw [hwell.read?_append rest] at h
    cases h
  · intro h
    cases hread : read? cs with
    | none => rfl
    | some found =>
        obtain ⟨p, rest⟩ := found
        obtain ⟨hwell, rfl⟩ := read?_eq_some_iff.1 hread
        exact absurd (List.prefix_append _ _) (h p hwell)

end Placeholder

namespace Template

open Placeholder

/-! ### Decompositions -/

/-- A template taken apart: plain text, and placeholders with the plain text behind each. -/
structure Parts where
  front : List Char
  holes : List (Placeholder × List Char)

namespace Parts

/-- The text of placeholders and of what stands behind each. -/
def tailText (holes : List (Placeholder × List Char)) : List Char :=
  holes.flatMap fun hole => hole.1.text ++ hole.2

/-- The text that was taken apart. -/
def text (parts : Parts) : List Char := parts.front ++ tailText parts.holes

/-- The text with each placeholder replaced: by the value of its variable, else by its default,
else by nothing. -/
def filled (value? : Resolver) (parts : Parts) : List Char :=
  parts.front ++ parts.holes.flatMap fun hole =>
    (((value? (String.ofList hole.1.name)).map String.toList).or hole.1.fallback?).getD [] ++ hole.2

/-- The pieces of a text that is taken apart. -/
def pieces (parts : Parts) : List Piece :=
  parts.front.map .plain ++ parts.holes.flatMap fun hole => .hole hole.1 :: hole.2.map .plain

/-- The parts that pieces add up to. -/
def ofPieces : List Piece → Parts
  | [] => ⟨[], []⟩
  | .plain c :: rest => ⟨c :: (ofPieces rest).front, (ofPieces rest).holes⟩
  | .hole p :: rest => ⟨[], (p, (ofPieces rest).front) :: (ofPieces rest).holes⟩

/-- Plain characters go in front of the first hole. -/
theorem ofPieces_plain (cs : List Char) (ps : List Piece) :
    ofPieces (cs.map .plain ++ ps) = ⟨cs ++ (ofPieces ps).front, (ofPieces ps).holes⟩ := by
  induction cs with
  | nil => rfl
  | cons c cs ih => rw [List.map_cons, List.cons_append, ofPieces, ih]; rfl

/-- Parts are determined by their pieces. -/
theorem ofPieces_pieces (parts : Parts) : ofPieces parts.pieces = parts := by
  obtain ⟨front, holes⟩ := parts
  rw [pieces, ofPieces_plain]
  have hholes : ofPieces (holes.flatMap fun hole => .hole hole.1 :: hole.2.map .plain) =
      ⟨[], holes⟩ := by
    induction holes with
    | nil => rfl
    | cons hole holes ih =>
        rw [List.flatMap_cons, List.cons_append, ofPieces, ofPieces_plain, ih, List.append_nil]
  rw [hholes, List.append_nil]

end Parts

/-- No placeholder begins in a plain text, even if it goes on into what stands behind it. -/
def Literal (plain behind : List Char) : Prop :=
  ∀ before rest, plain = before ++ rest → rest ≠ [] →
    ∀ p : Placeholder, p.WellFormed → ¬ p.text <+: rest ++ behind

/-- No placeholder starts in the empty text. -/
theorem literal_nil (behind : List Char) : Literal [] behind := by
  intro before rest hnil hrest
  exact absurd (List.append_eq_nil_iff.1 hnil.symm).2 hrest

/-- None starts in a text if none starts at its first character, nor in the rest. -/
theorem literal_cons {c : Char} {plain behind : List Char} :
    Literal (c :: plain) behind ↔
      (∀ p : Placeholder, p.WellFormed → ¬ p.text <+: c :: (plain ++ behind)) ∧
        Literal plain behind := by
  constructor
  · intro h
    refine ⟨h [] (c :: plain) rfl (List.cons_ne_nil _ _), ?_⟩
    rintro before rest rfl hrest
    exact h (c :: before) rest rfl hrest
  · rintro ⟨hfirst, hplain⟩ before rest heq hrest
    cases before with
    | nil =>
        obtain rfl : c :: plain = rest := heq
        exact hfirst
    | cons d before =>
        obtain ⟨-, heq⟩ := List.cons.inj heq
        exact hplain before rest heq hrest

/-- **Parts decompose a template** if they add up to it, the placeholders are well-formed, and no
placeholder of the template begins in the plain text. -/
structure Decomposes (template : List Char) (parts : Parts) : Prop where
  text_eq : parts.text = template
  wellFormed : ∀ hole ∈ parts.holes, hole.1.WellFormed
  front : Literal parts.front (Parts.tailText parts.holes)
  behind : ∀ hole later, hole :: later <:+ parts.holes → Literal hole.2 (Parts.tailText later)

/-! ### One decomposition -/

/-- A literal text is cut into plain characters. -/
theorem pieces_literal {plain behind : List Char} (h : Literal plain behind) :
    pieces (plain ++ behind) = plain.map .plain ++ pieces behind := by
  induction plain with
  | nil => rfl
  | cons c plain ih =>
      obtain ⟨hfirst, hplain⟩ := literal_cons.1 h
      have hread := read?_eq_none_iff.2 hfirst
      rw [List.cons_append, pieces]
      split
      · rename_i hsome
        rw [hread] at hsome
        cases hsome
      · rw [ih hplain, List.map_cons, List.cons_append]

/-- The text of a placeholder is cut off as one hole. -/
theorem pieces_hole {p : Placeholder} (h : p.WellFormed) (rest : List Char) :
    pieces (p.text ++ rest) = .hole p :: pieces rest := by
  have hread := h.read?_append rest
  obtain ⟨c, cs, htext⟩ : ∃ c cs, p.text ++ rest = c :: cs := by
    rw [Placeholder.text]
    split <;> exact ⟨_, _, rfl⟩
  rw [htext] at hread ⊢
  rw [pieces]
  split
  · rename_i hsome
    cases hread.symm.trans hsome
    rfl
  · rename_i hnone
    cases hread.symm.trans hnone

/-- Cutting a template finds the parts of any decomposition. -/
theorem Decomposes.pieces_eq {template : List Char} {parts : Parts}
    (h : Decomposes template parts) : pieces template = parts.pieces := by
  obtain ⟨front, holes⟩ := parts
  obtain ⟨rfl, hwell, hfront, hbehind⟩ := h
  rw [Parts.text, pieces_literal hfront, Parts.pieces]
  congr 1
  clear hfront
  induction holes with
  | nil => rw [Parts.tailText, List.flatMap_nil, List.flatMap_nil, pieces]
  | cons hole holes ih =>
      obtain ⟨hfirst, hrest⟩ := List.forall_mem_cons.1 hwell
      have hliteral := hbehind hole holes List.suffix_rfl
      have hlater := ih hrest fun other later hsuffix =>
        hbehind other later (hsuffix.trans (List.suffix_cons hole holes))
      rw [Parts.tailText, List.flatMap_cons, List.append_assoc, pieces_hole hfirst]
      exact congrArg _ ((pieces_literal hliteral).trans (congrArg _ hlater))

/-- The parts that cutting finds are a decomposition. -/
theorem decomposes_ofPieces (template : List Char) :
    Decomposes template (Parts.ofPieces (pieces template)) := by
  fun_induction pieces template with
  | case1 =>
      refine ⟨rfl, List.forall_mem_nil _, literal_nil _, ?_⟩
      intro hole later hsuffix
      exact absurd (List.suffix_nil.1 hsuffix) (List.cons_ne_nil _ _)
  | case2 c cs p after hread ih =>
      obtain ⟨hwell, htext⟩ := read?_eq_some_iff.1 hread
      refine ⟨?_, List.forall_mem_cons.2 ⟨hwell, ih.wellFormed⟩, literal_nil _, ?_⟩
      · rw [htext]
        refine Eq.trans ?_ (congrArg (p.text ++ ·) ih.text_eq)
        simp [Parts.text, Parts.ofPieces, Parts.tailText]
      · intro hole later hsuffix
        rcases List.suffix_cons_iff.1 hsuffix with heq | hsuffix
        · cases heq
          exact ih.front
        · exact ih.behind hole later hsuffix
  | case3 c cs hread ih =>
      refine ⟨congrArg (c :: ·) ih.text_eq, ih.wellFormed, literal_cons.2 ⟨?_, ih.front⟩, ih.behind⟩
      have hnone := read?_eq_none_iff.1 hread
      rwa [← ih.text_eq] at hnone

/-- **A template has one decomposition.** -/
theorem decomposes_iff {template : List Char} {parts : Parts} :
    Decomposes template parts ↔ parts = Parts.ofPieces (pieces template) := by
  constructor
  · intro h
    rw [h.pieces_eq, Parts.ofPieces_pieces]
  · rintro rfl
    exact decomposes_ofPieces template

/-! ### Filling -/

/-- The text that pieces expand to is that of their parts, filled. -/
theorem expandPieces_fst_eq (value? : Resolver) (enforce : Bool) (ps : List Piece)
    (missing : MissingNames) :
    (expandPieces value? enforce ps missing).1 = (Parts.ofPieces ps).filled value? := by
  induction ps generalizing missing with
  | nil => rfl
  | cons piece ps ih =>
      cases piece with
      | plain c => exact congrArg (c :: ·) (ih missing)
      | hole p =>
          have hfill : fill value? p =
              (((value? (String.ofList p.name)).map String.toList).or p.fallback?).getD [] := by
            rw [fill]
            cases value? (String.ofList p.name) <;> cases p.fallback? <;> rfl
          simp only [expandPieces, ih, hfill, Parts.ofPieces, Parts.filled, List.nil_append,
            List.flatMap_cons, List.append_assoc]

/-- The holes of the parts are those among the pieces. -/
theorem mem_holes_ofPieces {p : Placeholder} (ps : List Piece) :
    (∃ plain, (p, plain) ∈ (Parts.ofPieces ps).holes) ↔ .hole p ∈ ps := by
  induction ps with
  | nil => simp [Parts.ofPieces]
  | cons piece ps ih =>
      cases piece with
      | plain c => simpa [Parts.ofPieces] using ih
      | hole q => simp [Parts.ofPieces, ← ih, exists_or]

/-- The text of a template is that of its parts, with the placeholders filled. -/
theorem Decomposes.expand_fst {template : String} {parts : Parts}
    (h : Decomposes template.toList parts) (value? : Resolver) (enforce : Bool)
    (missing : MissingNames) :
    (expand value? enforce template missing).1 = String.ofList (parts.filled value?) := by
  obtain rfl := decomposes_iff.1 h
  exact congrArg String.ofList (expandPieces_fst_eq value? enforce _ missing)

/-- With enforcement the names are gathered of placeholders with neither a value nor a default. -/
theorem Decomposes.mem_expand {template : String} {parts : Parts}
    (h : Decomposes template.toList parts) (value? : Resolver) (enforce : Bool)
    (missing : MissingNames) (name : String) :
    name ∈ (expand value? enforce template missing).2 ↔
      name ∈ missing ∨ enforce = true ∧ ∃ hole ∈ parts.holes,
        String.ofList hole.1.name = name ∧ hole.1.fallback? = none ∧ value? name = none := by
  obtain rfl := decomposes_iff.1 h
  cases enforce with
  | false => simp [expand_lax]
  | true =>
      rw [Template.mem_expand, unresolved, List.mem_filterMap]
      refine or_congr_right ?_
      constructor
      · rintro ⟨piece, hmem, hname⟩
        cases piece with
        | plain c => cases hname
        | hole p =>
            obtain ⟨plain, hhole⟩ := (mem_holes_ofPieces _).2 hmem
            simp only [isMissing, Option.ite_none_right_eq_some, Bool.and_eq_true,
              Option.isNone_iff_eq_none, Option.some.injEq] at hname
            obtain ⟨⟨hvalue, hfallback⟩, rfl⟩ := hname
            exact ⟨rfl, _, hhole, rfl, hfallback, hvalue⟩
      · rintro ⟨-, ⟨p, plain⟩, hmem, rfl, hfallback, hvalue⟩
        refine ⟨.hole p, (mem_holes_ofPieces _).1 ⟨plain, hmem⟩, ?_⟩
        have hmissing : isMissing value? p = true := by
          rw [isMissing, hvalue, show p.fallback? = none from hfallback]
          rfl
        exact if_pos hmissing

/-- **Expansion fills the placeholders of the one decomposition of a template.** Its plain text
stays as it is, and the text of a variable is put in without another look at it. With enforcement
the names of placeholders with neither a value nor a default are gathered, and nothing else ever. -/
theorem expand_parts (template : String) :
    ∃ parts, (∀ other, Decomposes template.toList other ↔ other = parts) ∧
      ∀ (value? : Resolver) (enforce : Bool) (missing : MissingNames),
        (expand value? enforce template missing).1 = String.ofList (parts.filled value?) ∧
        ∀ name, name ∈ (expand value? enforce template missing).2 ↔
          name ∈ missing ∨ enforce = true ∧ ∃ hole ∈ parts.holes,
            String.ofList hole.1.name = name ∧ hole.1.fallback? = none ∧ value? name = none := by
  refine ⟨Parts.ofPieces (pieces template.toList), fun _ => decomposes_iff, ?_⟩
  intro value? enforce missing
  have hparts := decomposes_ofPieces template.toList
  exact ⟨hparts.expand_fst value? enforce missing, hparts.mem_expand value? enforce missing⟩

/-- **A text without an opening `${` stands for itself,** and nothing is gathered from it. -/
theorem expand_of_no_opening {template : String} (h : ¬ ['$', '{'] <:+: template.toList)
    (value? : Resolver) (enforce : Bool) (missing : MissingNames) :
    expand value? enforce template missing = (template, missing) := by
  have hparts : Decomposes template.toList ⟨template.toList, []⟩ := by
    refine ⟨List.append_nil _, List.forall_mem_nil _, ?_, fun hole later hsuffix =>
      absurd (List.suffix_nil.1 hsuffix) (List.cons_ne_nil _ _)⟩
    intro before rest heq _ p _ hprefix
    have hopening : ['$', '{'] <+: p.text := by
      rw [Placeholder.text]
      split <;> exact ⟨_, rfl⟩
    rw [Parts.tailText, List.flatMap_nil, List.append_nil] at hprefix
    have hrest : rest <:+ template.toList := ⟨before, heq.symm⟩
    exact h ((hopening.trans hprefix).isInfix.trans hrest.isInfix)
  refine Prod.ext ((hparts.expand_fst ..).trans ?_) (MissingNames.ext_mem fun name => ?_)
  · simp [Parts.filled]
  · simp [hparts.mem_expand]

/-- So does a text without a dollar sign. -/
theorem text_of_not_mem (value? : Resolver) {template : String} (h : '$' ∉ template.toList) :
    text value? template = template := by
  have hopening : ¬ ['$', '{'] <:+: template.toList := fun hwithin =>
    h (hwithin.subset List.mem_cons_self)
  rw [text, expand_of_no_opening hopening]

end Template

end ConfigGraft
