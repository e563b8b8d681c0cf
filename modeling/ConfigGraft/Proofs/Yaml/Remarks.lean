import ConfigGraft.Proofs.Yaml.RoundTrip

/-!
# Texts of blanks and comments

A YAML text with nothing but blanks and comments on its lines has no tokens, so it is read as no
value, if it is read at all. Before the reader is asked, a scan of its own looks for such texts. It
goes by the same rule, `onlyComments`, but by other notions of what ends a line and what is blank:
for the reader also a carriage return ends a line, and so do the next line character and the line
and paragraph separators, and only spaces and tabs are blank; for the scan only a line feed ends a
line, and all white space of Unicode is blank. So a comment can go on for the scan where a mapping
begins for the reader.

## Main results

* `Value.read?_of_onlyComments` — what is blank for the reader is never a mapping;
* `onlyComments_eq` — reader and scan agree where white space within lines is spaces and tabs;
* `Document.parse_of_read?` — **a text that is read as a mapping is a document of its entries,
  unless the scan takes it for blank;**
* `Document.parse_sampleReturn` — one that the scan takes for blank.
-/

namespace ConfigGraft

namespace Yaml

open Style

/-- Whether there is nothing on the lines of a text but blanks and comments, by what ends a line and
what is blank. The flag says that the text begins within a comment. -/
def onlyComments (ends blank : Char → Bool) : Bool → List Char → Bool
  | _, [] => true
  | inComment, c :: cs =>
    if ends c then onlyComments ends blank false cs
    else if inComment || c == '#' then onlyComments ends blank true cs
    else blank c && onlyComments ends blank false cs

section

variable {ends blank : Char → Bool} {c : Char} {cs : List Char} {inComment : Bool}

/-- The end of a line ends a comment. -/
theorem onlyComments_end (h : ends c = true) :
    onlyComments ends blank inComment (c :: cs) = onlyComments ends blank false cs := by
  rw [onlyComments, if_pos h]

/-- Within a line, a comment goes on, and outside it there have to be blanks. -/
theorem onlyComments_stay (h : ends c = false) :
    onlyComments ends blank inComment (c :: cs) =
      if inComment || c == '#' then onlyComments ends blank true cs
      else blank c && onlyComments ends blank false cs := by
  rw [onlyComments, if_neg (ne_true_of_eq_false h)]

end

/-! ### What the reader sees -/

/-- A prepared text has its line ends where they were. -/
theorem onlyComments_oneBreak (inComment : Bool) (cs : List Char) :
    onlyComments isBreak isBlank inComment (oneBreak cs) =
      onlyComments endsLine isBlank inComment cs := by
  fun_induction oneBreak cs generalizing inComment with
  | case1 => rfl
  | case2 rest ih =>
      rw [onlyComments_end (by decide), onlyComments_end (by decide), onlyComments_end (by decide),
        ih]
  | case3 c rest _ ih =>
      by_cases hc : c = '\r' ∨ c = '\u0085'
      · have hends : endsLine c = true := by
          rcases hc with rfl | rfl <;> decide
        rw [if_pos hc, onlyComments_end (by decide), onlyComments_end hends, ih]
      · have heq : isBreak c = endsLine c := by
          obtain ⟨hreturn, hnext⟩ := not_or.1 hc
          rw [isBreak, endsLine, beq_eq_false_iff_ne.2 hreturn, beq_eq_false_iff_ne.2 hnext,
            Bool.or_false, Bool.or_false]
        rw [if_neg hc]
        simp only [onlyComments, heq, ih]

/-- A byte order mark is neither blank nor a comment. -/
theorem start_of_onlyComments {cs : List Char} (h : onlyComments isBreak isBlank false cs = true) :
    Token.start cs = ⟨cs, 0, 0⟩ := by
  unfold Token.start
  split
  · rename_i rest
    rw [onlyComments_stay (by decide)] at h
    cases h
  · rfl

namespace Lexer

/-- Blanks and comments are passed over, except for a tab where a key may begin. -/
theorem passGap_of_onlyComments (inFlow : Bool) (cs : List Char) (line column : Nat)
    (allowed inComment : Bool) (h : onlyComments isBreak isBlank inComment cs = true) :
    ∀ c ∈ (passGap inFlow cs line column allowed inComment).1.rest.head?, c = '\t' := by
  fun_induction passGap inFlow cs line column allowed inComment with
  | case1 => rintro _ ⟨⟩
  | case2 c rest line column allowed inComment hbreak ih =>
      rw [onlyComments_end hbreak] at h
      exact ih h
  | case3 c rest line column allowed inComment hbreak hpass ih =>
      refine ih ?_
      rw [onlyComments_stay (eq_false_of_ne_true hbreak)] at h
      cases inComment with
      | true => simpa using h
      | false =>
          have hcomment : c ≠ '#' := by
            rintro rfl
            simp at hpass
          simp only [Bool.false_or, beq_iff_eq, hcomment, if_false, Bool.and_eq_true] at h
          exact h.2
  | case4 c rest line column allowed inComment hbreak hpass hcomment ih =>
      rw [onlyComments_stay (eq_false_of_ne_true hbreak), if_pos (by simp [hcomment])] at h
      exact ih h
  | case5 c rest line column allowed inComment hbreak hpass hcomment =>
      rintro d ⟨⟩
      simp only [Bool.not_eq_true, Bool.or_eq_false_iff] at hpass
      obtain ⟨⟨hinside, hspace⟩, -⟩ := hpass
      rw [onlyComments_stay (eq_false_of_ne_true hbreak), if_neg (by simp [hinside, hcomment]),
        Bool.and_eq_true, isBlank, hspace, Bool.false_or, beq_iff_eq] at h
      exact h.1

/-- No token begins with a tab. -/
theorem token?_tab (rest : List Char) (lx : Lexer) : lx.token? '\t' rest = none := by
  simp [token?, startsPlain, isDocumentMark, isBlank]

end Lexer

/-- A text of blanks and comments has no tokens, if it may be read at all. -/
theorem Token.readAll?_of_onlyComments {cs : List Char}
    (h : onlyComments endsLine isBlank false cs = true) :
    readAll? cs = none ∨ readAll? cs = some [] := by
  rw [readAll?]
  split
  · rw [← onlyComments_oneBreak] at h
    have htab := Lexer.passGap_of_onlyComments false (oneBreak cs) 0 0 true false h
    obtain ⟨spot, allowed, hpass⟩ : ∃ spot allowed,
        Lexer.passGap false (oneBreak cs) 0 0 true false = (spot, allowed) := ⟨_, _, rfl⟩
    rw [hpass] at htab
    have hsettle : (Lexer.row [] [] ⟨oneBreak cs, 0, 0⟩).settle? =
        some (Lexer.row [] [] spot allowed) := by
      rw [Lexer.settle?_eq hpass rfl, Lexer.closeBlocksTo_of_le (by rintro _ ⟨⟩)]
    have hstart : ({ spot := start (oneBreak cs) } : Lexer) =
        Lexer.row [] [] ⟨oneBreak cs, 0, 0⟩ := by
      rw [start_of_onlyComments h]
      rfl
    simp only [hstart, Lexer.run?_succ, hsettle, Option.bind_some, Lexer.row_spot]
    -- Before the first token a key may begin, so a tab is not passed over there, and is no token.
    cases hrest : spot.rest with
    | nil => exact .inr rfl
    | cons c rest =>
        rw [hrest] at htab
        cases htab c rfl
        exact .inl (by simp only [Lexer.token?_tab, Option.bind_none])
  · exact .inl rfl

/-- **A text of blanks and comments is never read as a mapping.** -/
theorem Value.read?_of_onlyComments {text : String}
    (h : onlyComments endsLine isBlank false text.toList = true) :
    read? text = none ∨ read? text = some .null := by
  rcases Token.readAll?_of_onlyComments h with hread | hread
  · exact .inl (by rw [read?, Node.ofText?, hread, Option.bind_none])
  · exact .inr (read?_of_tokens hread)

end Yaml

namespace Document

open Yaml Yaml.Style

/-! ### What the scan sees -/

/-- Whether a character ends a line for the scan. -/
def isFeed (c : Char) : Bool := c == '\n'

/-- Whether a line is blank or a comment. -/
def isRemark (line : List Char) : Bool := (line.dropWhile Text.isBlank).head?.all (· == '#')

@[simp] theorem isRemark_nil : isRemark [] = true := rfl

/-- Whether a line is a remark shows at its first character, or behind it if that is a blank. -/
theorem or_isRemark_cons (inComment : Bool) (c : Char) (line : List Char) :
    (inComment || isRemark (c :: line)) =
      if inComment || c == '#' then true else Text.isBlank c && isRemark line := by
  have hcomment : Text.isBlank '#' = false := by decide
  rw [isRemark, isRemark, List.dropWhile_cons]
  by_cases hc : c = '#'
  · subst hc
    simp [hcomment]
  · cases inComment <;> cases hblank : Text.isBlank c <;> simp [hc]

/-- A line is looked at without the blanks at its ends. -/
theorem trim_eq_isRemark (line : List Char) :
    (match Text.trim line with
      | [] => true
      | c :: _ => c == '#') = isRemark line := by
  have hcut := List.takeWhile_append_dropWhile (p := Text.isBlank) (l := line)
  have hhead := List.head?_dropWhile_not Text.isBlank line
  rw [isRemark]
  cases hrest : line.dropWhile Text.isBlank with
  | nil => rw [Text.trim, hrest, Text.dropEnd]; rfl
  | cons c rest =>
      rw [hrest] at hcut hhead
      obtain ⟨more, htrim⟩ := exists_trim_eq (List.all_eq_true.1 List.all_takeWhile) hhead rest
      rw [← hcut, htrim]
      rfl

/-- A carriage return that is part of a break makes no difference to a line. -/
theorem isRemark_withoutBreak (piece : List Char × Bool) :
    isRemark (Text.withoutBreak piece) = isRemark piece.1 := by
  obtain ⟨line, ended⟩ := piece
  cases ended with
  | false => rfl
  | true =>
      rw [Text.withoutBreak]
      split
      · rename_i hreturn
        obtain ⟨front, rfl⟩ := List.getLast?_eq_some_iff.1 hreturn
        rw [List.dropLast_concat, isRemark, isRemark, List.dropWhile_append]
        split
        · rename_i hempty
          rw [List.isEmpty_iff.1 hempty]
          rfl
        · rename_i hne
          rw [List.head?_append, Option.or_of_isSome (by simpa using hne)]
      · rfl

/-- Blanks and comments are between line feeds. A line in which the text begins may be within a
comment already. -/
theorem onlyComments_eq_all (inComment : Bool) (cs : List Char) :
    onlyComments isFeed Text.isBlank inComment cs =
      ((Text.cutLines cs).head?.all (fun piece => inComment || isRemark piece.1) &&
        (Text.cutLines cs).tail.all fun piece => isRemark piece.1) := by
  induction cs generalizing inComment with
  | nil => rfl
  | cons c cs ih =>
      rw [Text.cutLines]
      by_cases hc : c = '\n'
      · have hends : isFeed c = true := beq_iff_eq.2 hc
        rw [onlyComments_end hends, if_pos hc, ih]
        cases Text.cutLines cs <;> simp
      · have hends : isFeed c = false := beq_eq_false_iff_ne.2 hc
        rw [onlyComments_stay hends, if_neg hc, ih, ih]
        cases Text.cutLines cs with
        | nil =>
            simp only [List.head?_cons, List.tail_cons, Option.all_some, or_isRemark_cons]
            split <;> simp
        | cons piece more =>
            simp only [List.head?_cons, List.tail_cons, Option.all_some, or_isRemark_cons]
            split <;> simp [Bool.and_assoc]

/-- The scan finds blanks and comments between line feeds. -/
theorem isBlankYaml_eq (cs : List Char) :
    isBlankYaml cs = onlyComments isFeed Text.isBlank false cs := by
  have hscan : isBlankYaml cs = (Text.cutLines cs).all fun piece => isRemark piece.1 := by
    rw [isBlankYaml, Text.lines, List.all_map]
    refine congrArg (Text.cutLines cs).all (funext fun piece => ?_)
    exact (trim_eq_isRemark _).trans (isRemark_withoutBreak piece)
  rw [hscan, onlyComments_eq_all]
  cases Text.cutLines cs <;> simp

/-! ### Where reader and scan agree -/

section

variable {c : Char} (h : Text.isBlank c = true → Yaml.isBlank c = true)

include h

/-- What ends a line for the reader only is no space and no tab, but white space. -/
theorem endsLine_eq_isFeed : endsLine c = isFeed c := by
  refine Bool.eq_iff_iff.2 ⟨fun hends => ?_, fun hfeed => ?_⟩
  · simp only [endsLine, Bool.or_eq_true, beq_iff_eq] at hends
    obtain (((rfl | rfl) | rfl) | rfl) | rfl := hends
    · rfl
    all_goals exact absurd (h (by decide)) (by decide)
  · rw [beq_iff_eq.1 hfeed]
    rfl

/-- Nor does the scan count more as blank than the reader. -/
theorem isBlank_eq_isBlank : Text.isBlank c = Yaml.isBlank c := by
  refine Bool.eq_iff_iff.2 ⟨h, fun hblank => ?_⟩
  simp only [Yaml.isBlank, Bool.or_eq_true, beq_iff_eq] at hblank
  obtain rfl | rfl := hblank <;> decide

end

/-- Reader and scan agree on a text if the white space within its lines is spaces and tabs. -/
theorem onlyComments_eq (inComment : Bool) (cs : List Char)
    (h : ∀ line ∈ Text.lines cs, ∀ c ∈ line, Text.isBlank c = true → Yaml.isBlank c = true) :
    onlyComments isFeed Text.isBlank inComment cs =
      onlyComments endsLine Yaml.isBlank inComment cs := by
  induction cs using oneBreak.induct generalizing inComment with
  | case1 => rfl
  | case2 rest ih =>
      have hlines : Text.lines ('\r' :: '\n' :: rest) = [] :: Text.lines rest := by
        simp [Text.lines, Text.cutLines, Text.withoutBreak]
      rw [hlines, List.forall_mem_cons] at h
      have hblank : Text.isBlank '\r' = true := by decide
      -- The carriage return is blank for the scan and ends a line for the reader, and the line feed
      -- ends a line for both, so both go on behind it outside of a comment.
      rw [onlyComments_stay (by decide), onlyComments_end (by decide), onlyComments_end (by decide),
        onlyComments_end (by decide), onlyComments_end (by decide), ih false h.2, hblank,
        Bool.true_and, ite_self]
  | case3 c rest hreturn ih =>
      by_cases hfeed : c = '\n'
      · subst hfeed
        have hlines : Text.lines ('\n' :: rest) = [] :: Text.lines rest :=
          Text.lines_append List.not_mem_nil List.not_mem_nil rest
        rw [hlines, List.forall_mem_cons] at h
        rw [onlyComments_end (by decide), onlyComments_end (by decide), ih false h.2]
      · have hlines := Text.lines_cons hfeed fun hc hhead =>
          (List.head?_eq_some_iff.1 hhead).elim fun _ hrest => hreturn _ hc hrest
        obtain ⟨hc, hrest⟩ : (Text.isBlank c = true → Yaml.isBlank c = true) ∧
            ∀ line ∈ Text.lines rest, ∀ c ∈ line,
              Text.isBlank c = true → Yaml.isBlank c = true := by
          rw [hlines] at h
          cases hcut : Text.lines rest with
          | nil =>
              rw [hcut, List.forall_mem_singleton, List.forall_mem_singleton] at h
              exact ⟨h, List.forall_mem_nil _⟩
          | cons line more =>
              rw [hcut, List.forall_mem_cons, List.forall_mem_cons] at h
              exact ⟨h.1.1, List.forall_mem_cons.2 ⟨h.1.2, h.2⟩⟩
        simp only [onlyComments, endsLine_eq_isFeed hc, isBlank_eq_isBlank hc, ih _ hrest]

/-! ### Documents -/

/-- **A text that YAML reads as a mapping is a document of its entries, unless the scan takes it for
blank.** What is blank for the reader is never a mapping. The scan applies the same rule with other
notions of line ends and blanks, and what is blank for it is the empty document. It agrees with the
reader if no white space but spaces and tabs is within the lines of the text; then the document has
the entries of the mapping. -/
theorem parse_of_read? {content : String} {entries : Mapping}
    (h : Value.read? content = some (.mapping entries)) :
    onlyComments endsLine Yaml.isBlank false content.toList = false ∧
      parse .yaml content = .ok (.yaml
        (if onlyComments isFeed Text.isBlank false content.toList then [] else entries)) ∧
      ((∀ line ∈ Text.lines content.toList, ∀ c ∈ line,
          Text.isBlank c = true → Yaml.isBlank c = true) →
        parse .yaml content = .ok (.yaml entries)) := by
  have hreader : onlyComments endsLine Yaml.isBlank false content.toList = false := by
    refine eq_false_of_ne_true fun hblank => ?_
    rcases Value.read?_of_onlyComments hblank with hread | hread <;> rw [hread] at h <;> cases h
  have hparse : parse .yaml content = .ok (.yaml
      (if onlyComments isFeed Text.isBlank false content.toList then [] else entries)) := by
    rw [parse, parseYaml, isBlankYaml_eq, h]
    split <;> rfl
  refine ⟨hreader, hparse, fun hlines => ?_⟩
  rw [hparse, onlyComments_eq false _ hlines, hreader, if_neg Bool.false_ne_true]

/-- A mapping behind a comment, on lines that end in two characters each. -/
def sampleRemark : String := "# c\r\na: b\r\n"

/-- A remark with the line of a mapping behind it is read as the mapping. -/
theorem parse_of_read?_sampleRemark :
    Value.read? sampleRemark = some (.mapping [(.string "a", .string "b")]) ∧
      parse .yaml sampleRemark = .ok (.yaml [(.string "a", .string "b")]) := by
  have htokens : Token.readAll? sampleRemark.toList = some [.openBlockMapping, .key,
      .scalar true ['a'], .value, .scalar true ['b'], .closeBlock] := by
    decide
  have hread : Value.read? sampleRemark = some (.mapping [(.string "a", .string "b")]) :=
    Value.read?_of_tokens htokens
  have hlines : Text.lines sampleRemark.toList = [['#', ' ', 'c'], ['a', ':', ' ', 'b']] := by
    decide
  exact ⟨hread, (parse_of_read? hread).2.2 (by simp [hlines, Text.isBlank, Yaml.isBlank])⟩

/-- The mapping behind a comment whose line ends in a carriage return only. -/
def sampleReturn : String := "# c\ra: b\n"

/-- The scan takes the mapping for a part of the comment, and the document is empty. -/
theorem parse_sampleReturn :
    Value.read? sampleReturn = some (.mapping [(.string "a", .string "b")]) ∧
      parse .yaml sampleReturn = .ok (.yaml []) := by
  have htokens : Token.readAll? sampleReturn.toList = some [.openBlockMapping, .key,
      .scalar true ['a'], .value, .scalar true ['b'], .closeBlock] := by
    decide
  have hblank : isBlankYaml sampleReturn.toList = true := by decide
  refine ⟨Value.read?_of_tokens htokens, ?_⟩
  rw [parse, parseYaml, if_pos hblank]
  rfl

end Document

end ConfigGraft
