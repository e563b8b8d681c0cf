import ConfigGraft.VariableFile

/-!
# What the lines of a variable file say

Each line of a variable file has its effect on its own, whatever stands on the others: a line that
gives no name a value changes nothing, and the last line for a name counts. A carriage return before
a line feed is a blank at the end of its line, so it makes no difference how lines are ended.

Every value without a line feed can be written, by putting it between quotes: all of the blanks,
quotes and signs in it are kept.

## Main results

* `readLines_append` — the lines of a text with another one behind it;
* `value?_foldl_assignLine` — what later lines say counts before what was known;
* `Line.ofText_quotedLine` — a value between quotes is read as it is;
* `value?_parse` — **the last assignment counts,** and every value of one line can be written.
-/

namespace ConfigGraft.VariableFile

/-! ### Lines -/

/-- The carriage return of a break is one blank more at the end of the line. -/
theorem trim_withoutBreak (piece : List Char × Bool) :
    Text.trim (Text.withoutBreak piece) = Text.trim piece.1 := by
  obtain ⟨line, - | -⟩ := piece
  · rfl
  · rw [Text.withoutBreak]
    split
    · rename_i hreturn
      obtain ⟨front, rfl⟩ := List.getLast?_eq_some_iff.1 hreturn
      rw [List.dropLast_concat, Text.trim_concat (by decide)]
    · rfl

/-- Lines that differ in blanks at their ends say the same. -/
theorem Line.ofText_congr {raw raw' : List Char} (h : Text.trim raw = Text.trim raw') :
    Line.ofText raw = Line.ofText raw' := by
  rw [Line.ofText, h, Line.ofText]

/-- A line is read up to its line feed, and it makes no difference what else is part of its
break. -/
theorem readLines_eq (content : String) :
    readLines content = (Text.cutLines content.toList).map fun piece => Line.ofText piece.1 := by
  rw [readLines, Text.lines, List.map_map]
  exact List.map_congr_left fun piece _ => Line.ofText_congr (trim_withoutBreak piece)

/-- **The lines of a text with another one behind it** are those of both, with an empty line between
them where the first text had ended its last line itself. -/
theorem readLines_append (a b : String) :
    readLines (a ++ "\n" ++ b) = readLines a ++ readLines b ∨
      readLines (a ++ "\n" ++ b) = readLines a ++ .nothing :: readLines b := by
  obtain ⟨pieces, line, hcut, hfront⟩ := Text.exists_cutLines_append a.toList b.toList
  have htext : (a ++ "\n" ++ b).toList = a.toList ++ '\n' :: b.toList := by
    simp [String.toList_append]
  rw [readLines_eq, readLines_eq, readLines_eq, htext, hcut]
  rcases hfront with ⟨hfront, rfl⟩ | hfront
  · right
    rw [hfront, List.map_append, List.map_cons]
    rfl
  · left
    rw [hfront, List.map_append, List.map_append, List.append_assoc]
    rfl

/-! ### Assignments -/

/-- A line that gives a name a value says so whatever was known. -/
theorem value?_assignLine (vars : Variables) (line : Line) (name : String) :
    (assignLine vars line).value? name =
      ((assignLine {} line).value? name).or (vars.value? name) := by
  cases line with
  | assign key value =>
      rw [assignLine, assignLine, Variables.value?_insert, Variables.value?_insert]
      split <;> rfl
  | nothing | noEquals | noName => rfl

/-- **What later lines say counts before what was known.** -/
theorem value?_foldl_assignLine (lines : List Line) (vars : Variables) (name : String) :
    (lines.foldl assignLine vars).value? name =
      ((lines.foldl assignLine {}).value? name).or (vars.value? name) := by
  induction lines generalizing vars with
  | nil => rfl
  | cons line rest ih =>
      rw [List.foldl_cons, List.foldl_cons, ih, ih (assignLine {} line), value?_assignLine,
        Option.or_assoc]

/-- A text behind another one goes on from what the first one has assigned. -/
theorem parse_append (a b : String) :
    parse (a ++ "\n" ++ b) = (readLines b).foldl assignLine (parse a) := by
  rcases readLines_append a b with hlines | hlines
  · rw [parse, hlines, List.foldl_append, parse]
  · rw [parse, hlines, List.foldl_append, List.foldl_cons, parse]
    rfl

/-- **A line is cut at its first equals sign.** What is before it is the name, unless that is
empty, and what is behind it is the value. -/
theorem Line.ofText_assign {raw name value : List Char}
    (htrim : Text.trim raw = name ++ '=' :: value) (hequals : '=' ∉ name)
    (hhash : name.head? ≠ some '#') (hne : Text.trim name ≠ []) :
    Line.ofText raw = .assign (Text.trim name) (unquote (Text.trim value)) := by
  have hname : ∀ c ∈ name, (c != '=') = true := by
    intro c hc
    exact bne_iff_ne.2 fun heq => hequals (heq ▸ hc)
  obtain ⟨c, rest, rfl⟩ : ∃ c rest, name = c :: rest := by
    refine List.exists_cons_of_ne_nil ?_
    rintro rfl
    exact hne Text.trim_nil
  have hdrop : (c :: rest ++ '=' :: value).dropWhile (· != '=') = '=' :: value := by
    rw [List.dropWhile_append_of_pos hname]
    rfl
  have htake : (c :: rest ++ '=' :: value).takeWhile (· != '=') = c :: rest := by
    rw [List.takeWhile_append_of_pos hname]
    simp
  rw [Line.ofText, htrim]
  split
  · rename_i hnil
    cases hnil
  · rename_i hsign
    rw [List.cons_append] at hsign
    obtain ⟨rfl, -⟩ := List.cons.inj hsign
    exact absurd rfl hhash
  · rw [hdrop, htake]
    cases htrimmed : Text.trim (c :: rest) with
    | nil => exact absurd htrimmed hne
    | cons d more => rfl

/-! ### Values between quotes -/

/-- **A name that a line can give a value:** it is not empty, has no blanks at its ends and no
number sign at its start, and holds neither an equals sign nor a line feed. -/
structure IsName (name : String) : Prop where
  ne_empty : name ≠ ""
  trimmed : Text.trim name.toList = name.toList
  head_ne : name.toList.head? ≠ some '#'
  no_equals : '=' ∉ name.toList
  no_feed : '\n' ∉ name.toList

/-- Whether a character is one of the two quotes. -/
def IsQuote (c : Char) : Prop := c = '"' ∨ c = '\x27'

/-- The line that gives a name a value between quotes. -/
def quotedLine (quote : Char) (entry : String × String) : List Char :=
  entry.1.toList ++ '=' :: quote :: (entry.2.toList ++ [quote])

/-- A text with a line for each entry, the value between quotes. -/
def quotedLines (quote : Char) (entries : List (String × String)) : String :=
  String.ofList (entries.flatMap fun entry => quotedLine quote entry ++ ['\n'])

section

variable {quote : Char} {entry : String × String}

/-- Neither quote is blank. -/
theorem IsQuote.not_isBlank (h : IsQuote quote) : Text.isBlank quote = false := by
  obtain rfl | rfl := h <;> decide

/-- A value between quotes loses the quotes and nothing else. -/
theorem unquote_quoted (h : IsQuote quote) (value : List Char) :
    unquote (quote :: (value ++ [quote])) = value := by
  have hpair : withoutPair quote (quote :: (value ++ [quote])) = some value := by
    simp [withoutPair]
  obtain rfl | rfl := h
  · rw [unquote, hpair]
  · have hother : withoutPair '"' ('\x27' :: (value ++ ['\x27'])) = none := by
      simp [withoutPair]
    rw [unquote, hother, hpair]
    rfl

/-- A line with a value between quotes has no blanks at its ends. -/
theorem trim_quotedLine (hname : IsName entry.1) (hquote : IsQuote quote) :
    Text.trim (quotedLine quote entry) = quotedLine quote entry := by
  refine Text.trim_eq_self ?_ ?_
  · intro c hc
    refine Text.head?_of_trim_eq_self hname.trimmed c ?_
    have hne : entry.1.toList ≠ [] := by simpa using hname.ne_empty
    rwa [quotedLine, List.head?_append, Option.or_of_isSome (by simpa using hne)] at hc
  · intro c hc
    have hlast : (quotedLine quote entry).getLast? = some quote := by
      rw [quotedLine, ← List.cons_append, ← List.cons_append, ← List.append_assoc,
        List.getLast?_concat]
    rw [hlast] at hc
    obtain rfl := Option.some.inj hc
    exact hquote.not_isBlank

/-- **A value between quotes is read as it is.** -/
theorem Line.ofText_quotedLine (hname : IsName entry.1) (hquote : IsQuote quote) :
    Line.ofText (quotedLine quote entry) = .assign entry.1.toList entry.2.toList := by
  have hvalue : Text.trim (quote :: (entry.2.toList ++ [quote])) =
      quote :: (entry.2.toList ++ [quote]) := by
    refine Text.trim_eq_self ?_ ?_
    · rintro _ ⟨⟩
      exact hquote.not_isBlank
    · rw [← List.cons_append, List.getLast?_concat]
      rintro _ ⟨⟩
      exact hquote.not_isBlank
  rw [Line.ofText_assign (trim_quotedLine hname hquote) hname.no_equals hname.head_ne, hvalue,
    unquote_quoted hquote, hname.trimmed]
  rw [hname.trimmed]
  simpa using hname.ne_empty

/-- Lines with values between quotes are cut where they end. -/
theorem readLines_quotedLines {entries : List (String × String)} (hquote : IsQuote quote)
    (h : ∀ entry ∈ entries, IsName entry.1 ∧ '\n' ∉ entry.2.toList) :
    readLines (quotedLines quote entries) =
      entries.map fun entry => .assign entry.1.toList entry.2.toList := by
  rw [readLines_eq, quotedLines, String.toList_ofList]
  induction entries with
  | nil => rfl
  | cons entry rest ih =>
      obtain ⟨⟨hname, hvalue⟩, hrest⟩ := List.forall_mem_cons.1 h
      have hfeed : '\n' ∉ quotedLine quote entry := by
        have hne : quote ≠ '\n' := by
          obtain rfl | rfl := hquote <;> decide
        simp [quotedLine, hname.no_feed, hvalue, hne.symm]
      rw [List.flatMap_cons, List.append_assoc, List.singleton_append, Text.cutLines_append hfeed,
        List.map_cons, List.map_cons, ih hrest, Line.ofText_quotedLine hname hquote]

end

/-! ### Whole files -/

/-- Variables with values for names, given from the first entry to the last. -/
def ofEntries (entries : List (String × String)) : Variables :=
  entries.foldl (fun vars entry => vars.insert entry.1 entry.2) {}

/-- The last entry for a name counts. -/
theorem value?_ofEntries (entries : List (String × String)) (name : String) :
    (ofEntries entries).value? name = entries.reverse.lookup name := by
  suffices h : ∀ vars : Variables,
      (entries.foldl (fun vars entry => vars.insert entry.1 entry.2) vars).value? name =
        (entries.reverse.lookup name).or (vars.value? name) by
    exact (h {}).trans Option.or_none
  induction entries with
  | nil => exact fun _ => rfl
  | cons entry rest ih =>
      intro vars
      rw [List.foldl_cons, ih, Variables.value?_insert, List.reverse_cons, List.lookup_append,
        Option.or_assoc, Association.lookup_cons_eq]
      split <;> rfl

/-- A text of lines with values between quotes gives the names these values. -/
theorem parse_quotedLines {quote : Char} {entries : List (String × String)} (hquote : IsQuote quote)
    (h : ∀ entry ∈ entries, IsName entry.1 ∧ '\n' ∉ entry.2.toList) :
    parse (quotedLines quote entries) = ofEntries entries := by
  rw [parse, readLines_quotedLines hquote h, List.foldl_map]
  simp only [assignLine, String.ofList_toList]
  rfl

/-- **The last assignment counts, and every value of one line can be written.** A text behind
another one decides about the names that it gives a value, and the first one about all others,
whatever else their lines hold. And entries that are written one a line, with their values between
quotes of either kind, are read as just these entries, the last one of a name counting. It makes no
difference whether the last line is ended. -/
theorem value?_parse :
    (∀ a b name : String, (parse (a ++ "\n" ++ b)).value? name =
      ((parse b).value? name).or ((parse a).value? name)) ∧
    ∀ (quote : Char) (entries : List (String × String)) (content : String), IsQuote quote →
      (∀ entry ∈ entries, IsName entry.1 ∧ '\n' ∉ entry.2.toList) →
      content = quotedLines quote entries ∨ content ++ "\n" = quotedLines quote entries →
      parse content = ofEntries entries ∧
        ∀ name, (parse content).value? name = entries.reverse.lookup name := by
  refine ⟨fun a b name => ?_, fun quote entries content hquote hentries hcontent => ?_⟩
  · rw [parse_append, value?_foldl_assignLine]
    rfl
  · have hparse : parse content = ofEntries entries := by
      rw [← parse_quotedLines hquote hentries]
      rcases hcontent with rfl | hcontent
      · rfl
      · have happend := parse_append content ""
        rw [String.append_empty, hcontent] at happend
        exact happend.symm
    exact ⟨hparse, fun name => by rw [hparse, value?_ofEntries]⟩

/-! ### An instance -/

/-- Two values for one name. The last one is a quote with blanks, an equals sign and a carriage
return around it. -/
def sampleEntries : List (String × String) := [("A B", "'"), ("C", "\"\""), ("A B", " \" =\r")]

/-- The text that says so is read back, with no line feed at its end. -/
theorem value?_parse_sampleEntries :
    parse "A B=\"'\"\nC=\"\"\"\"\nA B=\" \" =\r\"" = ofEntries sampleEntries ∧
      (parse "A B=\"'\"\nC=\"\"\"\"\nA B=\" \" =\r\"").value? "A B" = some " \" =\r" := by
  have hnames : ∀ entry ∈ sampleEntries, IsName entry.1 ∧ '\n' ∉ entry.2.toList := by
    simp only [sampleEntries, List.forall_mem_cons]
    refine ⟨⟨⟨?_, ?_, ?_, ?_, ?_⟩, ?_⟩, ⟨⟨?_, ?_, ?_, ?_, ?_⟩, ?_⟩,
      ⟨⟨?_, ?_, ?_, ?_, ?_⟩, ?_⟩, List.forall_mem_nil _⟩ <;> decide
  have hread := value?_parse.2 '"' sampleEntries "A B=\"'\"\nC=\"\"\"\"\nA B=\" \" =\r\"" (.inl rfl)
    hnames (.inr (by decide))
  exact ⟨hread.1, hread.2 "A B"⟩

end ConfigGraft.VariableFile
