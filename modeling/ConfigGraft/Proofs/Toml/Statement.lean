import ConfigGraft.Proofs.Toml.Quoted
import ConfigGraft.Toml.Reader
import ConfigGraft.Toml.Writer

/-!
# Statements are read as they were written

A document of tables and strings is written as sections: a header, unless the section is that of the
document itself, and a line for each string. Each line is read as the statement it was written for,
and so the text of all sections as their statements.

## Main results

* `Statement.readPath?_joined` — a path is read as its keys;
* `Statement.read?_header`, `Statement.read?_entry` — one line;
* `Statement.readAll?_sectionsText` — **the text of simple sections is read as their statements.**
-/

namespace ConfigGraft.Toml

namespace Statement

/-! ### Paths -/

/-- Keys with dots between them. -/
def joined (path : List String) : List Char := ".".toList.intercalate (path.map keyText)

/-- A path of one key is spelled by the key. -/
theorem joined_singleton (key : String) : joined [key] = keyText key := by
  simp [joined, List.intercalate]

/-- Keys are joined with a dot. -/
theorem joined_cons (key next : String) (path : List String) :
    joined (key :: next :: path) = keyText key ++ '.' :: joined (next :: path) := by
  simp [joined, List.intercalate]

/-- What is written of a path begins with a character that neither is blank nor begins another kind
of statement. -/
theorem exists_joined (key : String) (path : List String) : ∃ c ds, joined (key :: path) = c :: ds ∧
    c ∉ [' ', '\t', '\n', '\r', '[', '#', '\ufeff'] := by
  obtain ⟨c, ds, hwritten, hc⟩ := Key.exists_write key.toList
  have hkey : keyText key = c :: ds := hwritten
  cases path with
  | nil => exact ⟨c, ds, by rw [joined_singleton, hkey], hc⟩
  | cons next path => exact ⟨c, _, by rw [joined_cons, hkey]; rfl, hc⟩

/-- A written path has a character for each key at least. -/
theorem length_le_joined (path : List String) : path.length ≤ (joined path).length := by
  induction path with
  | nil => exact Nat.zero_le _
  | cons key path ih =>
      obtain ⟨c, ds, hwritten, -⟩ := exists_joined key path
      cases path with
      | nil => simp [hwritten]
      | cons next path =>
          rw [joined_cons]
          simp only [List.length_cons, List.length_append] at ih ⊢
          omega

/-- Nothing is skipped before a character that is not blank. -/
theorem skipBlanks_cons {c : Char} (h : Quoted.isBlank c = false) (cs : List Char) :
    skipBlanks (c :: cs) = c :: cs := by
  simp [skipBlanks, h]

/-- Nothing is skipped before a path. -/
theorem skipBlanks_joined (key : String) (path : List String) (rest : List Char) :
    skipBlanks (joined (key :: path) ++ rest) = joined (key :: path) ++ rest := by
  obtain ⟨c, ds, hwritten, hc⟩ := exists_joined key path
  rw [hwritten]
  refine skipBlanks_cons ?_ _
  simp only [Quoted.isBlank, Bool.or_eq_false_iff, beq_eq_false_iff_ne]
  simp at hc
  exact ⟨hc.1, hc.2.1⟩

/-- Keys with dots between them are read up to where no key and no dot goes on. -/
theorem readKeys?_joined {key : String} {path : List String} {bound : Nat}
    (hbound : path.length < bound) {d : Char} (hstop : Key.isBareChar d = false)
    {rest : List Char} (hdot : (skipBlanks (d :: rest)).head? ≠ some '.') :
    readKeys? bound (joined (key :: path) ++ d :: rest) =
      some (key :: path, skipBlanks (d :: rest)) := by
  induction path generalizing key bound with
  | nil =>
      obtain ⟨bound, rfl⟩ := Nat.exists_eq_add_one_of_ne_zero (Nat.ne_zero_of_lt hbound)
      rw [readKeys?, skipBlanks_joined, joined_singleton, keyText, Key.read?_write _ hstop]
      dsimp only
      split
      · rename_i hnext
        rw [hnext] at hdot
        exact absurd rfl hdot
      · rw [String.ofList_toList]
  | cons next path ih =>
      obtain ⟨bound, rfl⟩ := Nat.exists_eq_add_one_of_ne_zero (Nat.ne_zero_of_lt hbound)
      rw [readKeys?, skipBlanks_joined, joined_cons, List.append_assoc, List.cons_append, keyText,
        Key.read?_write _ (by decide)]
      have hdots : skipBlanks ('.' :: (joined (next :: path) ++ d :: rest)) =
          '.' :: (joined (next :: path) ++ d :: rest) := skipBlanks_cons (by decide) _
      simp only [hdots, ih (Nat.lt_of_succ_lt_succ hbound), Option.map_some, String.ofList_toList]

/-- **A path is read as its keys,** if there are not too many. -/
theorem readPath?_joined {parents : List String} {key : String}
    (hlimit : parents.length + 1 < limit) {d : Char} (hstop : Key.isBareChar d = false)
    {rest : List Char} (hdot : (skipBlanks (d :: rest)).head? ≠ some '.') :
    readPath? (joined (parents ++ [key]) ++ d :: rest) =
      some ((parents, key), skipBlanks (d :: rest)) := by
  have hlength := length_le_joined (parents ++ [key])
  have hkeys : readKeys? ((joined (parents ++ [key]) ++ d :: rest).length + 1)
      (joined (parents ++ [key]) ++ d :: rest) =
        some (parents ++ [key], skipBlanks (d :: rest)) := by
    obtain ⟨first, more, hpath⟩ := List.exists_cons_of_ne_nil
      (List.append_ne_nil_of_right_ne_nil parents (List.cons_ne_nil key []))
    rw [hpath] at hlength ⊢
    refine readKeys?_joined ?_ hstop hdot
    simp only [List.length_cons, List.length_append] at hlength ⊢
    omega
  rw [readPath?, hkeys]
  simp [hlimit]

/-! ### Lines -/

/-- A written text begins with one of the two marks. -/
theorem exists_write (cs : List Char) :
    ∃ c ds, Quoted.write cs = c :: ds ∧ (c = '"' ∨ c = '\x27') := by
  unfold Quoted.write
  extract_lets bare
  repeat' split
  all_goals first
    | exact ⟨_, _, rfl, .inl rfl⟩
    | exact ⟨_, _, rfl, .inr rfl⟩

/-- A string is read as a value. -/
theorem readValue?_write (bound depth : Nat) (text : String) {rest : List Char}
    (hquote : rest.head? ≠ some '"') (hmark : rest.head? ≠ some '\x27') :
    readValue? (bound + 1) depth (Quoted.write text.toList ++ rest) =
      some (.string text, rest) := by
  have hread := Quoted.read?_write hquote hmark text.toList
  obtain ⟨c, ds, hwritten, hc⟩ := exists_write text.toList
  rw [hwritten, List.cons_append] at hread ⊢
  rw [readValue?, if_pos hc, hread]
  simp

/-- A line that is at its end is passed. -/
theorem passLine?_newline (rest : List Char) : passLine? ('\n' :: rest) = some rest := by
  rfl

/-- **A header is read.** -/
theorem read?_header {parents : List String} (hlimit : parents.length + 1 < limit) (key : String)
    (rest : List Char) :
    read? ('[' :: (joined (parents ++ [key]) ++ ']' :: '\n' :: rest)) =
      some (.openTable parents key, rest) := by
  have hclose : skipBlanks (']' :: '\n' :: rest) = ']' :: '\n' :: rest :=
    skipBlanks_cons (by decide) _
  have hpath : readPath? (joined (parents ++ [key]) ++ ']' :: '\n' :: rest) =
      some ((parents, key), ']' :: '\n' :: rest) := by
    rw [readPath?_joined hlimit (by decide) (by simp [hclose]), hclose]
  obtain ⟨first, more, hkeys⟩ := List.exists_cons_of_ne_nil
    (List.append_ne_nil_of_right_ne_nil parents (List.cons_ne_nil key []))
  obtain ⟨c, ds, hwritten, hc⟩ := exists_joined first more
  rw [hkeys, hwritten, List.cons_append] at hpath ⊢
  have hbracket : c ≠ '[' := fun h => hc (by simp [h])
  simp [read?, hbracket, readHeader?, hpath, endingLine?, passLine?_newline]

/-- A line for a string. -/
def entryText (entry : String × Value) : List Char :=
  keyText entry.1 ++ " = ".toList ++ entry.2.text ++ ['\n']

/-- **A line for a string is read.** -/
theorem read?_entry (key text : String) (rest : List Char) :
    read? (entryText (key, .string text) ++ rest) = some (.entry [] key (.string text), rest) := by
  have hline : entryText (key, .string text) ++ rest =
      joined ([] ++ [key]) ++ ' ' :: '=' :: ' ' :: (Quoted.write text.toList ++ '\n' :: rest) := by
    simp [entryText, joined_singleton, Value.text]
  have hequals : skipBlanks (' ' :: '=' :: ' ' :: (Quoted.write text.toList ++ '\n' :: rest)) =
      '=' :: ' ' :: (Quoted.write text.toList ++ '\n' :: rest) := rfl
  have hpath : readPath? (entryText (key, .string text) ++ rest) =
      some (([], key), '=' :: ' ' :: (Quoted.write text.toList ++ '\n' :: rest)) := by
    rw [hline, readPath?_joined (by decide) (by decide) (by simp [hequals]), hequals]
  have hvalue (bound : Nat) :
      readValue? (bound + 1) (limit - 1)
        (skipBlanks (' ' :: (Quoted.write text.toList ++ '\n' :: rest))) =
      some (.string text, '\n' :: rest) := by
    obtain ⟨c, ds, hwritten, hc⟩ := exists_write text.toList
    have hblank : Quoted.isBlank c = false := by
      rcases hc with rfl | rfl <;> decide
    have hskip : skipBlanks (' ' :: (Quoted.write text.toList ++ '\n' :: rest)) =
        Quoted.write text.toList ++ '\n' :: rest := by
      rw [hwritten]
      exact skipBlanks_cons hblank (ds ++ '\n' :: rest)
    rw [hskip]
    exact readValue?_write bound _ text (by simp) (by simp)
  obtain ⟨c, ds, hwritten, hc⟩ := exists_joined key []
  have hbracket : c ≠ '[' := fun h => hc (by simp [h])
  have hstart : entryText (key, .string text) ++ rest = c :: (ds ++
      ' ' :: '=' :: ' ' :: (Quoted.write text.toList ++ '\n' :: rest)) := by
    rw [hline, List.nil_append, hwritten, List.cons_append]
  rw [hstart] at hpath ⊢
  simp [read?, hbracket, hpath, hvalue, endingLine?, passLine?_newline]

/-! ### Documents -/

/-- A text that is read as statements, if the bound allows for as many steps as it is long. -/
def Reads (text : List Char) (statements : List Statement) : Prop :=
  ∀ bound, text.length < bound → readUpTo? bound text = some statements

/-- The empty text has no statements. -/
theorem reads_nil : Reads [] [] := by
  intro bound hbound
  obtain ⟨bound, rfl⟩ := Nat.exists_eq_add_one_of_ne_zero (Nat.ne_zero_of_lt hbound)
  rfl

variable {text rest : List Char} {statements : List Statement}

/-- An empty line is passed over. -/
theorem Reads.newline (h : Reads text statements) : Reads ('\n' :: text) statements := by
  intro bound hbound
  obtain ⟨bound, rfl⟩ := Nat.exists_eq_add_one_of_ne_zero (Nat.ne_zero_of_lt hbound)
  have hskip : skipBlanks ('\n' :: text) = '\n' :: text := skipBlanks_cons (by decide) _
  rw [readUpTo?, hskip]
  simp [passLine?_newline, h bound (Nat.lt_of_succ_lt_succ hbound)]

/-- A line is read before what follows. -/
theorem Reads.cons {c : Char} {statement : Statement}
    (hblank : Quoted.isBlank c = false) (hc : c ∉ ['#', '\n', '\r'])
    (hread : read? (c :: text) = some (statement, rest)) (hlength : rest.length ≤ text.length)
    (h : Reads rest statements) : Reads (c :: text) (statement :: statements) := by
  intro bound hbound
  obtain ⟨bound, rfl⟩ := Nat.exists_eq_add_one_of_ne_zero (Nat.ne_zero_of_lt hbound)
  simp only [List.mem_cons, List.not_mem_nil, or_false, not_or] at hc
  have hskip : skipBlanks (c :: text) = c :: text := skipBlanks_cons hblank _
  have hbound' : rest.length < bound := Nat.lt_of_le_of_lt hlength (Nat.lt_of_succ_lt_succ hbound)
  rw [readUpTo?, hskip]
  simp [hc, hread, h bound hbound']

/-- Lines for strings are read one after the other. -/
theorem Reads.body {entries : Table} (hstrings : ∀ entry ∈ entries, ∃ s, entry.2 = .string s)
    (h : Reads rest statements) :
    Reads (bodyText entries ++ rest)
      (entries.map (fun entry => .entry [] entry.1 entry.2) ++ statements) := by
  induction entries with
  | nil => exact h
  | cons entry entries ih =>
      obtain ⟨⟨s, hs⟩, hmore⟩ := List.forall_mem_cons.1 hstrings
      obtain ⟨key, value⟩ := entry
      obtain rfl : value = .string s := hs
      have hline : bodyText ((key, .string s) :: entries) ++ rest =
          entryText (key, .string s) ++ (bodyText entries ++ rest) := by
        simp [bodyText, entryText]
      obtain ⟨c, ds, hwritten, hc⟩ := Key.exists_write key.toList
      have hstart : entryText (key, .string s) ++ (bodyText entries ++ rest) =
          c :: (ds ++ (" = ".toList ++ (Value.string s).text ++ ['\n']) ++
            (bodyText entries ++ rest)) := by
        simp [entryText, keyText, hwritten]
      have hread := read?_entry key s (bodyText entries ++ rest)
      rw [hline, hstart]
      rw [hstart] at hread
      simp only [List.mem_cons, List.not_mem_nil, or_false, not_or] at hc
      refine Reads.cons (by simp [Quoted.isBlank, hc]) (by simp [hc]) hread ?_ (ih hmore)
      · simp only [List.length_append]
        omega

end Statement

/-! ### Sections -/

namespace Section

/-- The statements that a section is written for. -/
def statements (s : Section) : List Statement :=
  (match s.path.getLast? with
    | none => []
    | some key => [.openTable s.path.dropLast key]) ++
  s.entries.map fun entry => .entry [] entry.1 entry.2

/-- A section is **simple** if it is that of a table, with strings below a header that can be
read. -/
structure Simple (s : Section) : Prop where
  isElement : s.isElement = false
  length : s.path.length < Statement.limit
  strings : ∀ entry ∈ s.entries, ∃ text, entry.2 = .string text

end Section

open Statement

/-- **The text of simple sections is read as their statements.** -/
theorem reads_sectionsText {sections : List Section} (h : ∀ s ∈ sections, s.Simple)
    (first : Bool) :
    Reads (sectionsText first sections) (sections.flatMap Section.statements) := by
  induction sections generalizing first with
  | nil => exact reads_nil
  | cons s rest ih =>
      obtain ⟨⟨hisElement, hlength, hstrings⟩, hrest⟩ := List.forall_mem_cons.1 h
      rw [sectionsText, List.flatMap_cons]
      rcases List.eq_nil_or_concat s.path with hpath | ⟨parents, key, hpath⟩
      · rw [if_pos hpath]
        have hbody := (ih hrest s.entries.isEmpty).body hstrings
        simpa [Section.statements, hpath] using hbody
      · rw [List.concat_eq_append] at hpath
        have hne : s.path ≠ [] := by simp [hpath]
        rw [hpath, List.length_append] at hlength
        have hread := read?_header hlength key (bodyText s.entries ++ sectionsText false rest)
        have hbody := (ih hrest false).body hstrings
        have hheader := Reads.cons (by decide) (by decide) hread (by simp; omega) hbody
        have htext : headerText s ++ bodyText s.entries ++ sectionsText false rest =
            '[' :: (joined (parents ++ [key]) ++
              ']' :: '\n' :: (bodyText s.entries ++ sectionsText false rest)) := by
          simp [headerText, hisElement, joined, hpath]
        have hstatements : s.statements =
            .openTable parents key :: s.entries.map fun entry => .entry [] entry.1 entry.2 := by
          simp [Section.statements, hpath]
        rw [if_neg hne, List.append_assoc, List.append_assoc, ← List.append_assoc (headerText s),
          htext, hstatements]
        cases first with
        | true => exact hheader
        | false => exact hheader.newline

/-- The text of sections does not begin with a byte order mark. -/
theorem head?_sectionsText (first : Bool) (sections : List Section) :
    (sectionsText first sections).head? ≠ some '\ufeff' := by
  induction sections generalizing first with
  | nil => nofun
  | cons s rest ih =>
      rw [sectionsText]
      split
      · cases hentries : s.entries with
        | nil => exact ih true
        | cons entry entries =>
            obtain ⟨c, ds, hwritten, hc⟩ := Key.exists_write entry.1.toList
            simp only [List.mem_cons, List.not_mem_nil, or_false, not_or] at hc
            simp [bodyText, keyText, hwritten, hc]
      · cases first with
        | false => simp
        | true => cases hisElement : s.isElement <;> simp [headerText, hisElement]

/-- **The text of simple sections is read as their statements,** from its start. -/
theorem readAll?_sectionsText {sections : List Section} (h : ∀ s ∈ sections, s.Simple)
    (first : Bool) :
    readAll? (sectionsText first sections) = some (sections.flatMap Section.statements) := by
  have hhead := head?_sectionsText first sections
  have hreads := reads_sectionsText h first
  generalize sectionsText first sections = text at hhead hreads
  have hmark (rest : List Char) : text ≠ '\ufeff' :: rest := by
    rintro rfl
    exact hhead rfl
  have hsame : readAll? text = readUpTo? (text.length + 1) text := by
    rw [readAll?]
    exact hmark
  rw [hsame, hreads _ (Nat.lt_succ_self _)]

end ConfigGraft.Toml
