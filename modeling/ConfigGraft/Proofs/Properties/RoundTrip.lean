import ConfigGraft.Document
import ConfigGraft.Proofs.Properties.Escapes

/-!
# Properties survive being written and read

A table of properties is written one entry a line. Each of these lines is a logical line by itself
that says something, it is cut where the key ends, and both parts read back; so the reader puts the
same keys and values into a table that the writer took out of one. Since only printable ASCII and
line feeds are written, it makes no difference that bytes are written as UTF-8 and read one byte a
character.

## Main results

* `Properties.parse_render` — the text of a table reads back as the table;
* `Properties.decode_toUTF8` — ASCII text is the same in both encodings;
* `Properties.render_reads_back` — **a table survives the way through a file.**
-/

namespace ConfigGraft.Properties

/-- An entry on its line, without the break behind it. -/
def entryLine (e : String × String) : List Char :=
  escapeKey e.1.toList ++ '=' :: escapeValue e.2.toList

/-- A written line is printable. -/
theorem entryLine_printable (e : String × String) :
    ∀ d ∈ entryLine e, ' ' ≤ d ∧ d ≤ '~' := by
  intro d hd
  rcases List.mem_append.1 hd with hd | hd
  · exact (writtenText_escapeKey _).printable d hd
  · rcases List.mem_cons.1 hd with rfl | hd
    · decide
    · exact (writtenText_escapeValue _).printable d hd

/-- The text of a table consists of printable ASCII and line feeds. -/
theorem render_printable (table : Properties) :
    ∀ d ∈ table.render, d = '\n' ∨ (' ' ≤ d ∧ d ≤ '~') := by
  intro d hd
  obtain ⟨e, -, hd⟩ := List.mem_flatMap.1 hd
  have hline : writeEntry e = entryLine e ++ ['\n'] := by simp [writeEntry, entryLine]
  rw [hline] at hd
  rcases List.mem_append.1 hd with hd | hd
  · exact Or.inr (entryLine_printable e d hd)
  · exact Or.inl (List.mem_singleton.1 hd)

/-! ### Lines -/

/-- The lines of written entries are one line an entry. -/
theorem lines_flatMap_writeEntry (es : List (String × String)) :
    Text.lines (es.flatMap writeEntry) = es.map entryLine := by
  induction es with
  | nil => rfl
  | cons e es ih =>
      have hfeed : '\n' ∉ entryLine e := fun h =>
        absurd (entryLine_printable e _ h).1 (by decide)
      have hreturn : '\r' ∉ entryLine e := fun h =>
        absurd (entryLine_printable e _ h).1 (by decide)
      have hwrite : writeEntry e ++ es.flatMap writeEntry =
          entryLine e ++ '\n' :: es.flatMap writeEntry := by
        simp [writeEntry, entryLine]
      rw [List.flatMap_cons, hwrite, Text.lines_append hfeed hreturn, ih, List.map_cons]

/-- A written entry begins with what is neither a blank nor the sign of a comment. -/
theorem entryLine_head (e : String × String) :
    ∃ d rest, entryLine e = d :: rest ∧ d ≠ '#' ∧ d ≠ '!' ∧ isBlank d = false := by
  rw [entryLine]
  cases e.1.toList with
  | nil => exact ⟨_, _, rfl, by decide, by decide, by decide⟩
  | cons c key =>
      obtain ⟨d, rest, hw, hhash, hbang, hblank⟩ := (written_escapeChar true c).head
      rw [escapeKey, List.flatMap_cons, hw]
      exact ⟨d, _, rfl, hhash, hbang, hblank rfl⟩

/-- A written entry asks for no further line. -/
theorem continues_entryLine (e : String × String) : continues (entryLine e) = false := by
  have hkey : continues (escapeKey e.1.toList ++ ['=']) = false := continues_concat (by decide)
  have hvalue := (writtenText_escapeValue e.2.toList).continues_append hkey
  rwa [List.append_assoc] at hvalue

/-- A line that does not go on is joined with nothing. -/
theorem joinLines_of_not_continues {line : List Char} (h : continues line = false)
    (rest : List (List Char × Nat)) : joinLines line rest = (line, rest) := by
  cases rest <;> simp [joinLines, h]

/-- Written entries are logical lines as they are. -/
theorem logicalLines_entryLine (es : List (String × String)) (n : Nat) :
    logicalLines ((es.map entryLine).zipIdx n) = (es.map entryLine).zipIdx n := by
  induction es generalizing n with
  | nil => rw [List.map_nil, List.zipIdx_nil, logicalLines]
  | cons e es ih =>
      obtain ⟨d, rest, hline, hhash, hbang, hblank⟩ := entryLine_head e
      have hdrop : (entryLine e).dropWhile isBlank = entryLine e := by
        rw [hline, List.dropWhile_cons, hblank]; rfl
      have hsilent : isSilent (entryLine e) = false := by
        rw [hline]; simp [isSilent, hhash, hbang]
      rw [List.map_cons, List.zipIdx_cons, logicalLines, hdrop, hsilent,
        joinLines_of_not_continues (continues_entryLine e), ih]
      rfl

/-! ### Tables -/

/-- A written entry reads back. -/
theorem readEntry_entryLine (e : String × String) : readEntry (entryLine e) = .ok e := by
  have hvalue : valuePart ('=' :: escapeValue e.2.toList) = escapeValue e.2.toList := by
    rw [valuePart, if_pos (by decide), dropWhile_escapeValue]
  rw [readEntry, entryLine, cutKey_escapeKey]
  simp only [hvalue, (writtenText_escapeKey _).unescape, (writtenText_escapeValue _).unescape,
    String.ofList_toList]

/-- Reading written entries adds them to a table. -/
theorem readEntries_entryLine (table : Properties) (es : List (String × String)) (n : Nat) :
    readEntries table ((es.map entryLine).zipIdx n) =
      .ok (es.foldl (fun t e => t.insert e.1 e.2) table) := by
  induction es generalizing table n with
  | nil => rfl
  | cons e es ih =>
      rw [List.map_cons, List.zipIdx_cons, readEntries, readEntry_entryLine]
      exact ih (table.insert e.1 e.2) (n + 1)

/-- A key behind all others is put at the end. -/
theorem insertEntry_of_forall_lt {key value : String} {es : List (String × String)}
    (h : ∀ e ∈ es, e.1 < key) : insertEntry key value es = es ++ [(key, value)] := by
  induction es with
  | nil => rfl
  | cons e es ih =>
      have hlt := h e List.mem_cons_self
      rw [insertEntry, if_neg (fun hgt => String.lt_irrefl _ (String.lt_trans hlt hgt)),
        if_neg (fun heq => String.lt_irrefl _ (heq ▸ hlt)),
        ih (fun f hf => h f (List.mem_cons_of_mem _ hf)), List.cons_append]

/-- Entries that come in order are put one behind the other. -/
theorem entries_foldl_insert (table : Properties) (es : List (String × String))
    (h : ((table.entries ++ es).map Prod.fst).Pairwise (· < ·)) :
    (es.foldl (fun t e => t.insert e.1 e.2) table).entries = table.entries ++ es := by
  induction es generalizing table with
  | nil => rw [List.append_nil]; rfl
  | cons e es ih =>
      have hlt : ∀ f ∈ table.entries, f.1 < e.1 := by
        rw [List.map_append, List.pairwise_append] at h
        exact fun f hf => h.2.2 f.1 (List.mem_map_of_mem hf) e.1 (by simp)
      have hput : (table.insert e.1 e.2).entries = table.entries ++ [e] :=
        insertEntry_of_forall_lt hlt
      rw [List.foldl_cons, ih (table.insert e.1 e.2), hput, List.append_assoc,
        List.singleton_append]
      rwa [hput, List.append_assoc, List.singleton_append]

/-- **The text of a table reads back as the table.** -/
theorem parse_render (table : Properties) : parse table.render = .ok table := by
  rw [parse, render, lines_flatMap_writeEntry, logicalLines_entryLine, readEntries_entryLine]
  congr 1
  exact ext_entries (entries_foldl_insert empty table.entries table.sorted)

/-! ### Bytes -/

/-- An ASCII character is one byte, and the byte stands for the character. -/
theorem utf8EncodeChar_ascii {c : Char} (h : c ≤ '~') :
    ∃ b : UInt8, String.utf8EncodeChar c = [b] ∧ Char.ofNat b.toNat = c := by
  have hval : c.val.toNat ≤ 126 := UInt32.le_iff_toNat_le.1 h
  have hsize : c.utf8Size = 1 := by
    rw [Char.utf8Size_eq_one_iff, UInt32.le_iff_toNat_le]
    exact Nat.le_trans hval (by decide)
  refine ⟨c.val.toUInt8, String.utf8EncodeChar_eq_singleton hsize, ?_⟩
  rw [UInt32.toNat_toUInt8, Nat.mod_eq_of_lt (by omega)]
  exact Char.ofNat_toNat c

/-- ASCII text that is stored in UTF-8 is the same when it is read one byte a character. -/
theorem decode_toUTF8 {cs : List Char} (h : ∀ c ∈ cs, c ≤ '~') :
    decode (String.ofList cs).toUTF8 = String.ofList cs := by
  rw [decode, String.toUTF8_eq_toByteArray, String.toByteArray_ofList, List.utf8Encode,
    List.toList_data_toByteArray]
  congr 1
  induction cs with
  | nil => rfl
  | cons c cs ih =>
      obtain ⟨b, hencode, hb⟩ := utf8EncodeChar_ascii (h c List.mem_cons_self)
      rw [List.flatMap_cons, hencode, List.map_append,
        ih fun d hd => h d (List.mem_cons_of_mem c hd),
        List.map_singleton, hb, List.singleton_append]

/-- Every character of a written table is ASCII. -/
theorem render_ascii (table : Properties) : ∀ c ∈ table.render, c ≤ '~' := by
  intro c hc
  rcases render_printable table c hc with rfl | ⟨-, hhigh⟩
  · decide
  · exact hhigh

/-- **A table survives the way through a file:** its text is printable ASCII and line feeds, and
reading the bytes of the text one byte a character gives the table back. -/
theorem render_reads_back (table : Properties) :
    ∃ text, (Document.properties table).render? = some text ∧
      (∀ c ∈ text.toList, c = '\n' ∨ (' ' ≤ c ∧ c ≤ '~')) ∧
      Document.parse .properties (decode text.toUTF8) = .ok (.properties table) := by
  refine ⟨String.ofList table.render, rfl, ?_, ?_⟩
  · rw [String.toList_ofList]
    exact render_printable table
  · rw [decode_toUTF8 (render_ascii table), Document.parse, Document.parseProperties,
      String.toList_ofList, parse_render]
    rfl

end ConfigGraft.Properties
