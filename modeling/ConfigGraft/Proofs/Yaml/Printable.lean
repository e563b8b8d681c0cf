import ConfigGraft.Proofs.Yaml.Row

/-!
# Written texts are printable

Whatever texts stand in an ordinary value, its written form consists of printable characters. So it
may be read, and is read from its first character on.

## Main results

* `isPrintable_scalarText` — a text is written with printable characters;
* `Value.isPrintable_blockBefore` — so is a value;
* `Token.readAll?_entriesBefore` — **a written document is cut into its tokens.**
-/

namespace ConfigGraft.Yaml

open Style Nested

/-! ### Scalars -/

section Scalars

variable {cs : List Char}

/-- Spaces are printable. -/
theorem isPrintable_spaces (n : Nat) : ∀ c ∈ spaces n, isPrintable c = true := by
  intro c hc
  rw [List.eq_of_mem_replicate hc]
  decide

/-- Between single quotes stands nothing but the text, blank lines and indents. -/
theorem isPrintable_singleText (h : ∀ c ∈ cs, isPrintable c = true) (indent : Nat) (broken : Bool) :
    ∀ c ∈ singleText indent broken cs, isPrintable c = true := by
  have hindent (broken : Bool) :
      ∀ c ∈ if broken then spaces indent else [], isPrintable c = true := by
    cases broken with
    | true => exact isPrintable_spaces indent
    | false => exact List.forall_mem_nil _
  induction cs generalizing broken with
  | nil => exact hindent broken
  | cons c cs ih =>
      obtain ⟨hc, hcs⟩ := List.forall_mem_cons.1 h
      rw [singleText]
      split
      · refine List.forall_mem_append.2 ⟨?_, ih hcs true⟩
        have hfeed : isPrintable '\n' = true := by decide
        split
        · exact List.forall_mem_cons.2 ⟨hfeed, List.forall_mem_singleton.2 hfeed⟩
        · exact List.forall_mem_singleton.2 hc
      split
      · exact List.forall_mem_cons.2 ⟨hc, ih hcs broken⟩
      · refine List.forall_mem_append.2
          ⟨List.forall_mem_append.2 ⟨hindent broken, ?_⟩, ih hcs false⟩
        split
        · exact List.forall_mem_cons.2 ⟨hc, List.forall_mem_singleton.2 hc⟩
        · exact List.forall_mem_singleton.2 hc

/-- Hexadecimal digits are printable. -/
theorem isPrintable_hexDigits (count n : Nat) : ∀ c ∈ hexDigits count n, isPrintable c = true := by
  have hdigit : ∀ n < 16, isPrintable (upperHexDigit n) = true := by decide
  induction count generalizing n with
  | zero => exact List.forall_mem_nil _
  | succ count ih =>
      exact List.forall_mem_append.2
        ⟨ih _, List.forall_mem_singleton.2 (hdigit _ (Nat.mod_lt _ (by decide)))⟩

/-- So is every escape. -/
theorem isPrintable_escapeText (c : Char) : ∀ d ∈ escapeText c, isPrintable d = true := by
  have hcode : ∀ d ∈ escapeCode c.toNat, isPrintable d = true := by
    rw [escapeCode]
    split
    · exact List.forall_mem_cons.2 ⟨by decide, isPrintable_hexDigits 2 _⟩
    split
    · exact List.forall_mem_cons.2 ⟨by decide, isPrintable_hexDigits 4 _⟩
    · exact List.forall_mem_cons.2 ⟨by decide, isPrintable_hexDigits 8 _⟩
  have hletter {p : Prop} [Decidable p] {l : Char} {otherwise : List Char}
      (hl : p → isPrintable l = true) (hother : ∀ d ∈ otherwise, isPrintable d = true) :
      ∀ d ∈ if p then [l] else otherwise, isPrintable d = true := by
    split
    · exact List.forall_mem_singleton.2 (hl ‹_›)
    · exact hother
  rw [escapeText]
  repeat refine hletter (by rintro (rfl | rfl) <;> decide) ?_
  exact hcode

/-- So is what is written for a character between double quotes, be it printable or not. -/
theorem isPrintable_doubleChar (c : Char) : ∀ d ∈ doubleChar c, isPrintable d = true := by
  rw [doubleChar]
  split
  · exact List.forall_mem_cons.2 ⟨by decide, isPrintable_escapeText c⟩
  · rename_i hplain
    simp only [Bool.or_eq_true, not_or, Bool.not_eq_true, Bool.not_eq_false'] at hplain
    exact List.forall_mem_singleton.2 hplain.1.1.1

/-- A literal block adds indents only. -/
theorem isPrintable_literalText (h : ∀ c ∈ cs, isPrintable c = true) (indent : Nat)
    (broken : Bool) :
    ∀ c ∈ literalText indent broken cs, isPrintable c = true := by
  induction cs generalizing broken with
  | nil => exact List.forall_mem_nil _
  | cons c cs ih =>
      obtain ⟨hc, hcs⟩ := List.forall_mem_cons.1 h
      rw [literalText]
      split
      · exact List.forall_mem_cons.2 ⟨hc, ih hcs true⟩
      · refine List.forall_mem_append.2 ⟨?_, List.forall_mem_cons.2 ⟨hc, ih hcs false⟩⟩
        cases broken with
        | true => exact isPrintable_spaces indent
        | false => exact List.forall_mem_nil _

/-- **A text is written with printable characters.** -/
theorem isPrintable_scalarText (indent : Nat) (cs : List Char) :
    ∀ c ∈ scalarText indent cs (Style.ofText false cs), isPrintable c = true := by
  have hfits := fits_ofText cs
  generalize Style.ofText false cs = style at hfits ⊢
  cases hfits with
  | plain hplain => exact fun c hc => ((Plain.of_plainAllowed hplain).2.2.2.1 c hc).1
  | single hsingle =>
      have hquote : isPrintable '\x27' = true := by decide
      refine List.forall_mem_cons.2 ⟨hquote, List.forall_mem_append.2 ⟨?_, ?_⟩⟩
      · exact isPrintable_singleText (Quoted.of_singleAllowed hsingle).1 indent false
      · exact List.forall_mem_singleton.2 hquote
  | double =>
      have hquote : isPrintable '"' = true := by decide
      refine List.forall_mem_cons.2 ⟨hquote, List.forall_mem_append.2 ⟨fun d hd => ?_, ?_⟩⟩
      · obtain ⟨c, -, hc⟩ := List.mem_flatMap.1 hd
        exact isPrintable_doubleChar c d hc
      · exact List.forall_mem_singleton.2 hquote
  | literal hprintable =>
      have hheader : ∀ c ∈ literalHeader cs, isPrintable c = true := by
        rw [Block.literalHeader_eq]
        refine List.all_eq_true.1 ?_
        cases Block.beginsBlank cs <;> cases Block.chompOf cs <;> decide
      rw [scalarText]
      exact List.forall_mem_append.2 ⟨hheader, List.forall_mem_cons.2
        ⟨by decide, isPrintable_literalText hprintable indent true⟩⟩

end Scalars

/-! ### Values -/

namespace Value

/-- Whether a value is written with printable characters, where such characters are behind it. -/
def Printable (v : Value) : Prop :=
  ∀ (place : Place) (indent : Nat) {rest : List Char}, (∀ c ∈ rest, isPrintable c = true) →
    ∀ c ∈ blockBefore place false indent v rest, isPrintable c = true

/-- What stands before a value is a space, or a line feed and an indent. -/
theorem isPrintable_lead (sameLine : Bool) (indent : Nat) :
    ∀ c ∈ lead sameLine indent, isPrintable c = true := by
  rw [lead]
  split
  · exact List.forall_mem_singleton.2 (by decide)
  · exact List.forall_mem_cons.2 ⟨by decide, isPrintable_spaces _⟩

/-- A text on a line of its own stays printable there. -/
theorem isPrintable_line {text rest : List Char} (htext : ∀ c ∈ text, isPrintable c = true)
    (hrest : ∀ c ∈ rest, isPrintable c = true) :
    ∀ c ∈ ' ' :: (endLine text ++ rest), isPrintable c = true :=
  List.forall_mem_cons.2 ⟨by decide, List.forall_mem_append.2
    ⟨Block.isPrintable_of_mem_endLine htext, hrest⟩⟩

/-- A text is written in printable characters, those that are not being escaped. -/
theorem printable_string (s : String) : Printable (.string s) := by
  intro place indent rest hrest
  rw [blockBefore_eq (.string s)]
  exact isPrintable_line (isPrintable_scalarText _ _) hrest

/-- So is a truth value. -/
theorem printable_bool (b : Bool) : Printable (.bool b) := by
  intro place indent rest hrest
  rw [blockBefore_eq (.bool b)]
  have htext : (boolText b).all isPrintable = true := by cases b <;> decide
  exact isPrintable_line (List.all_eq_true.1 htext) hrest

/-- So are items if each of them is. -/
theorem isPrintable_itemsBefore {items : List Value} (h : ∀ item ∈ items, Printable item)
    {lead rest : List Char} (indent : Nat) (hlead : ∀ c ∈ lead, isPrintable c = true)
    (hrest : ∀ c ∈ rest, isPrintable c = true) :
    ∀ c ∈ itemsBefore lead indent items rest, isPrintable c = true := by
  induction items generalizing lead with
  | nil => rwa [itemsBefore]
  | cons item more ih =>
      obtain ⟨hitem, hmore⟩ := List.forall_mem_cons.1 h
      rw [itemsBefore]
      exact List.forall_mem_append.2 ⟨hlead, List.forall_mem_cons.2
        ⟨by decide, hitem _ _ (ih hmore (isPrintable_spaces indent))⟩⟩

/-- So is an entry if its value is. -/
theorem isPrintable_entryText (indent : Nat) (key : String) {v : Value} (hv : Printable v)
    {rest : List Char} (hrest : ∀ c ∈ rest, isPrintable c = true) :
    ∀ c ∈ entryText indent (.string key) v rest, isPrintable c = true := by
  have hcolon : isPrintable ':' = true := by decide
  rw [entryText]
  split
  · rw [lineText_key ‹_›]
    exact List.forall_mem_append.2
      ⟨isPrintable_scalarText _ _, List.forall_mem_cons.2 ⟨hcolon, hv _ _ hrest⟩⟩
  · refine List.forall_mem_cons.2 ⟨by decide, printable_string _ _ _ ?_⟩
    exact List.forall_mem_append.2
      ⟨isPrintable_spaces _, List.forall_mem_cons.2 ⟨hcolon, hv _ _ hrest⟩⟩

/-- So are entries if each of their values is. -/
theorem isPrintable_entriesBefore {entries : Mapping} (hnamed : Named entries)
    (h : ∀ entry ∈ entries, Printable entry.2) {lead rest : List Char} (indent : Nat)
    (hlead : ∀ c ∈ lead, isPrintable c = true) (hrest : ∀ c ∈ rest, isPrintable c = true) :
    ∀ c ∈ entriesBefore lead indent entries rest, isPrintable c = true := by
  induction hnamed generalizing lead with
  | nil => rwa [entriesBefore]
  | cons _ _ ih =>
      obtain ⟨hvalue, hmore⟩ := List.forall_mem_cons.1 h
      rw [entriesBefore_cons]
      exact List.forall_mem_append.2 ⟨hlead, isPrintable_entryText _ _ hvalue
        (ih hmore (isPrintable_spaces indent))⟩

/-- **An ordinary value is written with printable characters.** -/
theorem isPrintable_blockBefore {v : Value} (h : v.Ordinary) : Printable v := by
  induction h with
  | string s => exact printable_string s
  | bool b => exact printable_bool b
  | @sequence items hitems ih =>
      intro place indent rest hrest
      have hempty : " []\n".toList.all isPrintable = true := by decide
      rw [blockBefore]
      split
      · exact List.forall_mem_append.2 ⟨List.all_eq_true.1 hempty, hrest⟩
      · exact isPrintable_itemsBefore ih _ (isPrintable_lead _ _) hrest
  | @mapping entries hnamed hvalues ih =>
      intro place indent rest hrest
      have hempty : " \x7b\x7d\n".toList.all isPrintable = true := by decide
      rw [blockBefore]
      split
      · exact List.forall_mem_append.2 ⟨List.all_eq_true.1 hempty, hrest⟩
      · exact isPrintable_entriesBefore hnamed ih _ (isPrintable_lead _ _) hrest

end Value

/-! ### Tokens -/

/-- **A written document is cut into its tokens.** -/
theorem Token.readAll?_entriesBefore {entries : Mapping} (hnamed : Named entries)
    (hvalues : ∀ entry ∈ entries, entry.2.Ordinary) (hne : entries ≠ []) :
    Token.readAll? (Value.entriesBefore [] 0 entries []) =
      some ((Value.mapping entries).tokens false) := by
  have hprintable := Value.isPrintable_entriesBefore hnamed
    (fun entry hentry => Value.isPrintable_blockBefore (hvalues entry hentry)) 0
    (List.forall_mem_nil _) (List.forall_mem_nil _)
  have hallowed : (Value.entriesBefore [] 0 entries []).all isAllowed = true :=
    List.all_eq_true.2 fun c hc => isAllowed_of_isPrintable (hprintable c hc)
  rw [Token.readAll?, if_pos hallowed]
  simp only [oneBreak_eq_self hprintable, Token.start_eq hprintable]
  have hopens : Lexer.Opens .openBlockMapping 0 [] [] [.openBlockMapping] [] :=
    .first fun inner hinner => by cases hinner
  have hcuts : Lexer.CutsEntries entries := Lexer.cutsEntries_of_named hnamed hvalues
    (fun entry hentry => Lexer.cuts_of_ordinary (hvalues entry hentry)) hne
  obtain ⟨line, hsteps⟩ := hcuts 0 hopens (Nat.le_refl 0) resumes_nil
  rw [Lexer.closeBlocksTo_innermost (Nat.le_refl 0)] at hsteps
  have hread := (Lexer.reads_end rfl rfl).of_steps hsteps
  have hstart : Lexer.settle? (Lexer.row [] [] ⟨Value.entriesBefore [] 0 entries [], 0, 0⟩) =
      some (Lexer.row [] [] ⟨Value.entriesBefore [] 0 entries [], 0, 0⟩) :=
    Lexer.settle?_eq
      (Lexer.passGap_resumes (Value.resumes_entriesBefore hnamed hne 0 [])) rfl
  have htokens : (Value.mapping entries).tokens false = (.closeBlock ::
      ((Value.entriesTokens entries).reverse ++ [.openBlockMapping])).reverse := by
    have hempty : entries.isEmpty = false := List.isEmpty_eq_false_iff.2 hne
    simp [Value.tokens, hempty]
  rw [htokens]
  exact hread _ _ (Nat.lt_succ_self _) hstart

end ConfigGraft.Yaml
