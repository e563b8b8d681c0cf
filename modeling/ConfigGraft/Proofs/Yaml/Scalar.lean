import ConfigGraft.Proofs.Yaml.Lexer
import ConfigGraft.Proofs.Yaml.Literal
import ConfigGraft.Proofs.Yaml.Plain

/-!
# Scalars are cut off as they were written

In the style that was chosen for it, a text is cut off as one token, behind which nothing is left of
it. It stands either behind the sign before a value, to the end of its last line, or before the
colon behind a short key. In the first case lines follow that are not indented further than the
mapping; in the second one the place stays on the line, near enough for the key still to be
possible.

## Main results

* `Style.fits_ofText` — what is known of a text in the style that was chosen for it;
* `Lexer.step_plain`, `Lexer.step_value` — a text is cut off behind a sign;
* `Lexer.step_key` — a short key is cut off before its colon.
-/

namespace ConfigGraft.Yaml

open Style Quoted

namespace Style

/-- What is known of a text that is written in a style. -/
inductive Fits (cs : List Char) : Style → Prop
  | plain : plainAllowed cs = true → cs ≠ [] → looksOther cs = false → Fits cs .plain
  | single : singleAllowed cs = true → '\n' ∉ cs → Fits cs .single
  | double : Fits cs .double
  | literal : (∀ c ∈ cs, isPrintable c = true) → '\n' ∈ cs → Fits cs .literal

/-- **A text fits the style that is chosen for it.** -/
theorem fits_ofText (cs : List Char) : Fits cs (ofText false cs) := by
  rw [ofText, wanted]
  by_cases hfeed : '\n' ∈ cs
  · rw [if_pos (List.contains_iff_mem.2 hfeed), allowed, Bool.false_and, if_neg Bool.false_ne_true]
    split
    · rename_i hliteral
      rw [literalAllowed, Bool.and_eq_true, Bool.and_eq_true, List.all_eq_true] at hliteral
      exact .literal hliteral.1.1 hfeed
    · exact .double
  rw [if_neg (mt List.contains_iff_mem.1 hfeed)]
  have hquotes : Fits cs (if singleAllowed cs then .single else .double) := by
    split
    · exact .single ‹_› hfeed
    · exact .double
  cases hother : looksOther cs with
  | true => exact hquotes
  | false =>
      have hne : cs ≠ [] := by
        rintro rfl
        cases hother
      simp only [Bool.false_eq_true, if_false, allowed, Bool.false_and]
      split
      · exact .plain ‹_› hne hother
      · exact hquotes

/-- A text on one line has no line feed in it. -/
theorem feed_not_mem {cs : List Char} (h : cs.any endsLine = false) : '\n' ∉ cs := fun hmem =>
  List.any_eq_false.1 h _ hmem (by decide)

/-- On one line a key is written like any other text. -/
theorem ofText_eq (isKey : Bool) {cs : List Char} (h : cs.any endsLine = false) :
    ofText isKey cs = ofText false cs := by
  simp [ofText, allowed, h]

end Style

/-! ### How long a key is -/

/-- An escape is at most four times as long as the bytes of its character. -/
theorem length_escapeText_le (c : Char) : (escapeText c).length + 1 ≤ 4 * c.utf8Size := by
  have hpositive : 1 ≤ c.utf8Size := Char.utf8Size_pos c
  have hcode : (escapeCode c.toNat).length + 1 ≤ 4 * c.utf8Size := by
    have hval : c.toNat = c.val.toNat := rfl
    rw [escapeCode]
    split
    · rw [List.length_cons, length_hexDigits]
      omega
    · have htwo : 2 ≤ c.utf8Size := by
        unfold Char.utf8Size
        simp only [UInt32.le_iff_toNat_le]
        grind
      split
      · rw [List.length_cons, length_hexDigits]
        omega
      · have hthree : 3 ≤ c.utf8Size := by
          unfold Char.utf8Size
          simp only [UInt32.le_iff_toNat_le]
          grind
        rw [List.length_cons, length_hexDigits]
        omega
  have hletter {p : Prop} [Decidable p] {l : Char} {otherwise : List Char}
      (hother : otherwise.length + 1 ≤ 4 * c.utf8Size) :
      (if p then [l] else otherwise).length + 1 ≤ 4 * c.utf8Size := by
    split
    · rw [List.length_singleton]
      omega
    · exact hother
  rw [escapeText]
  repeat refine hletter ?_
  exact hcode

/-- An escape takes four columns at most for each byte of its character. -/
theorem length_doubleChar_le (c : Char) : (doubleChar c).length ≤ 4 * c.utf8Size := by
  have hpositive : 1 ≤ c.utf8Size := Char.utf8Size_pos c
  rw [doubleChar]
  split
  · exact length_escapeText_le c
  · rw [List.length_singleton]
    omega

/-- So is a text between double quotes. -/
theorem length_doubleText_le (cs : List Char) :
    (cs.flatMap doubleChar).length ≤ 4 * (String.ofList cs).utf8ByteSize := by
  induction cs with
  | nil => exact Nat.zero_le _
  | cons c cs ih =>
      have hc := length_doubleChar_le c
      rw [String.ofList_cons, String.utf8ByteSize_append, String.utf8ByteSize_singleton,
        List.flatMap_cons, List.length_append]
      omega

/-- A text has at least as many bytes as characters. -/
theorem length_le_utf8ByteSize (cs : List Char) :
    cs.length ≤ (String.ofList cs).utf8ByteSize := by
  induction cs with
  | nil => exact Nat.zero_le _
  | cons c cs ih =>
      have hpositive : 1 ≤ c.utf8Size := Char.utf8Size_pos c
      rw [String.ofList_cons, String.utf8ByteSize_append, String.utf8ByteSize_singleton,
        List.length_cons]
      omega

/-- Between single quotes, a text on one line gets at most twice as long. -/
theorem length_singleText_le (indent : Nat) {cs : List Char} (h : cs.any endsLine = false) :
    (singleText indent false cs).length ≤ 2 * cs.length := by
  induction cs with
  | nil => exact Nat.zero_le _
  | cons c cs ih =>
      rw [List.any_cons, Bool.or_eq_false_iff] at h
      have hmore := ih h.2
      rw [singleText, if_neg (by simp [h.1])]
      split
      · rw [List.length_cons, List.length_cons]
        omega
      · rw [if_neg Bool.false_ne_true]
        split <;> simp <;> omega

/-- The quotes add two characters. -/
theorem length_quoted (quote : Char) (text : List Char) :
    (quote :: (text ++ [quote])).length = text.length + 2 := by
  rw [List.length_cons, List.length_append, List.length_singleton]

/-- **A short key is not too long to be seen as a key,** in whatever style it is written. -/
theorem length_key_le {s : String} (h : (Value.string s).isShortKey = true) (indent : Nat) :
    s.toList.any endsLine = false ∧
      (scalarText indent s.toList (Style.ofText false s.toList)).length ≤ 1024 := by
  rw [Value.isShortKey, Value.keySize?] at h
  cases hbreaks : s.toList.any endsLine with
  | true => simp [hbreaks] at h
  | false =>
      refine ⟨rfl, ?_⟩
      have hsize : (String.ofList s.toList).utf8ByteSize ≤ 128 := by
        simpa [hbreaks] using h
      have hcount := length_le_utf8ByteSize s.toList
      have hfits := fits_ofText s.toList
      generalize Style.ofText false s.toList = style at hfits ⊢
      cases hfits with
      | plain =>
          rw [scalarText]
          omega
      | single =>
          have hlength := length_singleText_le indent hbreaks
          rw [scalarText, length_quoted]
          omega
      | double =>
          have hlength := length_doubleText_le s.toList
          rw [scalarText, length_quoted]
          omega
      | literal _ hfeed => exact absurd hfeed (feed_not_mem hbreaks)

/-! ### Tokens -/

/-- The token of a text. -/
def Token.ofText (cs : List Char) : Token := .scalar (Style.ofText false cs == .plain) cs

namespace Lexer

variable {tokens : List Token} {columns : List Nat} {spot : Spot} {allowed : Bool}
  {line column indent : Nat} {cs rest tail next : List Char} {c : Char}

/-! ### Where a scalar begins -/

/-- A text that does not begin like a mark between documents is none, whatever is behind it. -/
theorem isDocumentMark_append (h : startsLikeMark cs = false) (hdash : c ≠ '-') (hdot : c ≠ '.') :
    isDocumentMark (cs ++ c :: tail) = false := by
  unfold isDocumentMark
  split
  · rename_i htext
    rcases cs with _ | ⟨a, _ | ⟨b, _ | ⟨d, cs⟩⟩⟩ <;> simp_all [startsLikeMark]
  · rename_i htext
    rcases cs with _ | ⟨a, _ | ⟨b, _ | ⟨d, cs⟩⟩⟩ <;> simp_all [startsLikeMark]
  · rfl

/-- A character that is no sign of its own begins a plain scalar, if no gap follows where one would
make it a sign. -/
theorem startsPlain_of_atGap (hblank : isBlank c = false) (hsign : isIndicator c = false)
    (hgap : c = '?' ∨ c = ':' ∨ c = '-' → atGap rest = false) :
    startsPlain false c rest = true := by
  rw [startsPlain]
  split
  · have hnogap := hgap (.inr (.inr (beq_iff_eq.1 ‹_›)))
    cases rest with
    | nil => cases hnogap
    | cons d rest =>
        rw [atGap, Bool.or_eq_false_iff] at hnogap
        simp [hnogap.1]
  split
  · have hmark := ‹(c == '?' || c == ':') = true›
    rw [Bool.or_eq_true, beq_iff_eq, beq_iff_eq] at hmark
    have hnogap := hgap (hmark.elim .inl (.inr ∘ .inl))
    simp [hnogap]
  · simp [hblank, hsign]

/-- The first character of a plain text begins a plain scalar. -/
theorem token?_plain {lx : Lexer} (hflow : lx.inFlow = false)
    (hplain : plainAllowed (c :: cs) = true) {d : Char} (hdash : d ≠ '-') (hdot : d ≠ '.') :
    lx.token? c (cs ++ d :: tail) = lx.plainScalar? := by
  obtain ⟨hmark, hlead, -⟩ := Plain.of_plainAllowed hplain
  have hdocument : isDocumentMark (c :: (cs ++ d :: tail)) = false :=
    isDocumentMark_append hmark hdash hdot
  rw [leadingSign, Bool.or_eq_false_iff] at hlead
  obtain ⟨hsign, hgap⟩ := hlead
  have hblank : isBlank c = false := (Plain.not_gap_of_plainAllowed hplain).1
  have hnogap : c = '?' ∨ c = ':' ∨ c = '-' → atGap (cs ++ d :: tail) = false := by
    intro hc
    refine atGap_append ?_ _
    rcases hc with rfl | rfl | rfl <;> simpa using hgap
  have hnot (e : Char) (he : e = '?' ∨ e = ':' ∨ e = '-') :
      ¬ (c = e ∧ atGap (cs ++ d :: tail) = true) := by
    rintro ⟨rfl, htrue⟩
    rw [hnogap he] at htrue
    cases htrue
  simp [isLeadingSign] at hsign
  have hstarts : startsPlain false c (cs ++ d :: tail) = true :=
    startsPlain_of_atGap hblank (by simp [isIndicator, hsign]) hnogap
  simp [token?, hdocument, hsign, hflow, hnot, hstarts]

/-! ### Scalars in each style -/

/-- A plain scalar is cut off. `crossed` says that it ended on another line. -/
theorem token?_plainScalar {d : Char} {spot' : Spot} {crossed : Bool}
    (hplain : plainAllowed (c :: cs) = true) (hdash : d ≠ '-') (hdot : d ≠ '.')
    (hread : Plain.read? false (row tokens columns spot allowed).floor spot.rest spot.line
      spot.column {} = some (c :: cs, spot', crossed)) :
    (row tokens columns spot allowed).token? c (cs ++ d :: tail) =
      some (row (.scalar true (c :: cs) :: tokens) columns spot' crossed
        (noted tokens columns spot allowed)) := by
  rw [token?_plain rfl hplain hdash hdot, plainScalar?, noteKey?_row]
  exact congrArg (fun read => Option.bind read _) hread

/-- Skipping a character moves the spot by one column. -/
theorem skip_row {pending : Option PendingKey} (hrest : spot.rest = c :: rest) :
    (row tokens columns spot allowed pending).skip 1 =
      row tokens columns ⟨rest, spot.line, spot.column + 1⟩ allowed pending := by
  rw [skip, row_spot, hrest]
  rfl

/-- A quoted scalar is cut off. -/
theorem quotedScalar?_row {read? : List Char → Nat → Nat → Option (List Char × Spot)} {spot' : Spot}
    (hrest : spot.rest = c :: rest)
    (hread : read? rest spot.line (spot.column + 1) = some (cs, spot')) :
    (row tokens columns spot allowed).quotedScalar? read? =
      some (row (.scalar false cs :: tokens) columns spot' false
        (noted tokens columns spot allowed)) := by
  rw [quotedScalar?, noteKey?_row]
  simp only [Option.bind_eq_bind, Option.bind_some, skip_row hrest, row_spot, hread]
  rfl

/-- A single quote begins a text between single quotes. -/
theorem token?_single {lx : Lexer} :
    lx.token? '\x27' rest =
      lx.quotedScalar? fun cs line column => Quoted.readSingle? cs line column (.text {}) := by
  simp [token?, isDocumentMark]

/-- A double quote begins one between double quotes. -/
theorem token?_double {lx : Lexer} :
    lx.token? '"' rest =
      lx.quotedScalar? fun cs line column => Quoted.readDouble? cs line column (.text {}) := by
  simp [token?, isDocumentMark]

/-- A bar begins a literal block, outside brackets. -/
theorem token?_literal {lx : Lexer} (hflow : lx.inFlow = false) :
    lx.token? '|' rest = lx.blockScalar? false := by
  simp [token?, isDocumentMark, hflow]

/-- A literal block is cut off. -/
theorem blockScalar?_row {spot' : Spot} (hrest : spot.rest = c :: rest)
    (hread : Block.read? false (row tokens columns spot allowed).floor
      ⟨rest, spot.line, spot.column + 1⟩ = some (cs, spot')) :
    (row tokens columns spot allowed).blockScalar? false =
      some (row (.scalar false cs :: tokens) columns spot') := by
  have hdrop : (row tokens columns spot allowed).dropKey? =
      some (row tokens columns spot allowed) := rfl
  rw [blockScalar?, hdrop]
  simp only [Option.bind_eq_bind, Option.bind_some, skip_row hrest, row_spot, hread]
  rfl

/-! ### Behind a sign -/

/-- A text on one line has its line ended by a line feed. -/
theorem endLine_of_forall (h : ∀ c ∈ cs, endsLine c = false) : Value.endLine cs = cs ++ ['\n'] := by
  rcases List.eq_nil_or_concat cs with rfl | ⟨front, c, rfl⟩
  · rfl
  · have hc : endsLine c = false := h c (by simp)
    rw [List.concat_eq_append, Block.endLine_concat, hc, if_neg Bool.false_ne_true]

/-- A quote does not end a line, so a line feed is added behind it. -/
theorem endLine_quoted {quote : Char} (h : endsLine quote = false) (text rest : List Char) :
    Value.endLine (quote :: (text ++ [quote])) ++ rest =
      quote :: (text ++ quote :: '\n' :: rest) := by
  have happend : quote :: (text ++ [quote]) = quote :: text ++ [quote] := rfl
  rw [happend, Block.endLine_concat, h, if_neg Bool.false_ne_true]
  simp

/-- What stands behind a sign cannot be a key, since the mapping is not indented as far. -/
theorem expire?_behindSign {columns : List Nat} {column' line' : Nat} (text : List Char)
    (hcolumn : indent < column) (hline : line < line') :
    expire? ⟨next, line', column'⟩
        (noted tokens (indent :: columns) ⟨text, line, column⟩ allowed) = some none := by
  refine expire?_noted_of_lt ?_ hline
  simp only [List.head?_cons, ne_eq, Option.some.injEq]
  omega

/-- A plain text behind a sign is cut off, with the rest of its line. -/
theorem step_plain {columns : List Nat} {column' : Nat} (hplain : plainAllowed cs = true)
    (hne : cs ≠ []) (hcolumn : indent < column) (hcolumn' : column' ≤ indent)
    (hnext : Resumes next) :
    Step (row tokens (indent :: columns)
        ⟨Value.endLine cs ++ (spaces column' ++ next), line, column⟩ allowed)
      ((row (.scalar true cs :: tokens) (indent :: columns)
        ⟨next, line + 1, column'⟩).closeBlocksTo column') := by
  have hends : ∀ c ∈ cs, endsLine c = false := fun c hc =>
    ((Plain.of_plainAllowed hplain).2.2.2.1 c hc).2
  have hlength : (spaces column' ++ next).length = column' + next.length := by
    simp [spaces]
  rw [endLine_of_forall hends, List.append_assoc, List.singleton_append]
  cases cs with
  | nil => exact absurd rfl hne
  | cons c cs =>
      have hread : Plain.read? false (indent + 1)
          (c :: cs ++ '\n' :: (spaces column' ++ next)) line column {} =
          some (c :: cs, ⟨next, line + 1, column'⟩, true) := by
        rw [Plain.read?_text hplain hne (by omega), Plain.read?_line (by omega) hnext]
        simp [Plain.withFront]
      exact step_row rfl (token?_plainScalar hplain (by decide) (by decide) hread)
        (passGap_resumes hnext) (expire?_behindSign _ hcolumn (Nat.lt_succ_self _)) (by simp; omega)

/-- **A text behind a sign is cut off,** with the rest of its last line. -/
theorem step_value {columns : List Nat} {column' : Nat} (hcolumn : indent < column)
    (hcolumn' : column' ≤ indent) (hnext : Resumes next) :
    ∃ line', Step
      (row tokens (indent :: columns) ⟨Value.endLine (scalarText (indent + 2) cs
        (Style.ofText false cs)) ++ (spaces column' ++ next), line, column⟩ allowed)
      ((row (Token.ofText cs :: tokens) (indent :: columns) ⟨next, line', column'⟩).closeBlocksTo
        column') := by
  have hlength : (spaces column' ++ next).length = column' + next.length := by
    simp [spaces]
  rw [Token.ofText]
  have hfits := fits_ofText cs
  generalize Style.ofText false cs = style at hfits ⊢
  cases hfits with
  | plain hplain hne => exact ⟨line + 1, step_plain hplain hne hcolumn hcolumn' hnext⟩
  | single hsingle hfeed =>
      obtain ⟨hprintable, htight⟩ := Quoted.of_singleAllowed hsingle
      obtain ⟨line', column'', hread, hline, -⟩ := Quoted.readSingle?_singleText
        (by omega : 0 < indent + 2) ('\n' :: (spaces column' ++ next)) (by simp) line
        (column + 1) Quoted.held_nil (fun _ => by omega) hprintable hfeed htight
      rw [scalarText, endLine_quoted (by decide)]
      exact ⟨line' + 1, step_row rfl (token?_single.trans (quotedScalar?_row rfl hread))
        (passGap_line hnext column') (expire?_behindSign _ hcolumn (Nat.lt_succ_of_le hline))
        (by simp; omega)⟩
  | double =>
      have hread := Quoted.readDouble?_doubleText cs ('\n' :: (spaces column' ++ next)) line
        Quoted.held_nil (by omega : 0 < column + 1)
      rw [scalarText, endLine_quoted (by decide)]
      exact ⟨line + 1, step_row rfl (token?_double.trans (quotedScalar?_row rfl hread))
        (passGap_line hnext column') (expire?_behindSign _ hcolumn (Nat.lt_succ_self _))
        (by simp; omega)⟩
  | literal hprintable hfeed =>
      have hne : cs ≠ [] := List.ne_nil_of_mem hfeed
      obtain ⟨more, hrest⟩ : ∃ more, Value.endLine (scalarText (indent + 2) cs .literal) ++
          (spaces column' ++ next) = '|' :: (more ++ (spaces column' ++ next)) := by
        rw [scalarText, Block.endLine_literal hne, Block.literalHeader_eq]
        exact ⟨_, rfl⟩
      obtain ⟨line', hread⟩ := Block.read?_literal line (column + 1) hne
        hprintable (by omega) hnext hrest.symm
      rw [hrest]
      exact ⟨line', step_row rfl ((token?_literal rfl).trans (blockScalar?_row rfl hread))
        (passGap_resumes hnext) rfl (by simp; omega)⟩

/-! ### Before a colon -/

/-- What the innermost collection asks for is met one column further in. -/
theorem floor_row_le (hcolumns : ∀ inner, columns.head? = some inner → inner ≤ indent) :
    (row tokens columns spot allowed).floor ≤ indent + 1 := by
  cases columns with
  | nil => exact Nat.zero_le _
  | cons inner columns => exact Nat.succ_le_succ (hcolumns inner rfl)

/-- The token of a text that stands on one line before a colon. -/
theorem token?_key (tokens : List Token) (line : Nat) {text : List Char}
    (hcolumns : ∀ inner, columns.head? = some inner → inner ≤ indent)
    (hbreaks : cs.any endsLine = false) (hgap : atGap tail = true)
    (htext : text = scalarText (indent + 2) cs (Style.ofText false cs)) :
    ∃ c more, text = c :: more ∧
      (row tokens columns ⟨text ++ ':' :: tail, line, indent⟩).token? c (more ++ ':' :: tail) =
        some (row (Token.ofText cs :: tokens) columns
          ⟨':' :: tail, line, indent + text.length⟩ false
          (noted tokens columns ⟨text ++ ':' :: tail, line, indent⟩ true)) := by
  rw [Token.ofText]
  have hfits := fits_ofText cs
  generalize Style.ofText false cs = style at htext hfits ⊢
  cases hfits with
  | plain hplain hne =>
      obtain rfl : text = cs := htext
      cases text with
      | nil => exact absurd rfl hne
      | cons c cs =>
          have hread : Plain.read? false
              (row tokens columns ⟨c :: cs ++ ':' :: tail, line, indent⟩).floor
              (c :: cs ++ ':' :: tail) line indent {} =
              some (c :: cs, ⟨':' :: tail, line, indent + (c :: cs).length⟩, false) := by
            rw [Plain.read?_text hplain hne (floor_row_le hcolumns), Plain.read?_key hgap]
            simp [Plain.withFront]
          exact ⟨c, cs, rfl, token?_plainScalar hplain (by decide) (by decide) hread⟩
  | single hsingle hfeed =>
      obtain ⟨hprintable, htight⟩ := Quoted.of_singleAllowed hsingle
      obtain ⟨line', column', hread, -, hplace⟩ := Quoted.readSingle?_singleText
        (by omega : 0 < indent + 2) (':' :: tail) (by simp) line
        (indent + 1) Quoted.held_nil (fun _ => by omega) hprintable hfeed htight
      obtain ⟨rfl, rfl⟩ := hplace rfl hbreaks
      have hlength : indent + text.length =
          indent + 1 + (singleText (indent + 2) false cs).length + 1 := by
        rw [htext, scalarText, length_quoted]
        omega
      have hrest : text ++ ':' :: tail =
          '\x27' :: (singleText (indent + 2) false cs ++ '\x27' :: ':' :: tail) := by
        simp [htext, scalarText]
      refine ⟨'\x27', singleText (indent + 2) false cs ++ ['\x27'], htext, ?_⟩
      rw [hlength, List.append_assoc, List.singleton_append]
      exact token?_single.trans (quotedScalar?_row hrest hread)
  | double =>
      have hread := Quoted.readDouble?_doubleText cs (':' :: tail) line Quoted.held_nil
        (by omega : 0 < indent + 1)
      have hlength : indent + text.length = indent + 1 + (cs.flatMap doubleChar).length + 1 := by
        rw [htext, scalarText, length_quoted]
        omega
      have hrest : text ++ ':' :: tail = '"' :: (cs.flatMap doubleChar ++ '"' :: ':' :: tail) := by
        simp [htext, scalarText]
      refine ⟨'"', cs.flatMap doubleChar ++ ['"'], htext, ?_⟩
      rw [hlength, List.append_assoc, List.singleton_append]
      exact token?_double.trans (quotedScalar?_row hrest hread)
  | literal _ hfeed => exact absurd hfeed (feed_not_mem hbreaks)

/-- **A key is cut off before its colon,** and stays possible if it is not long. -/
theorem step_key (tokens : List Token) (line : Nat) {text : List Char}
    (hcolumns : ∀ inner, columns.head? = some inner → inner ≤ indent)
    (hbreaks : cs.any endsLine = false) (hgap : atGap tail = true)
    (htext : text = scalarText (indent + 2) cs (Style.ofText false cs))
    (hlength : text.length ≤ 1024) :
    Step (row tokens columns ⟨text ++ ':' :: tail, line, indent⟩)
      (row (Token.ofText cs :: tokens) columns ⟨':' :: tail, line, indent + text.length⟩ false
        (noted tokens columns ⟨text ++ ':' :: tail, line, indent⟩ true)) := by
  obtain ⟨c, more, hmore, hcut⟩ := token?_key tokens line hcolumns hbreaks hgap htext
  have hcolon : Resumes (':' :: tail) := resumes_cons (by decide) (by decide) (by decide)
  have hstay : (row (Token.ofText cs :: tokens) columns
      ⟨':' :: tail, line, indent + text.length⟩ false
      (noted tokens columns ⟨text ++ ':' :: tail, line, indent⟩ true)).closeBlocksTo
        (indent + text.length) = _ :=
    closeBlocksTo_of_le fun inner hinner =>
      Nat.le_trans (hcolumns inner hinner) (Nat.le_add_right _ _)
  rw [← hstay]
  refine step_row (by rw [hmore]; rfl) hcut (passGap_resumes hcolon)
    (expire?_noted_of_le rfl (Nat.add_le_add_left hlength _)) ?_
  rw [hmore]
  simp only [List.length_cons, List.length_append]
  omega

end Lexer

end ConfigGraft.Yaml
