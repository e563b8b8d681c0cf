import ConfigGraft.Proofs.Document.Updates
import ConfigGraft.Proofs.Yaml.Printable
import ConfigGraft.Proofs.Yaml.Tree

/-!
# YAML that is read back

A document that is ordinary can be written, and its text has the nodes of the document. A document
into which any texts were set is a grown tree, and so it is ordinary. It is read back as the tree,
with the same texts at its leaves, the same keys, and these in the same order.

A document has one more way to be read. A text of blank lines and comments is an empty document, and
what counts as blank there is more than YAML calls blank. So a written document can be taken for
such a text, if its first key begins with characters that only Unicode calls blank and a number sign
behind them.

## Main results

* `Value.ofText?_render` — **an ordinary document is written, and its nodes are in the text;**
* `Value.read?_render` — **an ordinary document is read back from its text;**
* `Document.exists_of_isBlankYaml_render` — a written document that looks blank begins with such a
  key;
* `Document.parse_render_yaml` — **a YAML document reads back, unless it looks blank;**
* `Document.parse_render_yaml_hiddenUpdate` — one that does, and is read as the empty document.
-/

namespace ConfigGraft

namespace Yaml

open Style Nested

namespace Value

/-! ### Writing and reading a document -/

/-- Items can be written if each of them can. -/
theorem itemsWritable_of_forall {items : List Value}
    (h : ∀ item ∈ items, item.isWritable false = true) : itemsWritable items = true := by
  induction items with
  | nil => rfl
  | cons item rest ih =>
      obtain ⟨hitem, hrest⟩ := List.forall_mem_cons.1 h
      rw [itemsWritable, hitem, ih hrest]
      rfl

/-- With texts as keys, a single entry is not taken for a tag. -/
theorem isWritable_mapping {entries : Mapping} (hnamed : Named entries)
    (h : ∀ entry ∈ entries, entry.2.isWritable false = true) (tagged : Bool) :
    (Value.mapping entries).isWritable tagged = true := by
  have hentries : entriesWritable entries = true := by
    induction hnamed with
    | nil => rfl
    | cons _ _ ih =>
        obtain ⟨hvalue, hrest⟩ := List.forall_mem_cons.1 h
        simp [entriesWritable, hvalue, ih hrest, isWritable]
  cases hnamed with
  | nil => rfl
  | @cons key v rest =>
      rw [← hentries]
      cases rest with
      | nil => simp [isWritable, entriesWritable, blursTag]
      | cons entry rest => simp [isWritable]

/-- **An ordinary value can be written.** -/
theorem isWritable_of_ordinary {v : Value} (h : v.Ordinary) (tagged : Bool) :
    v.isWritable tagged = true := by
  induction h generalizing tagged with
  | string | bool => rfl
  | sequence _ ih =>
      rw [isWritable]
      exact itemsWritable_of_forall fun item hitem => ih item hitem false
  | mapping hnamed _ ih =>
      exact isWritable_mapping hnamed (fun entry hentry => ih entry hentry false) tagged

/-- An empty mapping stands in braces, and its tokens are these. -/
theorem readAll?_braces :
    Token.readAll? "{}
".toList = some ((Value.mapping []).tokens false) := by
  have htext : "{}
".toList = ['{', '}', '
'] := by decide
  have htokens : Token.readAll? ['{', '}', '
'] = some [.openMapping, .closeMapping] := by
    decide
  exact htext ▸ htokens

/-- **The text of an ordinary document has the nodes of the document.** -/
theorem ofText?_render {entries : Mapping} (h : (Value.mapping entries).Ordinary) :
    ∃ written, render? entries = some written ∧
      Node.ofText? (String.ofList written) = some (some (Value.mapping entries).node) := by
  rw [render?, if_pos (isWritable_of_ordinary h false)]
  refine ⟨_, rfl, ?_⟩
  have htokens : Token.readAll? (if entries.isEmpty then "{}
".toList
      else entriesBefore [] 0 entries []) = some ((Value.mapping entries).tokens false) := by
    cases h with
    | mapping hnamed hvalues =>
        by_cases hne : entries = []
        · subst hne
          exact readAll?_braces
        · rw [if_neg (by simp [hne])]
          exact Token.readAll?_entriesBefore hnamed hvalues hne
  rw [Node.ofText?, String.toList_ofList, htokens, Option.bind_some, Node.ofTokens?_tokens h]

/-- **An ordinary document is read back from its text,** if there are not too many levels. -/
theorem read?_render {entries : Mapping} (h : (Value.mapping entries).Ordinary)
    (hlevels : (Value.mapping entries).levels ≤ depthLimit) :
    ∃ written, render? entries = some written ∧
      read? (String.ofList written) = some (.mapping entries) := by
  obtain ⟨written, hwritten, hnodes⟩ := ofText?_render h
  refine ⟨written, hwritten, ?_⟩
  rw [read?, hnodes]
  exact ofRoot?_node h hlevels

end Value

end Yaml

namespace Document

open Yaml Yaml.Style

/-! ### Documents that look blank -/

/-- Whether a text begins, behind blanks of any kind, with the sign of a comment. -/
def looksComment (cs : List Char) : Bool := (cs.dropWhile Text.isBlank).head? == some '#'

/-- The first line of a text begins like the text. -/
theorem exists_lines_append {front : List Char} (hne : front ≠ []) (hfeed : '\n' ∉ front)
    (rest : List Char) :
    ∃ more ended lines, Text.cutLines (front ++ rest) = (front ++ more, ended) :: lines := by
  induction front with
  | nil => exact absurd rfl hne
  | cons c front ih =>
      rw [List.mem_cons, not_or] at hfeed
      rw [List.cons_append, Text.cutLines, if_neg (Ne.symm hfeed.1)]
      by_cases hfront : front = []
      · subst hfront
        rw [List.nil_append]
        split
        · exact ⟨[], false, [], rfl⟩
        · exact ⟨_, _, _, rfl⟩
      · obtain ⟨more, ended, lines, hcut⟩ := ih hfront hfeed.2
        rw [hcut]
        exact ⟨more, ended, lines, rfl⟩

/-- What is left of a text without blanks at its ends begins with the first character that is
none. -/
theorem exists_trim_eq {blanks : List Char} {c : Char}
    (hblanks : ∀ d ∈ blanks, Text.isBlank d = true) (hc : Text.isBlank c = false)
    (rest : List Char) : ∃ more, Text.trim (blanks ++ c :: rest) = c :: more := by
  rw [Text.trim, List.dropWhile_append_of_pos hblanks, List.dropWhile_cons_of_neg (by simp [hc]),
    Text.dropEnd, List.reverse_cons, List.dropWhile_append]
  split
  · rw [List.dropWhile_cons_of_neg (by simp [hc])]
    exact ⟨[], rfl⟩
  · exact ⟨_, List.reverse_concat⟩

/-- A text is not blank if something other than a comment begins its first line. -/
theorem isBlankYaml_eq_false {blanks : List Char} {c : Char}
    (hblanks : ∀ d ∈ blanks, Text.isBlank d = true) (hfeed : '\n' ∉ blanks)
    (hc : Text.isBlank c = false) (hcomment : c ≠ '#') (rest : List Char) :
    isBlankYaml (blanks ++ c :: rest) = false := by
  have hne {d : Char} (hd : Text.isBlank d = true) : c ≠ d := by
    rintro rfl
    rw [hd] at hc
    cases hc
  have hfront : '\n' ∉ blanks ++ [c] := by
    rw [List.mem_append, List.mem_singleton]
    exact not_or.2 ⟨hfeed, (hne (by decide)).symm⟩
  obtain ⟨more, ended, lines, hcut⟩ := exists_lines_append (by simp) hfront rest
  rw [List.append_assoc, List.append_assoc, List.singleton_append, List.singleton_append] at hcut
  -- A carriage return before the line feed is part of the break, and the character is none.
  obtain ⟨more', hline⟩ : ∃ more', Text.withoutBreak (blanks ++ c :: more, ended) =
      blanks ++ c :: more' := by
    cases ended with
    | false => exact ⟨more, rfl⟩
    | true =>
        rw [Text.withoutBreak]
        split
        · rename_i hreturn
          cases more with
          | nil => exact absurd (by simpa using hreturn) (hne (by decide) : c ≠ '\r')
          | cons d more =>
              refine ⟨(d :: more).dropLast, ?_⟩
              rw [List.dropLast_append_of_ne_nil (List.cons_ne_nil _ _)]
              rfl
        · exact ⟨more, rfl⟩
  obtain ⟨trimmed, htrim⟩ := exists_trim_eq hblanks hc more'
  rw [isBlankYaml, Text.lines, hcut, List.map_cons, hline, List.all_cons, htrim]
  simp [hcomment]

/-- **A written document does not look blank** if its first key does not look like a comment, or is
not written plain. -/
theorem isBlankYaml_entriesBefore {key : String} {v : Value} {rest : Mapping}
    (hkey : Style.ofText false key.toList = .plain → looksComment key.toList = false) :
    isBlankYaml (Value.entriesBefore [] 0 ((.string key, v) :: rest) []) = false := by
  rw [Value.entriesBefore_cons, List.nil_append, Value.entryText]
  split
  · rename_i hshort
    rw [Value.lineText_key hshort]
    have hbreaks : '\n' ∉ key.toList := feed_not_mem (length_key_le hshort 2).1
    have hfits := fits_ofText key.toList
    generalize Style.ofText false key.toList = style at hkey hfits ⊢
    cases hfits with
    | plain =>
        have hblanks : ∀ d ∈ key.toList.takeWhile Text.isBlank, Text.isBlank d = true :=
          List.all_eq_true.1 List.all_takeWhile
        have hfeed : '\n' ∉ key.toList.takeWhile Text.isBlank := fun hmem =>
          hbreaks ((List.takeWhile_prefix _).subset hmem)
        have hcut := List.takeWhile_append_dropWhile (p := Text.isBlank) (l := key.toList)
        have hhead := List.head?_dropWhile_not Text.isBlank key.toList
        have hcomment := hkey rfl
        rw [looksComment] at hcomment
        rw [scalarText, ← hcut, List.append_assoc]
        cases hrest : key.toList.dropWhile Text.isBlank with
        | nil => exact isBlankYaml_eq_false hblanks hfeed (by decide) (by decide) _
        | cons c more =>
            rw [hrest] at hcomment hhead
            refine isBlankYaml_eq_false hblanks hfeed hhead ?_ _
            simpa using hcomment
    | single | double =>
        exact isBlankYaml_eq_false (List.forall_mem_nil _) List.not_mem_nil (by decide)
          (by decide) _
    | literal _ hfeed => exact absurd hfeed hbreaks
  · exact isBlankYaml_eq_false (List.forall_mem_nil _) List.not_mem_nil (by decide) (by decide) _

/-- A written document looks blank only if its first key is written plain and looks like a
comment. -/
theorem exists_of_isBlankYaml_render {entries : Mapping} {written : List Char}
    (h : (Value.mapping entries).Ordinary) (hwritten : Yaml.render? entries = some written)
    (hblank : isBlankYaml written = true) :
    ∃ key value rest, entries = (.string key, value) :: rest ∧
      Style.ofText false key.toList = .plain ∧ looksComment key.toList = true := by
  rw [Yaml.render?, if_pos (Value.isWritable_of_ordinary h false)] at hwritten
  have hcons {key : String} {v : Value} {rest : Mapping}
      (heq : entries = (.string key, v) :: rest) :
      Style.ofText false key.toList = .plain ∧ looksComment key.toList = true := by
    subst heq
    rw [← Option.some.inj hwritten, if_neg (by simp)] at hblank
    refine Decidable.byContradiction fun hkey => ?_
    rw [not_and, Bool.not_eq_true] at hkey
    rw [isBlankYaml_entriesBefore hkey] at hblank
    cases hblank
  cases h with
  | mapping hnamed _ =>
      cases hnamed with
      | nil =>
          rw [← Option.some.inj hwritten] at hblank
          cases hblank
      | cons => exact ⟨_, _, _, rfl, hcons rfl⟩

/-! ### Documents -/

/-- **A YAML document reads back, unless it looks blank.** Any texts can be set in the empty
document. What comes of it has texts at its leaves and texts as its keys. If its mappings are not
nested too deep, it is written as a text that YAML reads as the same document. The document is read
back from it as it is, with its keys in the same order, if the text does not look like one of blank
lines and comments only. One that does is read as the empty document; the first key of such a
document stands there without quotes, and is a number sign with blanks before it. -/
theorem parse_render_yaml (updates : List (KeyPath × String)) :
    ∃ entries dirty, (empty .yaml).setAll updates = .ok (.yaml entries, dirty) ∧
      Nested.Grown entries ∧
      ((Value.mapping entries).levels ≤ Value.depthLimit →
        ∃ written, (Document.yaml entries).render? = some written ∧
          Value.read? written = some (.mapping entries) ∧
          parse .yaml written =
            .ok (.yaml (if isBlankYaml written.toList then [] else entries)) ∧
          (isBlankYaml written.toList = true → ∃ key value rest,
            entries = (.string key, value) :: rest ∧
              Style.ofText false key.toList = .plain ∧ looksComment key.toList = true)) := by
  have hstep {es : Mapping} (hes : Nested.Grown es) (text : String) (path : KeyPath) :
      ∃ es' changed, Nested.set text path.segments es = .ok (es', changed) ∧
        Nested.Grown es' := by
    obtain ⟨es', changed, hset, -, hgrown⟩ := hes.exists_set text path.segments_ne_nil
    exact ⟨es', changed, hset, hgrown⟩
  obtain ⟨entries, dirty, hset, hgrown⟩ :=
    spells_yaml.exists_setAll_of_step hstep Nested.Grown.nil updates
  refine ⟨entries, dirty, hset, hgrown, fun hlevels => ?_⟩
  have hordinary := Value.ordinary_of_grown hgrown
  obtain ⟨written, hwritten, hread⟩ := Value.read?_render hordinary hlevels
  refine ⟨String.ofList written, ?_, hread, ?_, fun hblank => ?_⟩
  · rw [render?, hwritten]
    rfl
  · rw [parse, parseYaml, hread]
    split <;> rfl
  · rw [String.toList_ofList] at hblank
    exact exists_of_isBlankYaml_render hordinary hwritten hblank

/-- Updates with texts that would mean something else if they stood in YAML as they are. -/
def awkwardUpdates : List (KeyPath × String) :=
  [(⟨["true", "- a"], by simp, by simp, by simp⟩, "0x1F"),
    (⟨["true", "~"], by simp, by simp, by simp⟩, ""),
    (⟨["a: b"], by simp, by simp, by simp⟩, " # x\n\n")]

/-- What the updates make of the empty document. -/
def awkwardMapping : Mapping :=
  [(.string "true", .mapping [(.string "- a", .string "0x1F"), (.string "~", .string "")]),
    (.string "a: b", .string " # x\n\n")]

/-- The awkward texts are read back. -/
theorem parse_render_yaml_awkwardUpdates :
    (empty .yaml).setAll awkwardUpdates = .ok (.yaml awkwardMapping, true) ∧
    (Value.mapping awkwardMapping).levels ≤ Value.depthLimit ∧
    ∃ written, (Document.yaml awkwardMapping).render? = some written ∧
      parse .yaml written = .ok (.yaml awkwardMapping) := by
  have hset : (empty .yaml).setAll awkwardUpdates = .ok (.yaml awkwardMapping, true) := rfl
  have hlevels : (Value.mapping awkwardMapping).levels ≤ Value.depthLimit := by decide
  obtain ⟨entries, dirty, hset', -, hback⟩ := parse_render_yaml awkwardUpdates
  cases hset.symm.trans hset'
  obtain ⟨written, hwritten, -, hparse, hblank⟩ := hback hlevels
  refine ⟨hset, hlevels, written, hwritten, ?_⟩
  have hnotblank : isBlankYaml written.toList = false := by
    refine eq_false_of_ne_true fun h => ?_
    obtain ⟨key, value, rest, heq, -, hkey⟩ := hblank h
    cases heq
    revert hkey
    decide
  rwa [hnotblank, if_neg Bool.false_ne_true] at hparse

/-! ### A document that looks blank -/

/-- An update whose key begins with a blank that is none in YAML. -/
def hiddenUpdate : KeyPath × String := (⟨["\u00a0#"], by simp, by simp, by simp⟩, "x")

/-- What the update makes of the empty document. -/
def hiddenMapping : Mapping := [(.string "\u00a0#", .string "x")]

/-- A document with a text in it that is read back as the empty document. -/
theorem parse_render_yaml_hiddenUpdate :
    (empty .yaml).setAll [hiddenUpdate] = .ok (.yaml hiddenMapping, true) ∧
    (Value.mapping hiddenMapping).levels ≤ Value.depthLimit ∧
    ∃ written, (Document.yaml hiddenMapping).render? = some written ∧
      Value.read? written = some (.mapping hiddenMapping) ∧
      parse .yaml written = .ok (.yaml []) := by
  have hlevels : (Value.mapping hiddenMapping).levels ≤ Value.depthLimit := by decide
  have hgrown : Nested.Grown hiddenMapping := .leaf List.not_mem_nil .nil
  obtain ⟨written, hwritten, hread⟩ :=
    Value.read?_render (Value.ordinary_of_grown hgrown) hlevels
  have htext : Yaml.render? hiddenMapping = some ['\u00a0', '#', ':', ' ', 'x', '\n'] := by decide
  cases htext.symm.trans hwritten
  refine ⟨rfl, hlevels, _, congrArg (Option.map String.ofList) hwritten, hread, ?_⟩
  have hblank : isBlankYaml ['\u00a0', '#', ':', ' ', 'x', '\n'] = true := by decide
  rw [parse, parseYaml, String.toList_ofList, if_pos hblank]
  rfl

end Document

end ConfigGraft
