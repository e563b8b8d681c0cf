import ConfigGraft.Proofs.Nested.Grown
import ConfigGraft.Proofs.Yaml.Scalar

/-!
# Ordinary values and how they are written

Ordinary values are texts, truth values, and sequences and mappings of such, in which the keys of a
mapping are different texts. An empty collection stands on the line, in brackets. Any other takes
lines of its own for its items or entries. Behind its key it begins on the next line, and a sequence
is not indented there; behind a sign of its own it begins on the same line.

## Main results

* `Value.ordinary_of_grown` — what has grown from texts is ordinary;
* `Value.blockBefore_eq` — where the text of a value begins;
* `Value.resumes_body` — its first character begins a token.
-/

namespace ConfigGraft.Yaml

open Style Nested

/-! ### Ordinary values -/

/-- Entries with different texts for keys. -/
inductive Named : Mapping → Prop
  | nil : Named []
  | cons {name : String} {v : Value} {rest : Mapping} :
      .string name ∉ rest.map Prod.fst → Named rest → Named ((.string name, v) :: rest)

namespace Value

/-- **Ordinary values:** texts, truth values, and sequences and mappings of such, the latter with
different texts for keys. -/
inductive Ordinary : Value → Prop
  | string (s : String) : Ordinary (.string s)
  | bool (b : Bool) : Ordinary (.bool b)
  | sequence {items : List Value} :
      (∀ item ∈ items, Ordinary item) → Ordinary (.sequence items)
  | mapping {entries : Mapping} :
      Named entries → (∀ entry ∈ entries, Ordinary entry.2) → Ordinary (.mapping entries)

/-- A tree that has grown from texts has different texts for keys and is ordinary below them. -/
theorem named_of_grown {entries : Mapping} (h : Grown entries) :
    Named entries ∧ ∀ entry ∈ entries, entry.2.Ordinary := by
  induction h with
  | nil => exact ⟨.nil, List.forall_mem_nil _⟩
  | leaf hkey _ ih => exact ⟨.cons hkey ih.1, List.forall_mem_cons.2 ⟨.string _, ih.2⟩⟩
  | branch hkey _ _ _ ihinner ihrest =>
      exact ⟨.cons hkey ihrest.1,
        List.forall_mem_cons.2 ⟨.mapping ihinner.1 ihinner.2, ihrest.2⟩⟩

/-- **What has grown from texts is ordinary.** -/
theorem ordinary_of_grown {entries : Mapping} (h : Grown entries) :
    (Value.mapping entries).Ordinary :=
  .mapping (named_of_grown h).1 (named_of_grown h).2

/-- Whether a value takes lines of its own: a collection in which there is something. -/
def isBlock : Value → Bool
  | .sequence items => !items.isEmpty
  | .mapping entries => !entries.isEmpty
  | _ => false

/-- How a truth value is written. -/
def boolText (b : Bool) : List Char := if b then "true".toList else "false".toList

/-! ### Written values -/

/-- The text of an entry, up to the text that follows it. -/
def entryText (indent : Nat) (key value : Value) (rest : List Char) : List Char :=
  if key.isShortKey then
    lineText true (indent + 2) key ++ ':' :: blockBefore .afterKey false indent value rest
  else
    '?' :: blockBefore .afterSign false indent key
      (spaces indent ++ ':' :: blockBefore .afterSign false indent value rest)

/-- Entries are written one behind the other, the later ones on indented lines. -/
theorem entriesBefore_cons (lead : List Char) (indent : Nat) (key value : Value)
    (entries : Mapping) (rest : List Char) :
    entriesBefore lead indent ((key, value) :: entries) rest =
      lead ++ entryText indent key value (entriesBefore (spaces indent) indent entries rest) := by
  rw [entriesBefore, entryText]

/-- What leads to the first entry stands in front of all. -/
theorem entriesBefore_lead (lead : List Char) (indent : Nat) {entries : Mapping} (h : entries ≠ [])
    (rest : List Char) :
    entriesBefore lead indent entries rest = lead ++ entriesBefore [] indent entries rest := by
  cases entries with
  | nil => exact absurd rfl h
  | cons entry entries =>
      rw [entriesBefore_cons, entriesBefore_cons]
      rfl

/-- So does what leads to the first item. -/
theorem itemsBefore_lead (lead : List Char) (indent : Nat) {items : List Value} (h : items ≠ [])
    (rest : List Char) :
    itemsBefore lead indent items rest = lead ++ itemsBefore [] indent items rest := by
  cases items with
  | nil => exact absurd rfl h
  | cons item items =>
      rw [itemsBefore, itemsBefore]
      rfl

/-- How far the lines of a value are indented that takes lines of its own. -/
def blockIndent (place : Place) (indent : Nat) : Value → Nat
  | .sequence _ => sequenceIndent place false indent
  | _ => indent + 2

/-- The text of a value where its first token begins. -/
def body (place : Place) (indent : Nat) (v : Value) (rest : List Char) : List Char :=
  match v with
  | .sequence (item :: items) =>
    itemsBefore [] (sequenceIndent place false indent) (item :: items) rest
  | .mapping (entry :: entries) => entriesBefore [] (indent + 2) (entry :: entries) rest
  | v => endLine (lineText false (indent + 2) v) ++ rest

/-- **A value stands behind a blank,** or on lines of its own if it stands behind its key. -/
theorem blockBefore_eq {v : Value} (h : v.Ordinary) (place : Place) (indent : Nat)
    (rest : List Char) :
    blockBefore place false indent v rest =
      lead (!v.isBlock || place != .afterKey) (v.blockIndent place indent) ++
        v.body place indent rest := by
  cases h with
  | string s => simp [blockBefore, isBlock, lead, body]
  | bool b => simp [blockBefore, isBlock, lead, body]
  | @sequence items =>
      cases items with
      | nil => simp [blockBefore, isBlock, lead, body, lineText, endLine, endsLine]
      | cons item items =>
          rw [blockBefore, body, itemsBefore_lead _ _ (List.cons_ne_nil _ _)]
          simp [isBlock, blockIndent]
  | @mapping entries =>
      cases entries with
      | nil => simp [blockBefore, isBlock, lead, body, lineText, endLine, endsLine]
      | cons entry entries =>
          rw [blockBefore, body, entriesBefore_lead _ _ (List.cons_ne_nil _ _)]
          simp [isBlock, blockIndent]

/-- Behind a sign of its own, a value begins on the same line. -/
theorem blockBefore_sameLine {v : Value} (h : v.Ordinary) {place : Place}
    (hplace : place ≠ .afterKey) (indent : Nat) (rest : List Char) :
    blockBefore place false indent v rest = ' ' :: v.body place indent rest := by
  have hsame : (place != .afterKey) = true := bne_iff_ne.2 hplace
  rw [blockBefore_eq h, hsame, Bool.or_true, lead]
  rfl

/-! ### Where tokens begin -/

/-- The first character of a written text begins a token. -/
theorem resumes_scalarText (indent : Nat) (cs tail : List Char) :
    Resumes (scalarText indent cs (Style.ofText false cs) ++ tail) := by
  have hfits := fits_ofText cs
  generalize Style.ofText false cs = style at hfits ⊢
  cases hfits with
  | plain hplain hne =>
      have hlead := (Plain.of_plainAllowed hplain).2.1
      cases cs with
      | nil => exact absurd rfl hne
      | cons c cs =>
          obtain ⟨hblank, hbreak⟩ := Plain.not_gap_of_plainAllowed hplain
          rw [leadingSign, Bool.or_eq_false_iff] at hlead
          refine resumes_cons hblank hbreak ?_
          rintro rfl
          cases hlead.1
  | single => exact resumes_cons (by decide) (by decide) (by decide)
  | double => exact resumes_cons (by decide) (by decide) (by decide)
  | literal =>
      rw [scalarText, Block.literalHeader_eq]
      exact resumes_cons (by decide) (by decide) (by decide)

/-- A short key is written like any other text. -/
theorem lineText_key {key : String} (h : (Value.string key).isShortKey = true) (indent : Nat) :
    lineText true indent (.string key) =
      scalarText indent key.toList (Style.ofText false key.toList) := by
  rw [lineText, stringText, ofText_eq true (length_key_le h indent).1]

/-- A token begins where a text begins with one, its line being ended or not. -/
theorem resumes_endLine {text : List Char} (h : ∀ tail, Resumes (text ++ tail))
    (rest : List Char) : Resumes (endLine text ++ rest) := by
  rw [endLine]
  split
  · exact h rest
  · rw [List.append_assoc]
    exact h _

/-- An entry begins with the token of its key. -/
theorem resumes_entryText (indent : Nat) (key : String) (value : Value) (rest : List Char) :
    Resumes (entryText indent (.string key) value rest) := by
  rw [entryText]
  split
  · rw [lineText_key ‹_›]
    exact resumes_scalarText _ _ _
  · exact resumes_cons (by decide) (by decide) (by decide)

/-- Entries begin with the first of them. -/
theorem resumes_entriesBefore {entries : Mapping} (h : Named entries) (hne : entries ≠ [])
    (indent : Nat) (rest : List Char) : Resumes (entriesBefore [] indent entries rest) := by
  cases h with
  | nil => exact absurd rfl hne
  | cons =>
      rw [entriesBefore_cons]
      exact resumes_entryText _ _ _ _

/-- Items begin with a dash. -/
theorem resumes_itemsBefore {items : List Value} (hne : items ≠ []) (indent : Nat)
    (rest : List Char) : Resumes (itemsBefore [] indent items rest) := by
  cases items with
  | nil => exact absurd rfl hne
  | cons item items =>
      rw [itemsBefore]
      exact resumes_cons (by decide) (by decide) (by decide)

/-- The first character of a written value begins a token. -/
theorem resumes_body {v : Value} (h : v.Ordinary) (place : Place) (indent : Nat)
    (rest : List Char) : Resumes (v.body place indent rest) := by
  cases h with
  | string s => exact resumes_endLine (resumes_scalarText _ _) rest
  | bool b =>
      cases b with
      | true => exact resumes_cons (by decide) (by decide) (by decide)
      | false => exact resumes_cons (by decide) (by decide) (by decide)
  | @sequence items =>
      cases items with
      | nil => exact resumes_cons (by decide) (by decide) (by decide)
      | cons item items => exact resumes_itemsBefore (List.cons_ne_nil _ _) _ _
  | @mapping entries hnamed =>
      cases entries with
      | nil => exact resumes_cons (by decide) (by decide) (by decide)
      | cons entry entries => exact resumes_entriesBefore hnamed (List.cons_ne_nil _ _) _ _

end Value

end ConfigGraft.Yaml
