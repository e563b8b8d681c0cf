import ConfigGraft.Proofs.Yaml.Ordinary

/-!
# The tokens of a written value

A collection is written as its items or entries, one below the other, and the lexer cuts each of
these into the token that announces it and the tokens of its parts. A block collection opens with
its first item or entry, but for a sequence behind its key, which is not indented and never opens.
It closes where a line follows that is indented less, so this is said of the state that has settled
there.

## Main results

* `Lexer.steps_item`, `Lexer.steps_entry` — one item and one entry are cut into their tokens;
* `Lexer.cuts_of_ordinary` — **a written value is cut into its tokens.**
-/

namespace ConfigGraft.Yaml

open Style

/-! ### Tokens -/

namespace Value

mutual

/-- The tokens of a value. Behind its key, a sequence has none to open and close it: it is `free`
then. -/
def tokens (free : Bool) : Value → List Token
  | .string s => [.ofText s.toList]
  | .bool b => [.scalar true (boolText b)]
  | .sequence items =>
    if items.isEmpty then [.openSequence, .closeSequence]
    else if free then itemsTokens items
    else .openBlockSequence :: (itemsTokens items ++ [.closeBlock])
  | .mapping entries =>
    if entries.isEmpty then [.openMapping, .closeMapping]
    else .openBlockMapping :: (entriesTokens entries ++ [.closeBlock])
  | _ => []

/-- The tokens of the items of a sequence. -/
def itemsTokens : List Value → List Token
  | [] => []
  | item :: rest => .item :: (item.tokens false ++ itemsTokens rest)

/-- The tokens of the entries of a mapping. -/
def entriesTokens : List (Value × Value) → List Token
  | [] => []
  | (key, value) :: rest =>
    .key :: (key.tokens false ++ .value :: (value.tokens key.isShortKey ++ entriesTokens rest))

end

/-- The tokens of items are those of the first, behind its sign, and then those of the others. -/
theorem itemsTokens_cons_append (item : Value) (more : List Value) (rest : List Token) :
    itemsTokens (item :: more) ++ rest =
      .item :: (item.tokens false ++ (itemsTokens more ++ rest)) := by
  simp [itemsTokens]

/-- They are as many, and the sign. -/
theorem length_itemsTokens_cons (item : Value) (more : List Value) :
    (itemsTokens (item :: more)).length =
      (item.tokens false).length + (itemsTokens more).length + 1 := by
  simp [itemsTokens]

end Value

namespace Lexer

variable {tokens tokens' : List Token} {columns up : List Nat} {allowed : Bool}
  {line column indent : Nat} {rest tail next : List Char}

/-! ### The signs of a collection -/

/-- What opens with an item or entry at an indentation: a collection with its first one, and nothing
with a later one, nor with the first item of a sequence that is not indented. -/
inductive Opens (opening : Token) (indent : Nat) (tokens : List Token) :
    List Nat → List Token → List Nat → Prop
  | first {columns : List Nat} :
      (∀ inner, columns.head? = some inner → inner < indent) →
      Opens opening indent tokens columns (opening :: tokens) columns
  | later {columns : List Nat} : Opens opening indent tokens (indent :: columns) tokens columns

variable {opening : Token}

/-- A collection opens no further out than the one around it. -/
theorem Opens.le (h : Opens opening indent tokens columns tokens' up) {inner : Nat}
    (hinner : columns.head? = some inner) : inner ≤ indent := by
  cases h with
  | first hless => exact Nat.le_of_lt (hless inner hinner)
  | later =>
      cases hinner
      exact Nat.le_refl _

/-- A token is put in where some of the tokens stand before it. -/
theorem insertAt_row {spot : Spot} {pending : Option PendingKey} (front : List Token)
    (token : Token) :
    (row (front ++ tokens) columns spot allowed pending).insertAt tokens.length token =
      row (front ++ token :: tokens) columns spot allowed pending := by
  have hinsert : (front ++ tokens).insertIdx front.length token = front ++ token :: tokens := by
    induction front with
    | nil => rfl
    | cons t front ih => exact congrArg (t :: ·) ih
  have hnumber : (front ++ tokens).length - tokens.length = front.length := by
    simp
  simp only [insertAt, row, hnumber, hinsert]
  simp
  omega

/-- The collection of an item or entry is opened, if it is not open. -/
theorem openBlock_row {spot : Spot} {pending : Option PendingKey}
    (hopens : Opens opening indent tokens columns tokens' up) (front : List Token) :
    (row (front ++ tokens) columns spot allowed pending).openBlock indent tokens.length opening =
      row (front ++ tokens') (indent :: up) spot allowed pending := by
  cases hopens with
  | first hless =>
      have hfloor : (row (front ++ tokens) columns spot allowed pending).floor ≤ indent := by
        cases columns with
        | nil => exact Nat.zero_le _
        | cons inner columns => exact hless inner rfl
      have hopen : (!(row (front ++ tokens) columns spot allowed pending).inFlow &&
          decide ((row (front ++ tokens) columns spot allowed pending).floor ≤ indent)) = true := by
        simp [hfloor]
      rw [openBlock, if_pos hopen, insertAt_row]
      rfl
  | later =>
      have hfloor : ¬ (row (front ++ tokens) (indent :: up) spot allowed pending).floor ≤ indent :=
        Nat.not_succ_le_self indent
      rw [openBlock, if_neg (by simp [hfloor])]

/-- A colon before a gap begins a value. -/
theorem token?_colon {lx : Lexer} (hgap : atGap tail = true) :
    lx.token? ':' tail = lx.value? := by
  simp [token?, isDocumentMark, hgap]

/-- A question mark before a gap begins a key. -/
theorem token?_question {lx : Lexer} (hgap : atGap tail = true) :
    lx.token? '?' tail = lx.key? := by
  simp [token?, isDocumentMark, hgap]

/-- A dash before a space begins an item. -/
theorem token?_dash {lx : Lexer} (tail : List Char) : lx.token? '-' (' ' :: tail) = lx.item? := by
  simp [token?, isDocumentMark, atGap, isBlank]

/-- The colon behind a possible key. -/
theorem value?_noted (hopens : Opens .openBlockMapping indent tokens columns tokens' up) (t : Token)
    {text : List Char} {line' : Nat} :
    (row (t :: tokens) columns ⟨':' :: tail, line, column⟩ false
        (noted tokens columns ⟨text, line', indent⟩ true)).value? =
      some (row (.value :: t :: .key :: tokens') (indent :: up) ⟨tail, line, column + 1⟩
        false) := by
  generalize hpending : noted tokens columns ⟨text, line', indent⟩ true = pending
  have hinsert : (row (t :: tokens) columns ⟨':' :: tail, line, column⟩ false pending).insertAt
      tokens.length .key =
        row (t :: .key :: tokens) columns ⟨':' :: tail, line, column⟩ false pending :=
    insertAt_row [t] .key
  have hopen : (row (t :: .key :: tokens) columns ⟨':' :: tail, line, column⟩ false
      pending).openBlock indent tokens.length .openBlockMapping =
      row (t :: .key :: tokens') (indent :: up) ⟨':' :: tail, line, column⟩ false pending :=
    openBlock_row hopens [t, .key]
  have hkey : pending = some ⟨columns.head? == some indent, tokens.length, line', indent⟩ :=
    hpending.symm
  simp only [value?, row_pending, hkey] at hinsert hopen ⊢
  simp only [hinsert, hopen]
  rfl

/-- The colon on a line of its own. -/
theorem value?_row (tokens : List Token) (up : List Nat) (indent : Nat) :
    (row tokens (indent :: up) ⟨':' :: tail, line, indent⟩).value? =
      some (row (.value :: tokens) (indent :: up) ⟨tail, line, indent + 1⟩) := by
  have hopen : (row tokens (indent :: up) ⟨':' :: tail, line, indent⟩).openBlock indent
      tokens.length .openBlockMapping = row tokens (indent :: up) ⟨':' :: tail, line, indent⟩ :=
    openBlock_row .later []
  simp only [value?, row_pending, row_inFlow, row_keyAllowed, row_spot, row_count, hopen]
  rfl

/-- The question mark before a key. -/
theorem key?_row (hopens : Opens .openBlockMapping indent tokens columns tokens' up) :
    (row tokens columns ⟨'?' :: tail, line, indent⟩).key? =
      some (row (.key :: tokens') (indent :: up) ⟨tail, line, indent + 1⟩) := by
  have hopen : (row tokens columns ⟨'?' :: tail, line, indent⟩).openBlock indent
      tokens.length .openBlockMapping = row tokens' (indent :: up) ⟨'?' :: tail, line, indent⟩ :=
    openBlock_row hopens []
  simp only [key?, row_inFlow, row_keyAllowed, row_spot, row_count, hopen]
  rfl

/-- The dash before an item. -/
theorem item?_row (hopens : Opens .openBlockSequence indent tokens columns tokens' up) :
    (row tokens columns ⟨'-' :: tail, line, indent⟩).item? =
      some (row (.item :: tokens') (indent :: up) ⟨tail, line, indent + 1⟩) := by
  have hopen : (row tokens columns ⟨'-' :: tail, line, indent⟩).openBlock indent
      tokens.length .openBlockSequence = row tokens' (indent :: up) ⟨'-' :: tail, line, indent⟩ :=
    openBlock_row hopens []
  simp only [item?, row_inFlow, row_keyAllowed, row_spot, row_count, hopen]
  rfl

/-- No collection is closed by what is indented as far as the innermost. -/
theorem closeBlocksTo_innermost {spot : Spot} (hcolumn : indent ≤ column) :
    (row tokens (indent :: up) spot allowed).closeBlocksTo column =
      row tokens (indent :: up) spot allowed := by
  refine closeBlocksTo_of_le ?_
  rintro inner ⟨⟩
  exact hcolumn

/-! ### Values -/

/-- Where a value begins: on lines of its own if it takes them, where a key may begin, and else
anywhere further in than the collection around it. -/
inductive Begins (place : Value.Place) (indent : Nat) (v : Value) : Nat → Bool → Prop
  | onLine {column : Nat} {allowed : Bool} :
      v.isBlock = false → indent < column → Begins place indent v column allowed
  | block : v.isBlock = true → Begins place indent v (v.blockIndent place indent) true

/-- Whether a value is cut into its tokens, wherever it begins, before lines that are not indented
further than the collection around it. -/
def Cuts (place : Value.Place) (v : Value) : Prop :=
  ∀ (line : Nat) (tokens : List Token) (up : List Nat) {indent column column' : Nat}
    {allowed : Bool} {next : List Char}, Begins place indent v column allowed →
    column' ≤ indent → Resumes next → ∃ line', Steps
      (row tokens (indent :: up)
        ⟨v.body place indent (spaces column' ++ next), line, column⟩ allowed)
      ((row ((v.tokens (place == .afterKey)).reverse ++ tokens) (indent :: up)
        ⟨next, line', column'⟩).closeBlocksTo column')

/-- A text is cut into one token, whatever style it is written in. -/
theorem cuts_string (place : Value.Place) (s : String) : Cuts place (.string s) := by
  intro line tokens up indent column column' allowed next hbegins hcolumn' hnext
  cases hbegins with
  | onLine _ hcolumn =>
      obtain ⟨line', hstep⟩ := step_value hcolumn hcolumn' hnext
      exact ⟨line', .single hstep⟩
  | block hblock => cases hblock

/-- So is a truth value. -/
theorem cuts_bool (place : Value.Place) (b : Bool) : Cuts place (.bool b) := by
  intro line tokens up indent column column' allowed next hbegins hcolumn' hnext
  cases hbegins with
  | onLine _ hcolumn =>
      have hplain : plainAllowed (Value.boolText b) = true := by cases b <;> decide
      have hne : Value.boolText b ≠ [] := by cases b <;> decide
      exact ⟨line + 1, .single (step_plain hplain hne hcolumn hcolumn' hnext)⟩
  | block hblock => cases hblock

/-- The state behind an opening bracket. The key that is possible there is put aside. -/
def bracket (tokens : List Token) (columns : List Nat) (spot : Spot) (aside : Option PendingKey) :
    Lexer :=
  { spot, tokens, count := tokens.length, columns, outer := [aside] }

/-- Where a token follows the bracket, everything stays. -/
theorem settle?_bracket {spot : Spot} {aside : Option PendingKey} (hrest : Resumes spot.rest)
    (hkept : expire? spot aside = some aside) :
    (bracket tokens columns spot aside).settle? = some (bracket tokens columns spot aside) := by
  have hflow : (bracket tokens columns spot aside).inFlow = true := rfl
  have hpass : (bracket tokens columns spot aside).toNextToken =
      bracket tokens columns spot aside := by
    rw [toNextToken, hflow]
    simp only [bracket, passGap_resumes hrest]
  have hexpire : (bracket tokens columns spot aside).expireKeys? =
      some (bracket tokens columns spot aside) := by
    have hnone : expire? spot none = some none := rfl
    simp [expireKeys?, bracket, hkept, hnone]
  rw [settle?, hpass, hexpire, Option.map_some, closeBlocksTo, if_pos hflow]

/-- **An empty collection is cut into its brackets,** with the rest of its line. -/
theorem steps_brackets {opening closing : Char} {first last : Token}
    (hopening : ∀ (lx : Lexer) rest, lx.token? opening rest = lx.openBracket? first)
    (hclosing : ∀ (lx : Lexer) rest, lx.token? closing rest = lx.closeBracket? last)
    (hresumes : ∀ rest, Resumes (closing :: rest)) {column' : Nat} (hcolumn : indent < column)
    (hnext : Resumes next) :
    Steps
      (row tokens (indent :: up)
        ⟨opening :: closing :: '\n' :: (spaces column' ++ next), line, column⟩ allowed)
      ((row (last :: first :: tokens) (indent :: up)
        ⟨next, line + 1, column'⟩).closeBlocksTo column') := by
  have hexpire (text : List Char) : expire? ⟨next, line + 1, column'⟩
      (noted tokens (indent :: up) ⟨text, line, column⟩ allowed) = some none :=
    expire?_behindSign text hcolumn (Nat.lt_succ_self line)
  have hkept (text : List Char) :
      expire? ⟨closing :: '\n' :: (spaces column' ++ next), line, column + 1⟩
        (noted tokens (indent :: up) ⟨text, line, column⟩ allowed) =
      some (noted tokens (indent :: up) ⟨text, line, column⟩ allowed) :=
    expire?_noted_of_le rfl (Nat.add_le_add_left (by decide) column)
  generalize htext : opening :: closing :: '\n' :: (spaces column' ++ next) = text
  have hopened : (row tokens (indent :: up) ⟨text, line, column⟩ allowed).token? opening
      (closing :: '\n' :: (spaces column' ++ next)) =
      some (bracket (first :: tokens) (indent :: up)
        ⟨closing :: '\n' :: (spaces column' ++ next), line, column + 1⟩
        (noted tokens (indent :: up) ⟨text, line, column⟩ allowed)) := by
    rw [hopening, openBracket?, noteKey?_row, ← htext]
    rfl
  have hclosed : (bracket (first :: tokens) (indent :: up)
      ⟨closing :: '\n' :: (spaces column' ++ next), line, column + 1⟩
      (noted tokens (indent :: up) ⟨text, line, column⟩ allowed)).token? closing
        ('\n' :: (spaces column' ++ next)) =
      some (row (last :: first :: tokens) (indent :: up)
        ⟨'\n' :: (spaces column' ++ next), line, column + 2⟩ false
        (noted tokens (indent :: up) ⟨text, line, column⟩ allowed)) := by
    rw [hclosing]
    rfl
  have hsettled : (row (last :: first :: tokens) (indent :: up)
      ⟨'\n' :: (spaces column' ++ next), line, column + 2⟩ false
      (noted tokens (indent :: up) ⟨text, line, column⟩ allowed)).settle? =
      some ((row (last :: first :: tokens) (indent :: up)
        ⟨next, line + 1, column'⟩).closeBlocksTo column') :=
    settle?_eq (passGap_line hnext column') (hexpire text)
  have hlength : next.length ≤ (spaces column' ++ next).length := by simp
  refine .tail (.single (.intro htext.symm hopened (settle?_bracket (hresumes _) (hkept text)) ?_))
    (.intro rfl hclosed hsettled ?_)
  · rw [← htext]
    exact Nat.lt_succ_self _
  · rw [closeBlocksTo_spot]
    exact Nat.lt_succ_of_le (Nat.le_succ_of_le hlength)

/-- A sequence without items is cut into its brackets. -/
theorem cuts_emptySequence (place : Value.Place) : Cuts place (.sequence []) := by
  intro line tokens up indent column column' allowed next hbegins _ hnext
  cases hbegins with
  | onLine _ hcolumn =>
      exact ⟨line + 1, steps_brackets (fun lx rest => by simp [token?, isDocumentMark])
        (fun lx rest => by simp [token?, isDocumentMark])
        (fun rest => resumes_cons (by decide) (by decide) (by decide)) hcolumn hnext⟩
  | block hblock => cases hblock

/-- A mapping without entries is cut into its braces. -/
theorem cuts_emptyMapping (place : Value.Place) : Cuts place (.mapping []) := by
  intro line tokens up indent column column' allowed next hbegins _ hnext
  cases hbegins with
  | onLine _ hcolumn =>
      exact ⟨line + 1, steps_brackets (fun lx rest => by simp [token?, isDocumentMark])
        (fun lx rest => by simp [token?, isDocumentMark])
        (fun rest => resumes_cons (by decide) (by decide) (by decide)) hcolumn hnext⟩
  | block hblock => cases hblock

/-! ### Where values begin -/

/-- **A value begins behind its key,** on the same line or, if it takes lines of its own, on the
next one. -/
theorem passGap_afterKey {v : Value} (h : v.Ordinary) (rest : List Char) (line : Nat)
    (hcolumn : indent ≤ column) :
    ∃ line' column' allowed', passGap false (Value.blockBefore .afterKey false indent v rest) line
        column false false = (⟨v.body .afterKey indent rest, line', column'⟩, allowed') ∧
      Begins .afterKey indent v column' allowed' ∧ indent ≤ column' := by
  have hresumes := Value.resumes_body h .afterKey indent rest
  rw [Value.blockBefore_eq h]
  cases hblock : v.isBlock with
  | false =>
      exact ⟨line, column + 1, false, (passGap_spaces 1).trans (passGap_resumes hresumes),
        .onLine hblock (Nat.lt_succ_of_le hcolumn), by omega⟩
  | true =>
      have hindent : indent ≤ v.blockIndent .afterKey indent := by
        cases v <;> simp [Value.blockIndent, Value.sequenceIndent]
      exact ⟨line + 1, _, true, passGap_line hresumes _, .block hblock, hindent⟩

/-- A value stands in a gap behind its key. -/
theorem atGap_afterKey {v : Value} (h : v.Ordinary) (indent : Nat) (rest : List Char) :
    atGap (Value.blockBefore .afterKey false indent v rest) = true := by
  rw [Value.blockBefore_eq h]
  cases v.isBlock <;> rfl

/-- A value begins behind its sign, two columns further in. -/
theorem begins_sameLine {place : Value.Place} (hplace : place ≠ .afterKey) (indent : Nat)
    (v : Value) : Begins place indent v (indent + 2) true := by
  cases hblock : v.isBlock with
  | false => exact .onLine hblock (by omega)
  | true =>
      have hindent : v.blockIndent place indent = indent + 2 := by
        cases v <;> cases place <;> first | rfl | exact absurd rfl hplace
      exact hindent ▸ .block hblock

/-! ### Items and entries -/

/-- From the colon behind a key to the value. -/
theorem exists_step_noted (hopens : Opens .openBlockMapping indent tokens columns tokens' up)
    (t : Token) {text : List Char} {line' : Nat} {v : Value} (hv : v.Ordinary)
    (hcolumn : indent ≤ column) :
    ∃ last column' allowed', Begins .afterKey indent v column' allowed' ∧ Step
      (row (t :: tokens) columns
        ⟨':' :: Value.blockBefore .afterKey false indent v rest, line, column⟩ false
        (noted tokens columns ⟨text, line', indent⟩ true))
      (row (.value :: t :: .key :: tokens') (indent :: up)
        ⟨v.body .afterKey indent rest, last, column'⟩ allowed') := by
  obtain ⟨last, column', allowed', hpass, hbegins, hcolumn'⟩ :=
    passGap_afterKey hv rest line (Nat.le_succ_of_le hcolumn)
  have hcut : (row (t :: tokens) columns
      ⟨':' :: Value.blockBefore .afterKey false indent v rest, line, column⟩ false
      (noted tokens columns ⟨text, line', indent⟩ true)).token? ':'
        (Value.blockBefore .afterKey false indent v rest) = _ :=
    (token?_colon (atGap_afterKey hv indent rest)).trans (value?_noted hopens t)
  have hstep := step_row rfl hcut hpass rfl (Nat.lt_succ_self _)
  rw [closeBlocksTo_innermost hcolumn'] at hstep
  exact ⟨last, column', allowed', hbegins, hstep⟩

/-- From a sign at the indentation of a collection to what stands behind it. -/
theorem step_sign {sign : Char} {token : Token} {allowed : Bool} (line : Nat)
    (hcut : (row tokens columns ⟨sign :: ' ' :: rest, line, indent⟩ allowed).token? sign
        (' ' :: rest) =
      some (row (token :: tokens') (indent :: up) ⟨' ' :: rest, line, indent + 1⟩))
    (hrest : Resumes rest) :
    Step (row tokens columns ⟨sign :: ' ' :: rest, line, indent⟩ allowed)
      (row (token :: tokens') (indent :: up) ⟨rest, line, indent + 2⟩) := by
  have hpass : passGap false (' ' :: rest) line (indent + 1) true false =
      (⟨rest, line, indent + 2⟩, true) := (passGap_spaces 1).trans (passGap_resumes hrest)
  have hstep := step_row rfl hcut hpass rfl (Nat.lt_succ_self _)
  rwa [closeBlocksTo_innermost (Nat.le_add_right _ _)] at hstep

/-- **One item is cut into its tokens.** -/
theorem steps_item (line : Nat) (hopens : Opens .openBlockSequence indent tokens columns tokens' up)
    {v : Value} (hv : v.Ordinary) (hcuts : Cuts .afterDash v) {column' : Nat}
    (hcolumn' : column' ≤ indent) (hnext : Resumes next) :
    ∃ line', Steps
      (row tokens columns ⟨'-' :: Value.blockBefore .afterDash false indent v
        (spaces column' ++ next), line, indent⟩)
      ((row ((v.tokens false).reverse ++ .item :: tokens') (indent :: up)
        ⟨next, line', column'⟩).closeBlocksTo column') := by
  have hdash : Value.Place.afterDash ≠ .afterKey := by decide
  rw [Value.blockBefore_sameLine hv hdash]
  have hitem := step_sign line ((token?_dash _).trans (item?_row hopens))
    (Value.resumes_body hv .afterDash indent (spaces column' ++ next))
  obtain ⟨line', hvalue⟩ := hcuts line (.item :: tokens') up (begins_sameLine hdash indent v)
    hcolumn' hnext
  exact ⟨line', .trans (.single hitem) hvalue⟩

/-- **One entry is cut into its tokens.** -/
theorem steps_entry (line : Nat) (hopens : Opens .openBlockMapping indent tokens columns tokens' up)
    (key : String) {v : Value} (hv : v.Ordinary) (hcuts : ∀ place, Cuts place v) {column' : Nat}
    (hcolumn' : column' ≤ indent) (hnext : Resumes next) :
    ∃ line', Steps
      (row tokens columns
        ⟨Value.entryText indent (.string key) v (spaces column' ++ next), line, indent⟩)
      ((row ((v.tokens (Value.string key).isShortKey).reverse ++
          .value :: .ofText key.toList :: .key :: tokens') (indent :: up)
        ⟨next, line', column'⟩).closeBlocksTo column') := by
  rw [Value.entryText]
  split
  · rename_i hshort
    obtain ⟨hbreaks, hlength⟩ := length_key_le hshort (indent + 2)
    rw [Value.lineText_key hshort, hshort]
    have hkey := step_key tokens line (fun _ => hopens.le) hbreaks
      (atGap_afterKey hv indent (spaces column' ++ next)) rfl hlength
    obtain ⟨last, column, allowed, hbegins, hcolon⟩ := exists_step_noted hopens
      (.ofText key.toList) hv (Nat.le_add_right indent _)
    obtain ⟨line', hvalue⟩ := hcuts .afterKey _ _ _ hbegins hcolumn' hnext
    exact ⟨line', .trans (.tail (.single hkey) hcolon) hvalue⟩
  · rename_i hlong
    have hsign : Value.Place.afterSign ≠ .afterKey := by decide
    rw [Value.blockBefore_sameLine (.string key) hsign, Value.blockBefore_sameLine hv hsign,
      eq_false_of_ne_true hlong]
    have hcolon : Resumes (':' :: ' ' :: v.body .afterSign indent (spaces column' ++ next)) :=
      resumes_cons (by decide) (by decide) (by decide)
    have hquestion := step_sign line ((token?_question rfl).trans (key?_row hopens))
      (Value.resumes_body (.string key) .afterSign indent
        (spaces indent ++ ':' :: ' ' :: v.body .afterSign indent (spaces column' ++ next)))
    obtain ⟨last, hkey⟩ := cuts_string .afterSign key line (.key :: tokens') up
      (begins_sameLine hsign indent _) (Nat.le_refl indent) hcolon
    rw [closeBlocksTo_innermost (Nat.le_refl _)] at hkey
    have hvalue := step_sign last ((token?_colon rfl).trans
        (value?_row (.ofText key.toList :: .key :: tokens') up indent))
      (Value.resumes_body hv .afterSign indent (spaces column' ++ next))
    obtain ⟨line', hend⟩ := hcuts .afterSign _ _ _ (begins_sameLine hsign indent v) hcolumn' hnext
    exact ⟨line', .trans (.tail (.trans (.single hquestion) hkey) hvalue) hend⟩

/-! ### Collections -/

/-- Whether items are cut into their tokens, wherever they begin, before lines that are not indented
further. -/
def CutsItems (items : List Value) : Prop :=
  ∀ (line : Nat) {indent column' : Nat} {tokens tokens' : List Token} {columns up : List Nat}
    {next : List Char}, Opens .openBlockSequence indent tokens columns tokens' up →
    column' ≤ indent → Resumes next → ∃ line', Steps
      (row tokens columns
        ⟨Value.itemsBefore [] indent items (spaces column' ++ next), line, indent⟩)
      ((row ((Value.itemsTokens items).reverse ++ tokens') (indent :: up)
        ⟨next, line', column'⟩).closeBlocksTo column')

/-- Whether entries are cut into their tokens, wherever they begin, before lines that are not
indented further. -/
def CutsEntries (entries : Mapping) : Prop :=
  ∀ (line : Nat) {indent column' : Nat} {tokens tokens' : List Token} {columns up : List Nat}
    {next : List Char}, Opens .openBlockMapping indent tokens columns tokens' up →
    column' ≤ indent → Resumes next → ∃ line', Steps
      (row tokens columns
        ⟨Value.entriesBefore [] indent entries (spaces column' ++ next), line, indent⟩)
      ((row ((Value.entriesTokens entries).reverse ++ tokens') (indent :: up)
        ⟨next, line', column'⟩).closeBlocksTo column')

/-- Items are cut if each of them is, by induction over the items. -/
theorem cutsItems_of_forall {items : List Value} (hitems : ∀ item ∈ items, item.Ordinary)
    (hcuts : ∀ item ∈ items, ∀ place, Cuts place item) (hne : items ≠ []) : CutsItems items := by
  induction items with
  | nil => exact absurd rfl hne
  | cons item rest ih =>
      obtain ⟨hitem, hrest⟩ := List.forall_mem_cons.1 hitems
      obtain ⟨hcut, hmore⟩ := List.forall_mem_cons.1 hcuts
      intro line indent column' tokens tokens' columns up next hopens hcolumn' hnext
      have htokens : (Value.itemsTokens (item :: rest)).reverse ++ tokens' =
          (Value.itemsTokens rest).reverse ++
            ((item.tokens false).reverse ++ .item :: tokens') := by
        simp [Value.itemsTokens]
      rw [htokens, Value.itemsBefore, List.nil_append]
      by_cases hsome : rest = []
      · subst hsome
        exact steps_item line hopens hitem (hcut _) hcolumn' hnext
      · -- The next item is indented like this one, so the sequence stays open.
        have hnext' := Value.resumes_itemsBefore hsome indent (spaces column' ++ next)
        obtain ⟨mid, hfirst⟩ := steps_item line hopens hitem (hcut _)
          (Nat.le_refl indent) hnext'
        rw [closeBlocksTo_innermost (Nat.le_refl indent)] at hfirst
        obtain ⟨line', hsteps⟩ := ih hrest hmore hsome mid .later hcolumn' hnext
        rw [Value.itemsBefore_lead _ _ hsome]
        exact ⟨line', .trans hfirst hsteps⟩

/-- Entries with texts as keys are cut if each of their values is. -/
theorem cutsEntries_of_named {entries : Mapping} (hnamed : Named entries)
    (hvalues : ∀ entry ∈ entries, entry.2.Ordinary)
    (hcuts : ∀ entry ∈ entries, ∀ place, Cuts place entry.2) (hne : entries ≠ []) :
    CutsEntries entries := by
  induction hnamed with
  | nil => exact absurd rfl hne
  | @cons key v rest hkey hnamed ih =>
      obtain ⟨hvalue, hrest⟩ := List.forall_mem_cons.1 hvalues
      obtain ⟨hcut, hmore⟩ := List.forall_mem_cons.1 hcuts
      intro line indent column' tokens tokens' columns up next hopens hcolumn' hnext
      have htokens : (Value.entriesTokens ((.string key, v) :: rest)).reverse ++ tokens' =
          (Value.entriesTokens rest).reverse ++
            ((v.tokens (Value.string key).isShortKey).reverse ++
              .value :: .ofText key.toList :: .key :: tokens') := by
        simp [Value.entriesTokens, Value.tokens]
      rw [htokens, Value.entriesBefore_cons, List.nil_append]
      by_cases hsome : rest = []
      · subst hsome
        exact steps_entry line hopens key hvalue hcut hcolumn' hnext
      · -- The next entry is indented like this one, so the mapping stays open.
        have hnext' := Value.resumes_entriesBefore hnamed hsome indent (spaces column' ++ next)
        obtain ⟨mid, hfirst⟩ := steps_entry line hopens key hvalue hcut
          (Nat.le_refl indent) hnext'
        rw [closeBlocksTo_innermost (Nat.le_refl indent)] at hfirst
        obtain ⟨line', hsteps⟩ := ih hrest hmore hsome mid .later hcolumn' hnext
        rw [Value.entriesBefore_lead _ _ hsome]
        exact ⟨line', .trans hfirst hsteps⟩

/-- A collection opens further in than the one around it. -/
theorem opens_inner (opening : Token) (tokens : List Token) {indent inner : Nat} (up : List Nat)
    (h : indent < inner) :
    Opens opening inner tokens (indent :: up) (opening :: tokens) (indent :: up) := by
  refine .first ?_
  rintro outer ⟨⟩
  exact h

/-- A sequence opens where it is indented, and not behind its key. -/
theorem cuts_sequence {items : List Value} (h : CutsItems items) (hne : items ≠ [])
    (place : Value.Place) : Cuts place (.sequence items) := by
  intro line tokens up indent column column' allowed next hbegins hcolumn' hnext
  cases items with
  | nil => exact absurd rfl hne
  | cons item items =>
      cases hbegins with
      | onLine hline => cases hline
      | block =>
          by_cases hplace : place = .afterKey
          · subst hplace
            exact h line .later hcolumn' hnext
          · have hinner : Value.sequenceIndent place false indent = indent + 2 := by
              cases place <;> first | rfl | exact absurd rfl hplace
            have hfree : (place == .afterKey) = false := beq_eq_false_iff_ne.2 hplace
            obtain ⟨line', hsteps⟩ := h line
              (opens_inner .openBlockSequence tokens up (by omega : indent < indent + 2))
              (Nat.le_add_right_of_le hcolumn') hnext
            rw [closeBlocksTo_of_lt (Nat.lt_of_le_of_lt hcolumn' (by omega))] at hsteps
            refine ⟨line', ?_⟩
            have htokens : ((Value.sequence (item :: items)).tokens false).reverse ++ tokens =
                .closeBlock :: ((Value.itemsTokens (item :: items)).reverse ++
                  .openBlockSequence :: tokens) := by
              simp [Value.tokens]
            rw [hfree, htokens, Value.blockIndent, Value.body, hinner]
            exact hsteps

/-- A mapping is cut if its entries are, as an item on the line of its dash or else on lines of its
own. -/
theorem cuts_mapping {entries : Mapping} (h : CutsEntries entries) (hne : entries ≠ [])
    (place : Value.Place) : Cuts place (.mapping entries) := by
  intro line tokens up indent column column' allowed next hbegins hcolumn' hnext
  cases entries with
  | nil => exact absurd rfl hne
  | cons entry entries =>
      cases hbegins with
      | onLine hline => cases hline
      | block =>
          obtain ⟨line', hsteps⟩ := h line
            (opens_inner .openBlockMapping tokens up (by omega : indent < indent + 2))
            (Nat.le_add_right_of_le hcolumn') hnext
          rw [closeBlocksTo_of_lt (Nat.lt_of_le_of_lt hcolumn' (by omega))] at hsteps
          refine ⟨line', ?_⟩
          have htokens (free : Bool) :
              ((Value.mapping (entry :: entries)).tokens free).reverse ++ tokens =
                .closeBlock :: ((Value.entriesTokens (entry :: entries)).reverse ++
                  .openBlockMapping :: tokens) := by
            simp [Value.tokens]
          rw [htokens]
          exact hsteps

/-- **A written value is cut into its tokens.** -/
theorem cuts_of_ordinary {v : Value} (h : v.Ordinary) (place : Value.Place) : Cuts place v := by
  induction h generalizing place with
  | string s => exact cuts_string place s
  | bool b => exact cuts_bool place b
  | @sequence items hitems ih =>
      by_cases hne : items = []
      · subst hne
        exact cuts_emptySequence place
      · exact cuts_sequence (cutsItems_of_forall hitems ih hne) hne place
  | @mapping entries hnamed hvalues ih =>
      by_cases hne : entries = []
      · subst hne
        exact cuts_emptyMapping place
      · exact cuts_mapping (cutsEntries_of_named hnamed hvalues ih hne) hne place

end Lexer

end ConfigGraft.Yaml
