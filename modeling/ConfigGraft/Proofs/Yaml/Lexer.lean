import ConfigGraft.Proofs.Yaml.Character

/-!
# Steps of the lexer

Before a token is cut off, the lexer passes over what stands before it, gives up possible keys, and
closes the collections that the place is no longer in. So its states are best looked at there, where
a token begins: `settle?` leads to such a state, and a `Step` from one to the next.

Written documents are read without brackets, and between their tokens mostly no key is possible.
Such a state is a `row`.

## Main results

* `Lexer.Reads.of_steps` — a text is read from the state that steps lead to;
* `Lexer.step_row` — what a step from a row to a row is made of.
-/

namespace ConfigGraft.Yaml

namespace Lexer

/-! ### Settled states -/

/-- Goes to the next token, as far as its place says what is to be done. -/
def settle? (lx : Lexer) : Option Lexer :=
  lx.toNextToken.expireKeys?.map fun lx => lx.closeBlocksTo lx.spot.column

/-- One step of the lexer: it settles before the next token and reads it, or is at the end. -/
theorem run?_succ (bound : Nat) (lx : Lexer) :
    run? (bound + 1) lx = lx.settle?.bind fun lx =>
      match lx.spot.rest with
      | [] => lx.closeBlocks.dropKey?.map fun lx => lx.tokens.reverse
      | c :: rest => (lx.token? c rest).bind (run? bound) := by
  rw [run?, settle?]
  cases lx.toNextToken.expireKeys? with
  | none => rfl
  | some lx =>
      simp only [Option.bind_eq_bind, Option.bind_some, Option.map_some]
      generalize closeBlocksTo lx.spot.column lx = lx
      cases lx.spot.rest with
      | nil => cases lx.closeBlocks.dropKey? <;> rfl
      | cons c rest => rfl

/-- One token is cut off, and the state settles again. -/
inductive Step : Lexer → Lexer → Prop
  | intro {lx cut next : Lexer} {c : Char} {rest : List Char} :
      lx.spot.rest = c :: rest → lx.token? c rest = some cut → cut.settle? = some next →
      next.spot.rest.length < lx.spot.rest.length → Step lx next

/-- One step or more. -/
abbrev Steps : Lexer → Lexer → Prop := Relation.TransGen Step

/-- A settled state from which the rest of the text is read. The bound has to be above the number of
its characters. -/
def Reads (lx : Lexer) (out : List Token) : Prop :=
  ∀ bound start, lx.spot.rest.length < bound → settle? start = some lx → run? bound start = some out

variable {lx next : Lexer} {out : List Token}

/-- At the end of the text the collections are closed that are still open. -/
theorem reads_end (hrest : lx.spot.rest = []) {last : Lexer}
    (hlast : lx.closeBlocks.dropKey? = some last) : Reads lx last.tokens.reverse := by
  intro bound start hbound hstart
  obtain ⟨bound, rfl⟩ : ∃ n, bound = n + 1 := ⟨bound - 1, by omega⟩
  rw [run?_succ, hstart, Option.bind_some, hrest]
  simp only [hlast, Option.map_some]

/-- What is read after a step is read before it. -/
theorem Reads.of_step (h : Reads next out) (hstep : Step lx next) : Reads lx out := by
  intro bound start hbound hstart
  obtain ⟨hrest, hcut, hsettle, hlength⟩ := hstep
  obtain ⟨bound, rfl⟩ : ∃ n, bound = n + 1 := ⟨bound - 1, by omega⟩
  rw [run?_succ, hstart, Option.bind_some, hrest]
  simp only [hcut, Option.bind_some]
  exact h bound _ (by omega) hsettle

/-- **A text is read from the state that steps lead to.** -/
theorem Reads.of_steps (h : Reads next out) (hsteps : Steps lx next) : Reads lx out := by
  induction hsteps with
  | single hstep => exact h.of_step hstep
  | tail _ hstep ih => exact ih (h.of_step hstep)

/-! ### Gaps between tokens -/

section Gaps

variable {text : List Char} {line column : Nat} {allowed : Bool}

/-- There is no gap where a token begins. -/
theorem passGap_resumes {inFlow : Bool} (h : Resumes text) :
    passGap inFlow text line column allowed false = (⟨text, line, column⟩, allowed) := by
  cases text with
  | nil => rfl
  | cons c text =>
      obtain ⟨hblank, hbreak, hcomment⟩ := h c rfl
      obtain ⟨hspace, htab⟩ := ne_of_isBlank hblank
      rw [passGap, if_neg (by simp [hbreak]), if_neg (by simp [hspace, htab]),
        if_neg (by simp [hcomment])]

/-- Spaces are passed, and add to the column. -/
theorem passGap_spaces (n : Nat) :
    passGap false (spaces n ++ text) line column allowed false =
      passGap false text line (column + n) allowed false := by
  induction n generalizing column with
  | zero => rfl
  | succ n ih =>
      have hspaces : spaces (n + 1) ++ text = ' ' :: (spaces n ++ text) := rfl
      have hcolumn : column + 1 + n = column + (n + 1) := by omega
      rw [hspaces, passGap, if_neg (by decide), if_pos (by simp), ih, hcolumn]

/-- Passing a gap does not add to the text. -/
theorem length_passGap_le (inFlow : Bool) (text : List Char) (line column : Nat)
    (allowed inComment : Bool) :
    (passGap inFlow text line column allowed inComment).1.rest.length ≤ text.length := by
  fun_induction passGap inFlow text line column allowed inComment with
  | case1 => exact Nat.le_refl _
  | case2 _ _ _ _ _ _ _ ih | case3 _ _ _ _ _ _ _ _ ih | case4 _ _ _ _ _ _ _ _ _ ih =>
      exact Nat.le_succ_of_le ih
  | case5 => exact Nat.le_refl _

/-- Behind a line feed a key may begin. -/
theorem passGap_line (h : Resumes text) (n : Nat) :
    passGap false ('\n' :: (spaces n ++ text)) line column allowed false =
      (⟨text, line + 1, n⟩, true) := by
  rw [passGap, if_pos (by decide), passGap_spaces, Nat.zero_add, passGap_resumes h]
  simp

end Gaps

/-! ### Rows -/

/-- A state outside of brackets, mostly one in which no key is possible yet. -/
def row (tokens : List Token) (columns : List Nat) (spot : Spot) (allowed : Bool := true)
    (pending : Option PendingKey := none) : Lexer :=
  { spot, tokens, count := tokens.length, columns, pending, keyAllowed := allowed }

section Rows

variable {tokens : List Token} {columns : List Nat} {spot : Spot} {allowed : Bool}
  {pending : Option PendingKey} {column : Nat}

@[simp] theorem row_spot : (row tokens columns spot allowed pending).spot = spot := rfl

@[simp] theorem row_count :
    (row tokens columns spot allowed pending).count = tokens.length := rfl

@[simp] theorem row_pending : (row tokens columns spot allowed pending).pending = pending := rfl

@[simp] theorem row_keyAllowed :
    (row tokens columns spot allowed pending).keyAllowed = allowed := rfl

@[simp] theorem row_inFlow : (row tokens columns spot allowed pending).inFlow = false := rfl

/-- Closing collections moves nothing. -/
@[simp] theorem closeBlocksTo_spot (lx : Lexer) (column : Nat) :
    (lx.closeBlocksTo column).spot = lx.spot := by
  rw [closeBlocksTo]
  split <;> rfl

/-- What is done before the next token, once its place is known. -/
theorem settle?_eq {spot' : Spot} {allowed' : Bool} {pending' : Option PendingKey}
    (hpass : passGap false spot.rest spot.line spot.column allowed false = (spot', allowed'))
    (hexpire : expire? spot' pending = some pending') :
    settle? (row tokens columns spot allowed pending) =
      some ((row tokens columns spot' allowed' pending').closeBlocksTo spot'.column) := by
  simp [settle?, toNextToken, expireKeys?, row, inFlow, hpass, hexpire]

/-- A place that is indented as far as the innermost collection is in it. -/
theorem closeBlocksTo_of_le {column : Nat}
    (h : ∀ inner, columns.head? = some inner → inner ≤ column) :
    (row tokens columns spot allowed pending).closeBlocksTo column =
      row tokens columns spot allowed pending := by
  cases columns with
  | nil => rfl
  | cons inner columns =>
      have hstay : ¬ column < inner := Nat.not_lt.2 (h inner rfl)
      simp [closeBlocksTo, row, inFlow, hstay]

/-- A collection is closed that is indented further. -/
theorem closeBlocksTo_of_lt {inner : Nat} (h : column < inner) :
    (row tokens (inner :: columns) spot allowed).closeBlocksTo column =
      (row (.closeBlock :: tokens) columns spot allowed).closeBlocksTo column := by
  have hclosed (l : List Nat) : Token.closeBlock :: (l.map (fun _ => .closeBlock) ++ tokens) =
      l.map (fun _ => .closeBlock) ++ .closeBlock :: tokens := by
    induction l with
    | nil => rfl
    | cons a l ih => rw [List.map_cons, List.cons_append, List.cons_append, ih]
  have htake : (inner :: columns).takeWhile (column < ·) =
      inner :: columns.takeWhile (column < ·) := List.takeWhile_cons_of_pos (decide_eq_true h)
  have hdrop : (inner :: columns).dropWhile (column < ·) = columns.dropWhile (column < ·) :=
    List.dropWhile_cons_of_pos (decide_eq_true h)
  have hcount : tokens.length + ((columns.takeWhile (column < ·)).length + 1) =
      tokens.length + 1 + (columns.takeWhile (column < ·)).length := by omega
  rw [closeBlocksTo, if_neg (by simp), closeBlocksTo, if_neg (by simp)]
  simp only [row, htake, hdrop, List.map_cons, List.cons_append, hclosed, List.length_cons, hcount]

/-- A step from a row to a row: one token is cut off, and the gap behind it is passed over. -/
theorem step_row {tokens' : List Token} {columns' : List Nat} {spot' next : Spot}
    {allowed' allowed'' : Bool} {pending' pending'' : Option PendingKey} {c : Char}
    {rest : List Char} (hrest : spot.rest = c :: rest)
    (hcut : (row tokens columns spot allowed pending).token? c rest =
      some (row tokens' columns' spot' allowed' pending'))
    (hpass : passGap false spot'.rest spot'.line spot'.column allowed' false = (next, allowed''))
    (hexpire : expire? next pending' = some pending'')
    (hlength : spot'.rest.length < spot.rest.length) :
    Step (row tokens columns spot allowed pending)
      ((row tokens' columns' next allowed'' pending'').closeBlocksTo next.column) := by
  have hle : next.rest.length ≤ spot'.rest.length := by
    have hpassed := length_passGap_le false spot'.rest spot'.line spot'.column allowed' false
    rwa [hpass] at hpassed
  refine .intro hrest hcut (settle?_eq hpass hexpire) ?_
  rw [closeBlocksTo_spot]
  exact Nat.lt_of_le_of_lt hle hlength

/-- The key that is noted where a token begins. -/
def noted (tokens : List Token) (columns : List Nat) (spot : Spot) (allowed : Bool) :
    Option PendingKey :=
  if allowed then
    some {
      required := columns.head? == some spot.column
      number := tokens.length
      line := spot.line
      column := spot.column }
  else none

/-- Outside brackets, what begins here is noted as a possible key. -/
theorem noteKey?_row :
    (row tokens columns spot allowed).noteKey? =
      some (row tokens columns spot allowed (noted tokens columns spot allowed)) := by
  cases allowed <;> simp [noteKey?, dropKey?, giveUp?, noted, row, inFlow]

/-- A key is given up on the next line, unless it had to be one. -/
theorem expire?_noted_of_lt {spot' : Spot} (hcolumn : columns.head? ≠ some spot.column)
    (hline : spot.line < spot'.line) :
    expire? spot' (noted tokens columns spot allowed) = some none := by
  cases allowed with
  | false => rfl
  | true =>
      have hrequired : (columns.head? == some spot.column) = false := beq_eq_false_iff_ne.2 hcolumn
      simp [noted, expire?, giveUp?, hline, hrequired]

/-- A key is still possible on its line, if it is not long. -/
theorem expire?_noted_of_le {spot' : Spot} (hline : spot'.line = spot.line)
    (hcolumn : spot'.column ≤ spot.column + 1024) :
    expire? spot' (noted tokens columns spot allowed) =
      some (noted tokens columns spot allowed) := by
  cases allowed with
  | false => rfl
  | true =>
      have hstays : ¬ (spot.line < spot'.line ∨ spot.column + 1024 < spot'.column) := by omega
      rw [noted, if_pos rfl, expire?, if_neg hstays]

end Rows

end Lexer

end ConfigGraft.Yaml
