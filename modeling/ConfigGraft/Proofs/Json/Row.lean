import ConfigGraft.Proofs.Json.Quoted
import ConfigGraft.Proofs.Json.Regular

/-!
# The tokens of a written value

A writer puts blanks between the tokens of a value, and leaves out nothing that a token needs: a
string stands in quotes, and behind a number comes a comma or a new line. So the tokens of a regular
value are read from its text one after the other.

## Main results

* `Token.Lexes.readAll?_eq` — a text that lexes to a row of tokens is read as the row;
* `Value.lexes_writeBefore` — **a written value lexes to its tokens.**
-/

namespace ConfigGraft.Json

namespace Value

mutual

/-- The tokens of a value, before those that follow it. -/
def tokensBefore : Value → List Token → List Token
  | .null, rest => .null :: rest
  | .bool b, rest => .bool b :: rest
  | .number text, rest => .number text.toList :: rest
  | .string s, rest => .string s.toList :: rest
  | .array [], rest => .openArray :: .closeArray :: rest
  | .array (item :: more), rest =>
    .openArray :: tokensBefore item (itemTokens more (.closeArray :: rest))
  | .object [], rest => .openObject :: .closeObject :: rest
  | .object ((name, value) :: more), rest =>
    .openObject :: .string name.toList :: .colon ::
      tokensBefore value (entryTokens more (.closeObject :: rest))

/-- The tokens of the items behind the first, before those that follow them. -/
def itemTokens : List Value → List Token → List Token
  | [], rest => rest
  | item :: more, rest => .comma :: tokensBefore item (itemTokens more rest)

/-- The tokens of the entries behind the first, before those that follow them. -/
def entryTokens : List (String × Value) → List Token → List Token
  | [], rest => rest
  | (name, value) :: more, rest =>
    .comma :: .string name.toList :: .colon :: tokensBefore value (entryTokens more rest)

end

end Value

namespace Token

/-- A text **lexes** to a row of tokens: the tokens are read from it one after the other, and there
are blanks between them. -/
inductive Lexes : List Char → List Token → Prop
  | nil : Lexes [] []
  | blank {c : Char} {cs : List Char} {tokens : List Token} :
      isBlank c = true → Lexes cs tokens → Lexes (c :: cs) tokens
  | token {c : Char} {text rest : List Char} {t : Token} {tokens : List Token} :
      isBlank c = false → read? (c :: (text ++ rest)) = some (t, rest) → Lexes rest tokens →
      Lexes (c :: (text ++ rest)) (t :: tokens)

variable {cs rest text : List Char} {tokens : List Token}

/-- A text that lexes to a row is read as the row, for any bound that its length is below. -/
theorem Lexes.readUpTo?_eq (h : Lexes cs tokens) {bound : Nat} (hbound : cs.length < bound) :
    readUpTo? bound cs = some tokens := by
  induction h generalizing bound with
  | nil =>
      obtain ⟨bound, rfl⟩ := Nat.exists_eq_succ_of_ne_zero (Nat.ne_of_gt hbound)
      rfl
  | @blank c cs tokens hblank _ ih =>
      obtain ⟨bound, rfl⟩ := Nat.exists_eq_succ_of_ne_zero (Nat.ne_zero_of_lt hbound)
      have hrest := ih (Nat.lt_of_succ_lt hbound)
      rw [readUpTo?] at hrest ⊢
      rwa [List.dropWhile_cons_of_pos hblank]
  | @token c text rest t tokens hblank hread _ ih =>
      obtain ⟨bound, rfl⟩ := Nat.exists_eq_succ_of_ne_zero (Nat.ne_zero_of_lt hbound)
      rw [List.length_cons, List.length_append] at hbound
      have hlength : rest.length < bound := by omega
      have hrest := ih hlength
      have hdrop : (c :: (text ++ rest)).dropWhile isBlank = c :: (text ++ rest) :=
        List.dropWhile_cons_of_neg (by simp [hblank])
      rw [readUpTo?, hdrop]
      simp [hread, hrest]

/-- What lexes is read as its tokens. -/
theorem Lexes.readAll?_eq (h : Lexes cs tokens) : readAll? cs = some tokens :=
  h.readUpTo?_eq (Nat.lt_succ_self _)

/-- One character that is a token. -/
theorem Lexes.mark {c : Char} {t : Token} (hblank : isBlank c = false)
    (hread : read? (c :: cs) = some (t, cs)) (h : Lexes cs tokens) :
    Lexes (c :: cs) (t :: tokens) := @Lexes.token c [] cs t tokens hblank hread h

/-- A new line and its indent add no token. -/
theorem Lexes.onNewline (h : Lexes cs tokens) (level : Nat) :
    Lexes (newline level ++ cs) tokens := by
  refine .blank rfl ?_
  generalize 2 * level = n
  induction n with
  | zero => exact h
  | succ n ih => exact .blank rfl ih

/-- A quoted text adds one token. -/
theorem Lexes.quoted (h : Lexes cs tokens) (s : String) :
    Lexes (quote s ++ cs) (.string s.toList :: tokens) := by
  have hread : read? ('"' :: ((s.toList.flatMap escapeChar ++ ['"']) ++ cs)) =
      some (.string s.toList, cs) := by
    rw [List.append_assoc, List.singleton_append, read?, readString?_quote]
    rfl
  exact .token rfl hread h

/-- The name of an entry, up to its value. -/
theorem Lexes.named (h : Lexes cs tokens) (name : String) :
    Lexes (quote name ++ ':' :: ' ' :: cs) (.string name.toList :: .colon :: tokens) := by
  have hblank : Lexes (' ' :: cs) tokens := .blank rfl h
  exact Lexes.quoted (.mark rfl rfl hblank) name

/-- What a number begins with is no blank, and begins no other token. -/
theorem IsNumber.exists_head (h : IsNumber text) :
    ∃ c more, text = c :: more ∧ isBlank c = false ∧
      ∀ d ∈ ['[', ']', '{', '}', ',', ':', 'n', 't', 'f', '"'], c ≠ d := by
  have hhead : ∃ c more, text = c :: more ∧ (c.isDigit || c == '-') = true := by
    cases h with
    | positive hunsigned =>
        obtain ⟨c, more, rfl, hdigit⟩ := hunsigned.exists_digit
        exact ⟨c, more, rfl, by rw [hdigit, Bool.true_or]⟩
    | negative => exact ⟨_, _, rfl, rfl⟩
  obtain ⟨c, more, rfl, hc⟩ := hhead
  refine ⟨c, more, rfl, ?_, ?_⟩
  · rw [← Bool.not_eq_true]
    intro hblank
    simp only [isBlank, Bool.or_eq_true, beq_iff_eq] at hblank
    rcases hblank with ((rfl | rfl) | rfl) | rfl <;> revert hc <;> decide
  · rintro d hd rfl
    have hnone : ['[', ']', '{', '}', ',', ':', 'n', 't', 'f', '"'].all
        (fun d => !(d.isDigit || d == '-')) = true := by decide
    have hother := List.all_eq_true.1 hnone c hd
    rw [hc] at hother
    cases hother

/-- A number adds one token where it stops. -/
theorem Lexes.number (h : Lexes cs tokens) (htext : IsNumber text) (hcs : Stops goesOn cs) :
    Lexes (text ++ cs) (.number text :: tokens) := by
  have hread := htext.readNumber?_append hcs
  obtain ⟨c, more, rfl, hblank, hhead⟩ := htext.exists_head
  refine .token hblank ?_ h
  rw [← List.cons_append, read?.eq_def]
  split
  all_goals first
    | exact absurd (List.cons.inj ‹_›).1 (hhead _ (by decide))
    | rw [hread]; rfl

end Token

/-! ### Written values -/

namespace Value

open Token

mutual

/-- A value has a token. -/
theorem length_lt_tokensBefore (v : Value) (rest : List Token) :
    rest.length < (v.tokensBefore rest).length := by
  match v with
  | .null | .bool _ | .number _ | .string _ => simp [tokensBefore]
  | .array [] =>
      simp only [tokensBefore, List.length_cons]
      omega
  | .array (item :: more) =>
      have hitem := length_lt_tokensBefore item (itemTokens more (.closeArray :: rest))
      have hmore := length_le_itemTokens more (.closeArray :: rest)
      simp only [tokensBefore, List.length_cons] at hmore ⊢
      omega
  | .object [] =>
      simp only [tokensBefore, List.length_cons]
      omega
  | .object ((name, value) :: more) =>
      have hvalue := length_lt_tokensBefore value (entryTokens more (.closeObject :: rest))
      have hmore := length_le_entryTokens more (.closeObject :: rest)
      simp only [tokensBefore, List.length_cons] at hmore ⊢
      omega

/-- The items of a list add to the tokens. -/
theorem length_le_itemTokens (items : List Value) (rest : List Token) :
    rest.length ≤ (itemTokens items rest).length := by
  match items with
  | [] => exact Nat.le_refl _
  | item :: more =>
      have hitem := length_lt_tokensBefore item (itemTokens more rest)
      have hmore := length_le_itemTokens more rest
      simp only [itemTokens, List.length_cons]
      omega

/-- So do the entries of an object. -/
theorem length_le_entryTokens (entries : Object) (rest : List Token) :
    rest.length ≤ (entryTokens entries rest).length := by
  match entries with
  | [] => exact Nat.le_refl _
  | (name, value) :: more =>
      have hvalue := length_lt_tokensBefore value (entryTokens more rest)
      have hmore := length_le_entryTokens more rest
      simp only [entryTokens, List.length_cons]
      omega

end

/-- A number stops at a new line. -/
theorem stops_newline (level : Nat) (cs : List Char) : Stops goesOn (newline level ++ cs) :=
  .of_cons rfl _

/-- A number stops at the items behind it. -/
theorem stops_writeItems {rest : List Char} (level : Nat) (items : List Value)
    (h : Stops goesOn rest) : Stops goesOn (writeItems level items rest) := by
  cases items with
  | nil => rwa [writeItems]
  | cons item more =>
      rw [writeItems]
      exact .of_cons rfl _

/-- It stops at the entries behind it. -/
theorem stops_writeEntries {rest : List Char} (level : Nat) (entries : Object)
    (h : Stops goesOn rest) : Stops goesOn (writeEntries level entries rest) := by
  cases entries with
  | nil => rwa [writeEntries]
  | cons entry more =>
      rw [writeEntries]
      exact .of_cons rfl _

mutual

/-- **A written value lexes to its tokens.** -/
theorem lexes_writeBefore (level : Nat) (v : Value) (hv : v.Regular) {rest : List Char}
    {tokens : List Token} (hstop : Stops goesOn rest) (h : Lexes rest tokens) :
    Lexes (v.writeBefore level rest) (v.tokensBefore tokens) := by
  cases hv with
  | null => exact @Lexes.token 'n' ['u', 'l', 'l'] rest .null tokens rfl rfl h
  | bool b =>
      cases b with
      | true => exact @Lexes.token 't' ['r', 'u', 'e'] rest (.bool true) tokens rfl rfl h
      | false => exact @Lexes.token 'f' ['a', 'l', 's', 'e'] rest (.bool false) tokens rfl rfl h
  | number htext => exact h.number htext hstop
  | string s => exact h.quoted s
  | @array items hitems =>
      match items with
      | [] => exact .mark rfl rfl (.mark rfl rfl h)
      | item :: more =>
          obtain ⟨hitem, hmore⟩ := List.forall_mem_cons.1 hitems
          have hclose : Lexes (newline level ++ ']' :: rest) (.closeArray :: tokens) :=
            .onNewline (.mark rfl rfl h) level
          have htail := lexes_writeItems (level + 1) more hmore (stops_newline level _) hclose
          have hfirst := lexes_writeBefore (level + 1) item hitem
            (stops_writeItems _ more (stops_newline level _)) htail
          exact .mark rfl rfl (hfirst.onNewline (level + 1))
  | @object entries _ hentries =>
      match entries with
      | [] => exact .mark rfl rfl (.mark rfl rfl h)
      | (name, value) :: more =>
          obtain ⟨hvalue, hmore⟩ := List.forall_mem_cons.1 hentries
          have hclose : Lexes (newline level ++ '}' :: rest) (.closeObject :: tokens) :=
            .onNewline (.mark rfl rfl h) level
          have htail := lexes_writeEntries (level + 1) more hmore (stops_newline level _) hclose
          have hfirst := lexes_writeBefore (level + 1) value hvalue
            (stops_writeEntries _ more (stops_newline level _)) htail
          exact .mark rfl rfl ((hfirst.named name).onNewline (level + 1))

/-- Written items lex as the tokens of the items. -/
theorem lexes_writeItems (level : Nat) (items : List Value) (hitems : ∀ item ∈ items, item.Regular)
    {rest : List Char} {tokens : List Token} (hstop : Stops goesOn rest) (h : Lexes rest tokens) :
    Lexes (writeItems level items rest) (itemTokens items tokens) := by
  match items with
  | [] => exact h
  | item :: more =>
      obtain ⟨hitem, hmore⟩ := List.forall_mem_cons.1 hitems
      have hfirst := lexes_writeBefore level item hitem (stops_writeItems level more hstop)
        (lexes_writeItems level more hmore hstop h)
      exact .mark rfl rfl (hfirst.onNewline level)

/-- Written entries lex as the tokens of the entries. -/
theorem lexes_writeEntries (level : Nat) (entries : Object)
    (hentries : ∀ e ∈ entries, e.2.Regular) {rest : List Char} {tokens : List Token}
    (hstop : Stops goesOn rest) (h : Lexes rest tokens) :
    Lexes (writeEntries level entries rest) (entryTokens entries tokens) := by
  match entries with
  | [] => exact h
  | (name, value) :: more =>
      obtain ⟨hvalue, hmore⟩ := List.forall_mem_cons.1 hentries
      have hfirst := lexes_writeBefore level value hvalue (stops_writeEntries level more hstop)
        (lexes_writeEntries level more hmore hstop h)
      exact .mark rfl rfl ((hfirst.named name).onNewline level)

end

end Value

end ConfigGraft.Json
