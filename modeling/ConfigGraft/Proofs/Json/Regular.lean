import ConfigGraft.Json.Reader
import ConfigGraft.Proofs.Json.Number

/-!
# Regular values

A value that is read from a text has more to it than its type says: its numbers are texts that a
number is kept as, and the names of each object differ. Such values are called regular. A reader
gets regular values from a text because the tokens of the text are regular, and because a name that
comes again takes the place that it has.

Two more notions bound what a reader takes as it was written: how deep arrays and objects are
nested, and whether an object begins with the name that marks a number.

## Main results

* `Token.regular_of_readUpTo?` — the tokens of a text are regular;
* `Value.Regular.put` — an object stays regular when a name gets a value;
* `Value.readsRegular` — **what is read from regular tokens is regular.**
-/

namespace ConfigGraft.Json.Value

/-- A value is **regular** if its numbers are texts of numbers and the names of each object
differ. -/
inductive Regular : Value → Prop
  | null : Regular .null
  | bool (b : Bool) : Regular (.bool b)
  | number {text : String} : Token.IsNumber text.toList → Regular (.number text)
  | string (s : String) : Regular (.string s)
  | array {items : List Value} : (∀ item ∈ items, Regular item) → Regular (.array items)
  | object {entries : Object} : (entries.map Prod.fst).Nodup → (∀ e ∈ entries, Regular e.2) →
      Regular (.object entries)

/-- A value is **unmarked** if no object in it begins with the name that marks a number. -/
inductive Unmarked : Value → Prop
  | null : Unmarked .null
  | bool (b : Bool) : Unmarked (.bool b)
  | number (text : String) : Unmarked (.number text)
  | string (s : String) : Unmarked (.string s)
  | array {items : List Value} : (∀ item ∈ items, Unmarked item) → Unmarked (.array items)
  | object {entries : Object} : (∀ e ∈ entries.head?, e.1.toList ≠ numberMark) →
      (∀ e ∈ entries, Unmarked e.2) → Unmarked (.object entries)

mutual

/-- How deep the arrays and objects of a value are nested. -/
def depth : Value → Nat
  | .array items => itemsDepth items + 1
  | .object entries => entriesDepth entries + 1
  | _ => 0

/-- How deep the items of an array are nested. -/
def itemsDepth : List Value → Nat
  | [] => 0
  | item :: more => max item.depth (itemsDepth more)

/-- How deep the values of an object are nested. -/
def entriesDepth : List (String × Value) → Nat
  | [] => 0
  | (_, value) :: more => max value.depth (entriesDepth more)

end

end ConfigGraft.Json.Value

namespace ConfigGraft.Json

/-! ### Tokens -/

namespace Token

/-- A token is **regular** if it is no number, or the text of one. -/
def Regular : Token → Prop
  | .number text => IsNumber text
  | _ => True

variable {cs rest : List Char} {t : Token} {tokens : List Token}

/-- Every token that is read is regular. -/
theorem regular_of_read? (h : read? cs = some (t, rest)) : t.Regular := by
  rw [read?.eq_def] at h
  split at h
  case h_10 =>
    obtain ⟨_, -, heq⟩ := Option.map_eq_some_iff.1 h
    cases heq
    trivial
  case h_11 =>
    obtain ⟨⟨text, _⟩, hread, heq⟩ := Option.map_eq_some_iff.1 h
    cases heq
    exact isNumber_of_readNumber? hread
  all_goals
    cases h
    trivial

/-- The tokens of a text are regular. -/
theorem regular_of_readUpTo? {bound : Nat} (h : readUpTo? bound cs = some tokens) :
    ∀ t ∈ tokens, t.Regular := by
  induction bound generalizing cs tokens with
  | zero => cases h
  | succ bound ih =>
      rw [readUpTo?] at h
      split at h
      · cases h
        nofun
      · obtain ⟨⟨t, rest⟩, hread, h⟩ := Option.bind_eq_some_iff.1 h
        obtain ⟨more, hmore, h⟩ := Option.bind_eq_some_iff.1 h
        cases h
        exact List.forall_mem_cons.2 ⟨regular_of_read? hread, ih hmore⟩

end Token

/-! ### Values -/

namespace Value

variable {v : Value} {entries : Object} {name : String}

/-- The names of an object in which a name got a value. -/
theorem names_put (name : String) (v : Value) (entries : Object) :
    (Association.put name v entries).map Prod.fst =
      if name ∈ entries.map Prod.fst then entries.map Prod.fst
      else entries.map Prod.fst ++ [name] := by
  induction entries with
  | nil => rfl
  | cons e rest ih =>
      obtain ⟨k, w⟩ := e
      rw [Association.put]
      by_cases hk : k = name
      · simp [hk]
      · rw [if_neg (mt beq_iff_eq.1 hk), List.map_cons, ih]
        by_cases hmem : name ∈ rest.map Prod.fst
        · simp [hmem]
        · simp [hmem, Ne.symm hk]

/-- An entry after an update is the new one or an old one. -/
theorem mem_put {e : String × Value} (h : e ∈ Association.put name v entries) :
    e = (name, v) ∨ e ∈ entries := by
  induction entries with
  | nil => exact .inl (List.mem_singleton.1 h)
  | cons first rest ih =>
      obtain ⟨k, w⟩ := first
      rw [Association.put] at h
      split at h
      · exact (List.mem_cons.1 h).imp_right (List.mem_cons_of_mem _)
      · rcases List.mem_cons.1 h with rfl | hrest
        · exact .inr List.mem_cons_self
        · exact (ih hrest).imp_right (List.mem_cons_of_mem _)

/-- The empty object is regular. -/
theorem regular_nil : (Value.object []).Regular := .object .nil (List.forall_mem_nil _)

/-- An object stays regular when a name gets a regular value. -/
theorem Regular.put (h : (Value.object entries).Regular) (hv : v.Regular) (name : String) :
    (Value.object (Association.put name v entries)).Regular := by
  cases h with
  | object hnames hentries =>
      refine .object ?_ fun e he => ?_
      · rw [names_put]
        split
        · exact hnames
        · rename_i hnew
          refine List.nodup_append.2 ⟨hnames, List.pairwise_singleton .., ?_⟩
          rintro k hk _ hname rfl
          exact hnew (List.mem_singleton.1 hname ▸ hk)
      · rcases mem_put he with rfl | he
        · exact hv
        · exact hentries e he

/-- A number has its text in the grammar of numbers. -/
theorem regular_of_numberOfText? {cs : List Char} (h : numberOfText? cs = some v) :
    v.Regular := by
  rw [numberOfText?] at h
  split at h
  · rename_i hread
    cases h
    exact .number (by rw [String.toList_ofList]; exact Token.isNumber_of_readNumber? hread)
  · cases h

/-- Whatever is read from regular tokens within a bound is regular, and so are the tokens that are
left. -/
structure ReadsRegular (bound : Nat) : Prop where
  value : ∀ {levels : Nat} {tokens rest : List Token} {v : Value},
    readUpTo? bound levels tokens = some (v, rest) → (∀ t ∈ tokens, t.Regular) →
    v.Regular ∧ ∀ t ∈ rest, t.Regular
  items : ∀ {levels : Nat} {tokens rest : List Token} {items : List Value},
    readItems? bound levels tokens = some (items, rest) → (∀ t ∈ tokens, t.Regular) →
    (∀ item ∈ items, item.Regular) ∧ ∀ t ∈ rest, t.Regular
  entries : ∀ {levels : Nat} {tokens rest : List Token} {before entries : Object}
    {name : List Char}, readEntries? bound levels before name tokens = some (entries, rest) →
    (∀ t ∈ tokens, t.Regular) → (Value.object before).Regular →
    (Value.object entries).Regular ∧ ∀ t ∈ rest, t.Regular

namespace ReadsRegular

variable {bound levels : Nat} {tokens rest : List Token}

/-- One level of reading a value, the levels below being regular. -/
theorem value_succ (ih : ReadsRegular bound)
    (h : readUpTo? (bound + 1) levels tokens = some (v, rest))
    (htokens : ∀ t ∈ tokens, t.Regular) : v.Regular ∧ ∀ t ∈ rest, t.Regular := by
  rw [readUpTo?.eq_def] at h
  dsimp only at h
  split at h <;> try simp only [List.forall_mem_cons] at htokens
  · cases h
    exact ⟨.null, htokens.2⟩
  · cases h
    exact ⟨.bool _, htokens.2⟩
  · cases h
    exact ⟨.number (by rw [String.toList_ofList]; exact htokens.1), htokens.2⟩
  · cases h
    exact ⟨.string _, htokens.2⟩
  · split at h
    · cases h
    · cases h
      exact ⟨.array (List.forall_mem_nil _), htokens.2.2⟩
  · split at h
    · cases h
    · obtain ⟨⟨items, rest'⟩, hread, heq⟩ := Option.map_eq_some_iff.1 h
      cases heq
      obtain ⟨hitems, hrest⟩ := ih.items hread htokens.2
      exact ⟨.array hitems, hrest⟩
  · split at h
    · cases h
    · cases h
      exact ⟨regular_nil, htokens.2.2⟩
  · split at h
    · cases h
    · split at h
      · -- The object stands for a number, and its one value is the text of it.
        split at h
        · obtain ⟨number, hread, heq⟩ := Option.map_eq_some_iff.1 h
          cases heq
          simp only [List.forall_mem_cons] at htokens
          exact ⟨regular_of_numberOfText? hread, htokens.2.2.2.2.2⟩
        · cases h
      · obtain ⟨⟨entries, rest'⟩, hread, heq⟩ := Option.map_eq_some_iff.1 h
        cases heq
        exact ih.entries hread htokens.2.2.2 regular_nil
  · cases h

/-- One item more, the rest being regular. -/
theorem items_succ {items : List Value} (ih : ReadsRegular bound)
    (h : readItems? (bound + 1) levels tokens = some (items, rest))
    (htokens : ∀ t ∈ tokens, t.Regular) :
    (∀ item ∈ items, item.Regular) ∧ ∀ t ∈ rest, t.Regular := by
  rw [readItems?] at h
  split at h
  · rename_i hread
    cases h
    obtain ⟨hitem, hrest⟩ := ih.value hread htokens
    simp only [List.forall_mem_cons] at hrest
    exact ⟨List.forall_mem_cons.2 ⟨hitem, List.forall_mem_nil _⟩, hrest.2⟩
  · rename_i hread
    obtain ⟨⟨more, rest'⟩, hmore, heq⟩ := Option.map_eq_some_iff.1 h
    cases heq
    obtain ⟨hitem, hrest⟩ := ih.value hread htokens
    simp only [List.forall_mem_cons] at hrest
    obtain ⟨hitems, hlast⟩ := ih.items hmore hrest.2
    exact ⟨List.forall_mem_cons.2 ⟨hitem, hitems⟩, hlast⟩
  · cases h

/-- One entry more: it is put among regular ones, in the place of an entry of its name. -/
theorem entries_succ {before : Object} {first : List Char} (ih : ReadsRegular bound)
    (h : readEntries? (bound + 1) levels before first tokens = some (entries, rest))
    (htokens : ∀ t ∈ tokens, t.Regular) (hbefore : (Value.object before).Regular) :
    (Value.object entries).Regular ∧ ∀ t ∈ rest, t.Regular := by
  rw [readEntries?] at h
  split at h
  · rename_i hread
    cases h
    obtain ⟨hvalue, hrest⟩ := ih.value hread htokens
    simp only [List.forall_mem_cons] at hrest
    exact ⟨hbefore.put hvalue _, hrest.2⟩
  · rename_i hread
    obtain ⟨hvalue, hrest⟩ := ih.value hread htokens
    simp only [List.forall_mem_cons] at hrest
    exact ih.entries h hrest.2.2.2 (hbefore.put hvalue _)
  · cases h

end ReadsRegular

/-- **What is read from regular tokens is regular.** -/
theorem readsRegular (bound : Nat) : ReadsRegular bound := by
  induction bound with
  | zero => exact ⟨nofun, nofun, nofun⟩
  | succ bound ih => exact ⟨ih.value_succ, ih.items_succ, ih.entries_succ⟩

end Value

end ConfigGraft.Json
