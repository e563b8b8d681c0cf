import ConfigGraft.Proofs.Yaml.Row

/-!
# Values are read from their tokens

The tokens of an ordinary value are read as its node. There are no anchors in it, so naming these by
number changes nothing, and no tags, so a scalar means what its style says. In quotes or as a block
it means its text. A text is written plain only where it means itself, which is what the choice of
the style is about.

A sequence behind its key has no token that closes it. It ends where no item follows, which is why
what is behind a value matters here.

A sequence or mapping counts as a level, and the reader has a bound on the levels.

## Main results

* `Value.ofScalar?_ofText` — **a scalar in the style chosen for a text means that text;**
* `Node.ofTokens?_tokens` — the tokens are read as the node of the value;
* `Node.link?_node` — there is nothing to number in it;
* `Value.ofRoot?_node` — the node is read as the value.
-/

namespace ConfigGraft.Yaml

open Style Nested

/-! ### Scalars -/

namespace Value

/-- What a plain scalar means as a text is that text itself. -/
theorem eq_of_ofPlain? {cs : List Char} {s : String} (h : ofPlain? cs = some (.string s)) :
    s = String.ofList cs := by
  rw [ofPlain?] at h
  split at h
  · cases h
  split at h
  · cases h
  split at h
  · rename_i value? hwhole
    obtain ⟨n, -, hn⟩ := Option.bind_eq_some_iff.1 hwhole
    rw [wholeNumber?] at hn
    split at hn
    · rw [← Option.some.inj hn] at h
      cases h
    · split at hn
      · rw [← Option.some.inj hn] at h
        cases h
      · cases hn
  split at h
  · cases h
  · cases h
    rfl

/-- A text that does not look like something else means itself. -/
theorem ofPlain?_of_looksOther {cs : List Char} (h : looksOther cs = false) :
    ofPlain? cs = some (.string (String.ofList cs)) := by
  rw [looksOther] at h
  split at h
  · rename_i s hplain
    rw [hplain, eq_of_ofPlain? hplain]
  · cases h

/-- **A scalar in the style chosen for a text means that text.** -/
theorem ofScalar?_ofText (s : String) :
    ofScalar? (Style.ofText false s.toList == .plain) s.toList = some (.string s) := by
  have hfits := fits_ofText s.toList
  generalize Style.ofText false s.toList = style at hfits ⊢
  have hself : some (Value.string (String.ofList s.toList)) = some (.string s) := by
    rw [String.ofList_toList]
  cases hfits with
  | plain _ _ hother => exact (ofPlain?_of_looksOther hother).trans hself
  | single | double | literal => exact hself

end Value

/-! ### Nodes -/

mutual

/-- The node of an ordinary value. -/
def Value.node {α : Type} : Value → Node α
  | .string s => .scalar {} (Style.ofText false s.toList == .plain) s.toList
  | .bool b => .scalar {} true (Value.boolText b)
  | .sequence items => .sequence {} (itemsNodes items)
  | .mapping entries => .mapping {} (entriesNodes entries)
  | _ => .absent

/-- The nodes of the items of a sequence. -/
def itemsNodes {α : Type} : List Value → List (Node α)
  | [] => []
  | item :: rest => item.node :: itemsNodes rest

/-- The nodes of the entries of a mapping. -/
def entriesNodes {α : Type} : List (Value × Value) → List (Node α × Node α)
  | [] => []
  | (key, value) :: rest => (key.node, value.node) :: entriesNodes rest

end

namespace Node

variable {handles : Handles}

/-- Whether a row of tokens does not begin with a further item. -/
def NoItem (rest : List Token) : Prop := ∀ more, rest ≠ .item :: more

/-- Whether a value is read from its tokens, whatever is behind them. The bound has to be as high as
there are tokens. Where a sequence is free, it has to be two higher, and no item may follow. -/
def ReadsBack (handles : Handles) (v : Value) : Prop :=
  ∀ (bound : Nat) (free indentless : Bool) (rest : List Token),
    (v.tokens free).length + 2 * free.toNat ≤ bound →
    (free = true → indentless = true ∧ NoItem rest) →
    read? handles bound true indentless (v.tokens free ++ rest) = some (v.node, rest)

/-- Whether items are read from their tokens, to the end of their sequence. -/
def ItemsReadBack (handles : Handles) (items : List Value) : Prop :=
  ∀ (bound : Nat) (rest : List Token), (Value.itemsTokens items).length < bound →
    readItems? handles bound (Value.itemsTokens items ++ .closeBlock :: rest) =
      some (itemsNodes items, rest)

/-- Whether items that are not set apart are read from their tokens, up to what is no item. -/
def FreeItemsReadBack (handles : Handles) (items : List Value) : Prop :=
  ∀ (bound : Nat) (rest : List Token), (Value.itemsTokens items).length < bound → NoItem rest →
    readFreeItems? handles bound (Value.itemsTokens items ++ rest) =
      some (itemsNodes items, rest)

/-- Whether entries are read from their tokens, to the end of their mapping. -/
def EntriesReadBack (handles : Handles) (entries : Mapping) : Prop :=
  ∀ (bound : Nat) (rest : List Token), (Value.entriesTokens entries).length < bound →
    readEntries? handles bound (Value.entriesTokens entries ++ .closeBlock :: rest) =
      some (entriesNodes entries, rest)

/-! ### Where a value is written -/

/-- The first token of a value says that something is written. -/
theorem noEntryBefore_tokens {v : Value} (h : v.Ordinary) (free : Bool) (rest : List Token) :
    noEntryBefore (v.tokens free ++ rest) = false := by
  cases h with
  | string | bool => rfl
  | @sequence items =>
      cases items with
      | nil => rfl
      | cons item items => cases free <;> rfl
  | @mapping entries => cases entries <;> rfl

/-- What stands before the tokens of a value is not left out. -/
theorem noItemBefore_tokens {v : Value} (h : v.Ordinary) (rest : List Token) :
    noItemBefore (v.tokens false ++ rest) = false := by
  cases h with
  | string | bool => rfl
  | @sequence items => cases items <;> rfl
  | @mapping entries => cases entries <;> rfl

/-- Entries and what closes them do not begin with an item. -/
theorem noItem_entriesTokens (entries : Mapping) (rest : List Token) :
    NoItem (Value.entriesTokens entries ++ .closeBlock :: rest) := by
  intro more
  cases entries <;> simp [Value.entriesTokens]

/-! ### Reading nodes -/

/-- A scalar is read back from its only token. -/
theorem readsBack_scalar {v : Value} {plain : Bool} {content : List Char}
    (htokens : ∀ free, v.tokens free = [.scalar plain content])
    (hnode : (v.node : Node (List Char)) = .scalar {} plain content) : ReadsBack handles v := by
  intro bound free indentless rest hbound _
  rw [htokens] at hbound ⊢
  cases bound with
  | zero => cases Nat.le_trans (Nat.le_add_right _ _) hbound
  | succ bound =>
      rw [hnode]
      rfl

/-- An empty collection is read from its brackets. -/
theorem readsBack_brackets {v : Value} (h : v = .sequence [] ∨ v = .mapping []) :
    ReadsBack handles v := by
  intro bound free indentless rest hbound _
  have htwo : (v.tokens free).length = 2 := by obtain rfl | rfl := h <;> rfl
  obtain ⟨bound, rfl⟩ : ∃ n, bound = n + 2 := ⟨bound - 2, by omega⟩
  obtain rfl | rfl := h <;> rfl

/-- A sequence with a token that opens it has one that closes it too. -/
theorem itemsReadBack {items : List Value} (hitems : ∀ item ∈ items, item.Ordinary)
    (h : ∀ item ∈ items, ReadsBack handles item) : ItemsReadBack handles items := by
  induction items with
  | nil =>
      intro bound rest hbound
      cases bound with
      | zero => cases hbound
      | succ bound => rfl
  | cons item more ih =>
      obtain ⟨hitem, hmore⟩ := List.forall_mem_cons.1 hitems
      obtain ⟨hread, hreadMore⟩ := List.forall_mem_cons.1 h
      intro bound rest hbound
      rw [Value.length_itemsTokens_cons] at hbound
      obtain ⟨bound, rfl⟩ : ∃ n, bound = n + 1 := ⟨bound - 1, by omega⟩
      have hfirst := hread bound false false (Value.itemsTokens more ++ .closeBlock :: rest)
        (by rw [Bool.toNat_false]; omega) fun h => absurd h Bool.false_ne_true
      rw [Value.itemsTokens_cons_append, readItems?]
      simp only [noItemBefore_tokens hitem, Bool.false_eq_true, if_false, hfirst,
        ih hmore hreadMore bound rest (by omega)]
      rfl

/-- A sequence without such tokens ends before what is no item. -/
theorem freeItemsReadBack {items : List Value} (hitems : ∀ item ∈ items, item.Ordinary)
    (h : ∀ item ∈ items, ReadsBack handles item) : FreeItemsReadBack handles items := by
  induction items with
  | nil =>
      intro bound rest hbound hend
      cases bound with
      | zero => cases hbound
      | succ bound =>
          rw [Value.itemsTokens, List.nil_append, readFreeItems?]
          · rfl
          · exact hend
  | cons item more ih =>
      obtain ⟨hitem, hmore⟩ := List.forall_mem_cons.1 hitems
      obtain ⟨hread, hreadMore⟩ := List.forall_mem_cons.1 h
      intro bound rest hbound hend
      rw [Value.length_itemsTokens_cons] at hbound
      obtain ⟨bound, rfl⟩ : ∃ n, bound = n + 1 := ⟨bound - 1, by omega⟩
      have hfirst := hread bound false false (Value.itemsTokens more ++ rest)
        (by rw [Bool.toNat_false]; omega) fun h => absurd h Bool.false_ne_true
      rw [Value.itemsTokens_cons_append, readFreeItems?]
      simp only [noItemBefore_tokens hitem, noEntryBefore_tokens hitem, Bool.or_self,
        Bool.false_eq_true, if_false, hfirst, ih hmore hreadMore bound rest (by omega) hend]
      rfl

/-- Entries are read back if each of their values is. -/
theorem entriesReadBack {entries : Mapping} (hnamed : Named entries)
    (hvalues : ∀ entry ∈ entries, entry.2.Ordinary)
    (h : ∀ entry ∈ entries, ReadsBack handles entry.2) : EntriesReadBack handles entries := by
  induction hnamed with
  | nil =>
      intro bound rest hbound
      cases bound with
      | zero => cases hbound
      | succ bound => rfl
  | @cons key v entries _ _ ih =>
      obtain ⟨hvalue, hmore⟩ := List.forall_mem_cons.1 hvalues
      obtain ⟨hback, hbackMore⟩ := List.forall_mem_cons.1 h
      intro bound rest hbound
      have htokens : Value.entriesTokens ((.string key, v) :: entries) =
          .key :: .ofText key.toList :: .value ::
            (v.tokens (Value.string key).isShortKey ++ Value.entriesTokens entries) := by
        simp [Value.entriesTokens, Value.tokens]
      generalize (Value.string key).isShortKey = free at htokens
      have hlength := congrArg List.length htokens
      rw [List.length_cons, List.length_cons, List.length_cons, List.length_append] at hlength
      have htwice : 2 * free.toNat ≤ 2 := by cases free <;> decide
      obtain ⟨bound, rfl⟩ : ∃ n, bound = n + 2 := ⟨bound - 2, by omega⟩
      have hkey : read? handles (bound + 1) true true (.ofText key.toList :: .value ::
          (v.tokens free ++ (Value.entriesTokens entries ++ .closeBlock :: rest))) =
          some ((Value.string key).node, .value ::
            (v.tokens free ++ (Value.entriesTokens entries ++ .closeBlock :: rest))) := rfl
      have hread : readValue? handles (bound + 1) (.value ::
          (v.tokens free ++ (Value.entriesTokens entries ++ .closeBlock :: rest))) =
          some (v.node, Value.entriesTokens entries ++ .closeBlock :: rest) := by
        have hbound : (v.tokens free).length + 2 * free.toNat ≤ bound := by omega
        rw [readValue?]
        simp only [noEntryBefore_tokens hvalue, Bool.false_eq_true, if_false]
        exact hback bound free true _ hbound fun _ => ⟨rfl, noItem_entriesTokens _ _⟩
      have hnone : noEntryBefore (Token.ofText key.toList :: .value ::
          (v.tokens free ++ (Value.entriesTokens entries ++ .closeBlock :: rest))) = false := rfl
      rw [htokens, List.cons_append, List.cons_append, List.cons_append, List.append_assoc,
        readEntries?]
      simp only [hnone, Bool.false_eq_true, if_false, hkey, hread,
        ih hmore hbackMore (bound + 1) rest (by omega)]
      rfl

/-- A sequence is read back if its items are, within a collection of its own or not. -/
theorem readsBack_sequence {items : List Value} (h : ItemsReadBack handles items)
    (hfree : FreeItemsReadBack handles items) (hne : items ≠ []) :
    ReadsBack handles (.sequence items) := by
  intro bound free indentless rest hbound hends
  cases items with
  | nil => exact absurd rfl hne
  | cons item items =>
      cases free with
      | false =>
          have htokens : (Value.sequence (item :: items)).tokens false ++ rest =
              .openBlockSequence ::
                (Value.itemsTokens (item :: items) ++ .closeBlock :: rest) := by
            simp [Value.tokens]
          have hlength : ((Value.sequence (item :: items)).tokens false).length =
              (Value.itemsTokens (item :: items)).length + 2 := by
            simp [Value.tokens]
          obtain ⟨bound, rfl⟩ : ∃ n, bound = n + 1 := ⟨bound - 1, by omega⟩
          have hread : read? handles (bound + 1) true indentless (.openBlockSequence ::
              (Value.itemsTokens (item :: items) ++ .closeBlock :: rest)) =
              (readItems? handles bound
                (Value.itemsTokens (item :: items) ++ .closeBlock :: rest)).map
                fun read => (.sequence {} read.1, read.2) := rfl
          rw [htokens, hread, h bound rest (by rw [Bool.toNat_false] at hbound; omega)]
          rfl
      | true =>
          obtain ⟨rfl, hend⟩ := hends rfl
          have htokens : (Value.sequence (item :: items)).tokens true =
              Value.itemsTokens (item :: items) := rfl
          rw [htokens, Bool.toNat_true] at hbound
          obtain ⟨bound, rfl⟩ : ∃ n, bound = n + 1 := ⟨bound - 1, by omega⟩
          have hread : read? handles (bound + 1) true true
              (Value.itemsTokens (item :: items) ++ rest) =
              (readFreeItems? handles bound (Value.itemsTokens (item :: items) ++ rest)).map
                fun read => (.sequence {} read.1, read.2) := rfl
          rw [htokens, hread, hfree bound rest (by omega) hend]
          rfl

/-- A mapping is read back if its entries are. -/
theorem readsBack_mapping {entries : Mapping} (h : EntriesReadBack handles entries)
    (hne : entries ≠ []) : ReadsBack handles (.mapping entries) := by
  intro bound free indentless rest hbound _
  have hempty : entries.isEmpty = false := List.isEmpty_eq_false_iff.2 hne
  have htokens : (Value.mapping entries).tokens free ++ rest =
      .openBlockMapping :: (Value.entriesTokens entries ++ .closeBlock :: rest) := by
    simp [Value.tokens, hempty]
  have hlength : ((Value.mapping entries).tokens free).length =
      (Value.entriesTokens entries).length + 2 := by
    simp [Value.tokens, hempty]
  obtain ⟨bound, rfl⟩ : ∃ n, bound = n + 1 := ⟨bound - 1, by omega⟩
  have hread : read? handles (bound + 1) true indentless
      (.openBlockMapping :: (Value.entriesTokens entries ++ .closeBlock :: rest)) =
      (readEntries? handles bound (Value.entriesTokens entries ++ .closeBlock :: rest)).map
        fun read => (.mapping {} read.1, read.2) := rfl
  rw [htokens, hread, h bound rest (by omega)]
  rfl

/-- **An ordinary value is read from its tokens.** -/
theorem readsBack_of_ordinary {v : Value} (h : v.Ordinary) : ReadsBack handles v := by
  induction h with
  | string | bool => exact readsBack_scalar (fun _ => rfl) rfl
  | @sequence items hitems ih =>
      by_cases hne : items = []
      · exact readsBack_brackets (.inl (hne ▸ rfl))
      · exact readsBack_sequence (itemsReadBack hitems ih) (freeItemsReadBack hitems ih) hne
  | @mapping entries hnamed hvalues ih =>
      by_cases hne : entries = []
      · exact readsBack_brackets (.inr (hne ▸ rfl))
      · exact readsBack_mapping (entriesReadBack hnamed hvalues ih) hne

/-- The tokens of a value are those of a document without a head. -/
theorem hasHead_tokens {v : Value} (h : v.Ordinary) :
    (v.tokens false).isEmpty = false ∧ hasHead (v.tokens false) = false := by
  cases h with
  | string | bool => exact ⟨rfl, rfl⟩
  | @sequence items => cases items <;> exact ⟨rfl, rfl⟩
  | @mapping entries => cases entries <;> exact ⟨rfl, rfl⟩

/-- **The tokens of an ordinary value are read as its nodes.** -/
theorem ofTokens?_tokens {v : Value} (h : v.Ordinary) :
    ofTokens? (v.tokens false) = some (some v.node) := by
  have hback : ReadsBack usualHandles v := readsBack_of_ordinary h
  have hread := hback (4 * (v.tokens false).length + 4) false false []
    (by rw [Bool.toNat_false]; omega) fun h => absurd h Bool.false_ne_true
  rw [List.append_nil] at hread
  obtain ⟨hempty, hhead⟩ := hasHead_tokens h
  have hroot : readRoot? (v.tokens false) = some (v.node, []) := by
    rw [readRoot?, hhead, if_neg Bool.false_ne_true, hread]
  rw [ofTokens?, hempty, if_neg Bool.false_ne_true, hroot]
  rfl

/-! ### Anchors -/

/-- Items without aliases are linked to nothing. -/
theorem linkItems?_nodes {anchors : Anchors} {items : List Value}
    (h : ∀ item ∈ items, link? anchors item.node = some (item.node, anchors)) :
    linkItems? anchors (itemsNodes items) = some (itemsNodes items, anchors) := by
  induction items with
  | nil => rfl
  | cons item rest ih =>
      obtain ⟨hitem, hrest⟩ := List.forall_mem_cons.1 h
      rw [itemsNodes, linkItems?, hitem]
      simp only [ih hrest]
      rfl

/-- Nor are entries. -/
theorem linkEntries?_nodes {anchors : Anchors} {entries : Mapping} (hnamed : Named entries)
    (h : ∀ entry ∈ entries, link? anchors entry.2.node = some (entry.2.node, anchors)) :
    linkEntries? anchors (entriesNodes entries) = some (entriesNodes entries, anchors) := by
  induction hnamed with
  | nil => rfl
  | @cons key v rest _ _ ih =>
      obtain ⟨hvalue, hrest⟩ := List.forall_mem_cons.1 h
      have hkey : link? anchors (Value.string key).node =
          some ((Value.string key).node, anchors) := rfl
      rw [entriesNodes, linkEntries?, hkey]
      simp only [hvalue, ih hrest]
      rfl

/-- **There are no anchors in the node of an ordinary value,** so numbering them changes nothing. -/
theorem link?_node {v : Value} (h : v.Ordinary) (anchors : Anchors) :
    link? anchors v.node = some (v.node, anchors) := by
  induction h with
  | string | bool => rfl
  | sequence _ ih =>
      rw [Value.node, link?, linkMark]
      simp only [linkItems?_nodes ih]
      rfl
  | mapping hnamed _ ih =>
      rw [Value.node, link?, linkMark]
      simp only [linkEntries?_nodes hnamed ih]
      rfl

end Node

/-! ### Values -/

namespace Value

mutual

/-- The levels of sequences and mappings in a value, itself included. -/
def levels : Value → Nat
  | .sequence items => levelsOfItems items + 1
  | .mapping entries => levelsOfEntries entries + 1
  | .tagged _ v => v.levels
  | _ => 0

def levelsOfItems : List Value → Nat
  | [] => 0
  | item :: rest => max item.levels (levelsOfItems rest)

/-- The levels below a mapping, in its keys and values. -/
def levelsOfEntries : List (Value × Value) → Nat
  | [] => 0
  | (key, value) :: rest => max (max key.levels value.levels) (levelsOfEntries rest)

end

/-- An item has no more levels than all of them. -/
theorem levels_le_of_mem {items : List Value} {item : Value} (h : item ∈ items) :
    item.levels ≤ levelsOfItems items := by
  induction items with
  | nil => cases h
  | cons first rest ih =>
      rw [levelsOfItems]
      obtain rfl | hrest := List.mem_cons.1 h
      · exact Nat.le_max_left _ _
      · exact Nat.le_trans (ih hrest) (Nat.le_max_right _ _)

/-- Nor has the value of an entry. -/
theorem levels_le_of_mem_entries {entries : Mapping} {entry : Value × Value} (h : entry ∈ entries) :
    entry.2.levels ≤ levelsOfEntries entries := by
  induction entries with
  | nil => cases h
  | cons first rest ih =>
      rw [levelsOfEntries]
      obtain rfl | hrest := List.mem_cons.1 h
      · exact Nat.le_trans (Nat.le_max_right _ _) (Nat.le_max_left _ _)
      · exact Nat.le_trans (ih hrest) (Nat.le_max_right _ _)

/-- Whether the node of a value is read as the value, and no alias is followed for that. -/
def IsRead (read? : NodeReader) (v : Value) : Prop :=
  ∀ jumps, read? v.node jumps = some (v, jumps)

/-- Whether nodes are read as entries, behind other entries that were read before. -/
def Returns (unique : Bool) (read? : NodeReader) (entries : Mapping) : Prop :=
  ∀ (known : Mapping) (jumps : Nat),
    (∀ entry ∈ known, ∃ name, entry.1 = .string name ∧ entry.1 ∉ entries.map Prod.fst) →
    readEntries? unique read? known (entriesNodes entries) jumps = some (known ++ entries, jumps)

/-- Items are read if each of them is. -/
theorem readItems?_nodes {read? : NodeReader} {items : List Value}
    (h : ∀ item ∈ items, IsRead read? item) (jumps : Nat) :
    readItems? read? (itemsNodes items) jumps = some (items, jumps) := by
  induction items with
  | nil => rfl
  | cons item rest ih =>
      obtain ⟨hitem, hrest⟩ := List.forall_mem_cons.1 h
      rw [itemsNodes, readItems?, hitem]
      simp only [ih hrest]
      rfl

/-- A text is no key yet if it differs from each of them. -/
theorem any_same_eq_false {known : Mapping} {key : String}
    (h : ∀ entry ∈ known, ∃ name, entry.1 = .string name ∧ name ≠ key) :
    (known.any fun (other, _) => other.same (.string key)) = false := by
  refine List.any_eq_false.2 fun entry hentry => ?_
  obtain ⟨name, hname, hne⟩ := h entry hentry
  simp [hname, same, hne]

/-- Entries with distinct texts as keys are read if each of their values is, no key standing twice.
-/
theorem returns_of_named {unique : Bool} {read? : NodeReader} {entries : Mapping}
    (hnamed : Named entries) (hkeys : ∀ key, IsRead read? (.string key))
    (h : ∀ entry ∈ entries, IsRead read? entry.2) : Returns unique read? entries := by
  induction hnamed with
  | nil =>
      intro known jumps _
      rw [List.append_nil]
      rfl
  | @cons key v rest hfresh _ ih =>
      obtain ⟨hvalue, hrest⟩ := List.forall_mem_cons.1 h
      intro known jumps hknown
      have hnew := any_same_eq_false fun entry hentry => by
        obtain ⟨name, hname, hother⟩ := hknown entry hentry
        refine ⟨name, hname, ?_⟩
        rintro rfl
        exact hother (hname ▸ List.mem_cons_self)
      have hmore := ih hrest (known ++ [(.string key, v)]) jumps <| by
        refine List.forall_mem_append.2 ⟨fun entry hentry => ?_, ?_⟩
        · obtain ⟨name, hname, hother⟩ := hknown entry hentry
          exact ⟨name, hname, fun hmem => hother (List.mem_cons_of_mem _ hmem)⟩
        · exact List.forall_mem_singleton.2 ⟨key, rfl, hfresh⟩
      have hname := hkeys key jumps
      rw [entriesNodes, readEntries?]
      simp only [hname, hnew, hvalue jumps, hmore, Bool.and_false, Bool.false_eq_true, if_false,
        List.append_assoc, List.singleton_append]

section Reading

variable {unique : Bool} {root : Node Nat} {limit : Nat}

/-- A scalar is read as what its text resolves to. -/
theorem isRead_scalar {v : Value} {plain : Bool} {content : List Char} (depth : Nat)
    (hnode : (v.node : Node Nat) = .scalar {} plain content)
    (hscalar : ofScalar? plain content = some v) :
    IsRead (readNode? unique root limit depth) v := by
  intro jumps
  rw [hnode]
  cases depth <;> simp [readNode?, readWith?, follow?, ofTaggedScalar?, hscalar]

/-- A text is written so that it resolves to a text. -/
theorem isRead_string (depth : Nat) (s : String) :
    IsRead (readNode? unique root limit depth) (.string s) :=
  isRead_scalar depth rfl (ofScalar?_ofText s)

/-- A truth value resolves to itself. -/
theorem isRead_bool (depth : Nat) (b : Bool) :
    IsRead (readNode? unique root limit depth) (.bool b) :=
  isRead_scalar depth rfl (by cases b <;> rfl)

/-- A sequence is read with one level more than its items. -/
theorem isRead_sequence {depth : Nat} {items : List Value}
    (h : ∀ item ∈ items, IsRead (readNode? unique root limit depth) item) :
    IsRead (readNode? unique root limit (depth + 1)) (.sequence items) := by
  intro jumps
  have hread : readNode? unique root limit (depth + 1) (Value.sequence items).node jumps =
      (readItems? (readNode? unique root limit depth) (itemsNodes items) jumps).map
        fun read => (.sequence read.1, read.2) := by
    rw [node]
    rfl
  rw [hread, readItems?_nodes h]
  rfl

/-- A mapping is read with one level more than its entries. -/
theorem isRead_mapping {depth : Nat} {entries : Mapping}
    (h : Returns unique (readNode? unique root limit depth) entries) :
    IsRead (readNode? unique root limit (depth + 1)) (.mapping entries) := by
  intro jumps
  have hread : readNode? unique root limit (depth + 1) (Value.mapping entries).node jumps =
      (readEntries? unique (readNode? unique root limit depth) [] (entriesNodes entries) jumps).map
        fun read => (.mapping read.1, read.2) := by
    rw [node]
    rfl
  rw [hread, h [] jumps (List.forall_mem_nil _)]
  rfl

/-- **The node of an ordinary value is read as the value,** if there are not too many levels. -/
theorem isRead_of_ordinary {v : Value} (h : v.Ordinary) {depth : Nat} (hdepth : v.levels ≤ depth) :
    IsRead (readNode? unique root limit depth) v := by
  induction h generalizing depth with
  | string s => exact isRead_string depth s
  | bool b => exact isRead_bool depth b
  | sequence _ ih =>
      rw [levels] at hdepth
      obtain ⟨depth, rfl⟩ := Nat.exists_eq_add_of_le' (Nat.le_of_add_left_le hdepth)
      exact isRead_sequence fun item hitem =>
        ih item hitem (Nat.le_trans (levels_le_of_mem hitem) (Nat.le_of_succ_le_succ hdepth))
  | mapping hnamed _ ih =>
      rw [levels] at hdepth
      obtain ⟨depth, rfl⟩ := Nat.exists_eq_add_of_le' (Nat.le_of_add_left_le hdepth)
      exact isRead_mapping <| returns_of_named hnamed (isRead_string depth) fun entry hentry =>
        ih entry hentry
          (Nat.le_trans (levels_le_of_mem_entries hentry) (Nat.le_of_succ_le_succ hdepth))

end Reading

/-- **The node of an ordinary value is read as the value** at the root of a document. -/
theorem ofRoot?_node {v : Value} (h : v.Ordinary) (hlevels : v.levels ≤ depthLimit) :
    ofRoot? v.node = some v := by
  have hread : readNode? true v.node (jumpLimit v.node) depthLimit v.node 0 = some (v, 0) :=
    isRead_of_ordinary h hlevels 0
  simp only [ofRoot?, Node.link?_node h, hread]
  rfl

end Value

end ConfigGraft.Yaml
