import ConfigGraft.Proofs.Document.Updates
import ConfigGraft.Proofs.Json.Row

/-!
# JSON that is read back

A document that was read from a JSON text, and then had texts set in it, is written so that it reads
back as it is: with the same order of names, the same strings and the same digits. This needs the
two bounds that the reader has. It goes no deeper than 127 arrays and objects, and it takes an
object for a number if the first name in it is the one that marks numbers.

A regular value is written as a text that lexes to the tokens of the value, and these are read as
the value again.

## Main results

* `Json.Value.readUpTo?_tokensBefore` — a regular value is read back from its tokens;
* `Json.Value.read?_render` — a regular object is read back from its text;
* `Document.parse_render_json` — **a JSON document reads back.**
-/

namespace ConfigGraft

namespace Json.Value

open Token

/-- No value begins with a closing bracket. -/
theorem tokensBefore_ne_closeArray (v : Value) (tokens rest : List Token) :
    v.tokensBefore tokens ≠ .closeArray :: rest := by
  cases v with
  | array items => cases items <;> simp [tokensBefore]
  | object entries =>
      cases entries with
      | nil => simp [tokensBefore]
      | cons e more => simp [tokensBefore]
  | _ => simp [tokensBefore]

/-- Behind an opening bracket, what does not begin with the closing one are items. -/
theorem readUpTo?_openArray {bound levels : Nat} {tokens : List Token} (hlevels : ¬ levels ≤ 1)
    (h : ∀ rest, tokens ≠ .closeArray :: rest) :
    readUpTo? (bound + 1) levels (.openArray :: tokens) =
      (readItems? bound (levels - 1) tokens).map fun (items, rest) => (.array items, rest) := by
  rw [readUpTo?]
  · rw [if_neg hlevels]
  · exact h

/-- Behind an opening brace, a name that marks no number begins entries. -/
theorem readUpTo?_openObject {bound levels : Nat} {name : List Char} {tokens : List Token}
    (hlevels : ¬ levels ≤ 1) (h : name ≠ numberMark) :
    readUpTo? (bound + 1) levels (.openObject :: .string name :: .colon :: tokens) =
      (readEntries? bound (levels - 1) [] name tokens).map fun (entries, rest) =>
        (.object entries, rest) := by
  rw [readUpTo?.eq_def]
  simp only [hlevels, h, if_false]

-- The bound is compared with all tokens that are left, so that it needs no measure of its own: what
-- is read takes two of it for each token, one for the value and one for the list that it is in.
mutual

/-- **A regular value is read back from its tokens.** -/
theorem readUpTo?_tokensBefore (v : Value) (hregular : v.Regular) (hunmarked : v.Unmarked)
    {bound levels : Nat} {rest : List Token} (hlevels : v.depth < levels)
    (hbound : 2 * (v.tokensBefore rest).length ≤ bound) :
    readUpTo? bound levels (v.tokensBefore rest) = some (v, rest) := by
  obtain ⟨bound, rfl⟩ : ∃ steps, bound = steps + 1 := by
    have hpos := length_lt_tokensBefore v rest
    exact ⟨bound - 1, by omega⟩
  cases hregular with
  | null => rfl
  | bool b => rfl
  | number => simp [tokensBefore, readUpTo?]
  | string => simp [tokensBefore, readUpTo?]
  | @array items hitems =>
      cases hunmarked with
      | array hitems' =>
          rw [depth] at hlevels
          match items with
          | [] => rw [tokensBefore, readUpTo?, if_neg (by omega)]
          | item :: more =>
              rw [tokensBefore, List.length_cons] at hbound
              rw [tokensBefore, readUpTo?_openArray (by omega) (tokensBefore_ne_closeArray _ _),
                readItems?_itemTokens (item :: more) hitems hitems' rfl (by omega) (by omega)]
              rfl
  | @object entries hnames hentries =>
      cases hunmarked with
      | object hmark hentries' =>
          rw [depth] at hlevels
          match entries with
          | [] => rw [tokensBefore, readUpTo?, if_neg (by omega)]
          | (name, value) :: more =>
              rw [tokensBefore, List.length_cons, List.length_cons, List.length_cons] at hbound
              rw [tokensBefore, readUpTo?_openObject (by omega) (hmark _ rfl),
                readEntries?_entryTokens ((name, value) :: more) [] hnames hentries hentries' rfl
                  (by omega) (by omega)]
              rfl

/-- The items of an array are read back from behind its opening bracket or a comma. -/
theorem readItems?_itemTokens (items : List Value) (hregular : ∀ item ∈ items, item.Regular)
    (hunmarked : ∀ item ∈ items, item.Unmarked) {bound levels : Nat} {tokens rest : List Token}
    (htokens : itemTokens items (.closeArray :: rest) = .comma :: tokens)
    (hlevels : itemsDepth items < levels) (hbound : 2 * tokens.length < bound) :
    readItems? bound levels tokens = some (items, rest) := by
  match items with
  | [] => cases htokens
  | item :: more =>
      obtain ⟨hitem, hmore⟩ := List.forall_mem_cons.1 hregular
      obtain ⟨hitem', hmore'⟩ := List.forall_mem_cons.1 hunmarked
      obtain ⟨bound, rfl⟩ : ∃ steps, bound = steps + 1 := ⟨bound - 1, by omega⟩
      rw [itemsDepth] at hlevels
      cases htokens
      have hfirst : readUpTo? bound levels (item.tokensBefore (itemTokens more
          (.closeArray :: rest))) = some (item, itemTokens more (.closeArray :: rest)) :=
        readUpTo?_tokensBefore item hitem hitem' (by omega) (by omega)
      have hlength := length_lt_tokensBefore item (itemTokens more (.closeArray :: rest))
      rw [readItems?, hfirst]
      match more with
      | [] => rfl
      | next :: more =>
          rw [itemTokens] at hbound hlength
          rw [List.length_cons] at hlength
          have hnext : readItems? bound levels (next.tokensBefore (itemTokens more
              (.closeArray :: rest))) = some (next :: more, rest) :=
            readItems?_itemTokens (next :: more) hmore hmore' rfl (by omega) (by omega)
          simp only [itemTokens, hnext, Option.map_some]

/-- The entries of an object that are left are read back from behind the colon of the first, and
come behind those that were read before. -/
theorem readEntries?_entryTokens (entries : Object) (before : Object)
    (hnames : ((before ++ entries).map Prod.fst).Nodup) (hregular : ∀ e ∈ entries, e.2.Regular)
    (hunmarked : ∀ e ∈ entries, e.2.Unmarked) {bound levels : Nat} {name : List Char}
    {tokens rest : List Token}
    (htokens : entryTokens entries (.closeObject :: rest) =
      .comma :: .string name :: .colon :: tokens)
    (hlevels : entriesDepth entries < levels) (hbound : 2 * tokens.length < bound) :
    readEntries? bound levels before name tokens = some (before ++ entries, rest) := by
  match entries with
  | [] => cases htokens
  | (name', value) :: more =>
      obtain ⟨hvalue, hmore⟩ := List.forall_mem_cons.1 hregular
      obtain ⟨hvalue', hmore'⟩ := List.forall_mem_cons.1 hunmarked
      obtain ⟨bound, rfl⟩ : ∃ steps, bound = steps + 1 := ⟨bound - 1, by omega⟩
      rw [entriesDepth] at hlevels
      cases htokens
      have hfirst : readUpTo? bound levels (value.tokensBefore (entryTokens more
          (.closeObject :: rest))) = some (value, entryTokens more (.closeObject :: rest)) :=
        readUpTo?_tokensBefore value hvalue hvalue' (by omega) (by omega)
      have hlength := length_lt_tokensBefore value (entryTokens more (.closeObject :: rest))
      have hput : Association.put name' value before = before ++ [(name', value)] := by
        rw [List.map_append, List.map_cons, List.nodup_append] at hnames
        exact Association.put_of_not_mem value fun hmem =>
          hnames.2.2 _ hmem _ List.mem_cons_self rfl
      rw [readEntries?, hfirst]
      match more with
      | [] =>
          simp only [entryTokens, String.ofList_toList, hput]
      | (next, value') :: more =>
          rw [entryTokens] at hbound hlength
          rw [List.length_cons, List.length_cons, List.length_cons] at hlength
          have hnext : readEntries? bound levels (before ++ [(name', value)]) next.toList
              (value'.tokensBefore (entryTokens more (.closeObject :: rest))) =
              some (before ++ [(name', value)] ++ (next, value') :: more, rest) :=
            readEntries?_entryTokens ((next, value') :: more) (before ++ [(name', value)])
              (by rwa [List.append_assoc]) hmore hmore' rfl (by omega) (by omega)
          simp only [entryTokens, String.ofList_toList, hput, hnext, List.append_assoc,
            List.singleton_append]

end

variable {entries : Object}

/-- **A regular object is read back from its text.** -/
theorem read?_render (hregular : (Value.object entries).Regular)
    (hunmarked : (Value.object entries).Unmarked) (hdepth : (Value.object entries).depth ≤ 127) :
    read? (String.ofList (render entries)) = some (.object entries) := by
  have hlexes : Lexes (render entries) ((Value.object entries).tokensBefore []) :=
    lexes_writeBefore 0 (.object entries) hregular (.of_cons rfl []) (.blank rfl .nil)
  have hread : readUpTo? (2 * ((Value.object entries).tokensBefore []).length + 2) depthLimit
      ((Value.object entries).tokensBefore []) = some (.object entries, []) :=
    readUpTo?_tokensBefore _ hregular hunmarked (Nat.lt_succ_of_le hdepth) (Nat.le_add_right _ _)
  rw [read?, String.toList_ofList, hlexes.readAll?_eq]
  simp only [Option.bind_eq_bind, Option.bind_some, hread]

end Json.Value

/-! ### Documents -/

namespace Json

open Value

/-- A JSON text is blank only if nothing is written in it. -/
theorem trim_render_ne_nil (entries : Object) : Text.trim (render entries) ≠ [] := by
  obtain ⟨rest, hrender⟩ : ∃ rest, render entries = '{' :: rest := by
    cases entries with
    | nil => exact ⟨_, rfl⟩
    | cons e more => exact ⟨_, rfl⟩
  have hbrace : Text.isBlank '{' = false := by decide
  rw [hrender, Text.trim, List.dropWhile_cons_of_neg (by simp [hbrace]), Text.dropEnd,
    List.reverse_cons, List.dropWhile_append]
  split <;> simp [hbrace]

/-- A regular document is read back from its text. -/
theorem parseJson_render {entries : Object} (hregular : (Value.object entries).Regular)
    (hunmarked : (Value.object entries).Unmarked) (hdepth : (Value.object entries).depth ≤ 127) :
    Document.parseJson (String.ofList (render entries)) = .ok entries := by
  rw [Document.parseJson, String.toList_ofList, if_neg (trim_render_ne_nil entries),
    read?_render hregular hunmarked hdepth]

/-- A JSON document that was read is regular. -/
theorem regular_of_parseJson {text : String} {entries : Object}
    (h : Document.parseJson text = .ok entries) : (Value.object entries).Regular := by
  rw [Document.parseJson] at h
  split at h
  · cases h
    exact regular_nil
  · split at h
    · rename_i hread
      cases h
      obtain ⟨tokens, htokens, hread⟩ := Option.bind_eq_some_iff.1 hread
      split at hread
      · rename_i hvalue
        cases hread
        exact ((readsRegular _).value hvalue (Token.regular_of_readUpTo? htokens)).1
      · cases hread
    · cases h
    · cases h

/-- An entry is put in an object as it is in any list of entries. -/
theorem put_eq (segment : String) (v : Value) (es : Object) :
    Nested.put segment v es = Association.put segment v es := by
  induction es with
  | nil => rfl
  | cons e rest ih =>
      obtain ⟨k, w⟩ := e
      rw [Nested.put, Association.put, ih]
      by_cases hk : segment = k
      · subst hk
        simp [Nested.isKey]
      · simp [Nested.isKey, hk, Ne.symm hk]

/-- An object stays regular when a text is set in it. -/
theorem kept_regular : Nested.Kept fun es => (Value.object es).Regular where
  put_ofText segment text _ hes := by
    rw [put_eq]
    exact hes.put (.string text) segment
  put_ofEntries segment _ _ hinner hes := by
    rw [put_eq]
    exact hes.put hinner segment
  inside segment es hes := by
    cases hes with
    | object _ hvalues =>
        refine Nested.inside_of_forall_mem (fun es => (Value.object es).Regular) regular_nil
          (fun e he inner hinner => ?_) segment
        obtain ⟨name, child⟩ := e
        have hchild := hvalues _ he
        cases child <;> cases hinner
        exact hchild

end Json

namespace Document

/-- **A JSON document reads back.** Any texts can be set in a document that was read from any text.
If the arrays and objects of what comes of it are nested at most 127 deep, and none of its objects
begins with the name that marks a number, then it is written as a text that is read as the same
document: with its names in the same order, the same strings and the same digits. -/
theorem parse_render_json {text : String} {before : Json.Object}
    (hparse : parse .json text = .ok (.json before)) (updates : List (KeyPath × String)) :
    ∃ entries dirty, (Document.json before).setAll updates = .ok (.json entries, dirty) ∧
      ((Json.Value.object entries).Unmarked → (Json.Value.object entries).depth ≤ 127 →
        ∃ written, (Document.json entries).render? = some written ∧
          parse .json written = .ok (.json entries)) := by
  obtain ⟨es, hread, heq⟩ := map_eq_ok.1 hparse
  cases heq
  obtain ⟨entries, dirty, hset, hregular⟩ :=
    spells_json.exists_setAll (fun _ => rfl) Json.kept_regular.set (Json.regular_of_parseJson hread)
      updates
  refine ⟨entries, dirty, hset, fun hunmarked hdepth => ⟨_, rfl, ?_⟩⟩
  rw [parse, Json.parseJson_render hregular hunmarked hdepth]
  rfl

/-- The text of an object with an exponent that is kept in another spelling. -/
def sampleText : String :=
  String.ofList ['{', '"', 'a', '"', ':', '[', '1', 'E', '5', ',', '{', '}', ']', '}']

/-- What is read of the text, with a text set in it that cannot be written without escapes. -/
def sampleObject : Json.Object :=
  [("a", .array [.number "1e+5", .object []]), ("b", .object [("c", .string "\"\x01\n")])]

/-- An update of the sample. -/
def sampleUpdate : KeyPath × String := (⟨["b", "c"], by simp, by simp, by simp⟩, "\"\x01\n")

/-- The sample is read, changed, written and read again. -/
theorem parse_render_json_sampleText : ∃ before,
    parse .json sampleText = .ok (.json before) ∧
    (Document.json before).setAll [sampleUpdate] = .ok (.json sampleObject, true) ∧
    (Json.Value.object sampleObject).Unmarked ∧ (Json.Value.object sampleObject).depth ≤ 127 ∧
    ∃ written, (Document.json sampleObject).render? = some written ∧
      parse .json written = .ok (.json sampleObject) := by
  have hparse : parse .json sampleText =
      .ok (.json [("a", .array [.number "1e+5", .object []])]) := by
    have htokens : Json.Token.readAll? sampleText.toList = some [.openObject, .string ['a'], .colon,
        .openArray, .number ['1', 'e', '+', '5'], .comma, .openObject, .closeObject, .closeArray,
        .closeObject] := by
      rw [sampleText, String.toList_ofList]
      decide
    have hblank : Text.trim sampleText.toList ≠ [] := by
      rw [sampleText, String.toList_ofList]
      decide
    simp only [parse, parseJson, Json.Value.read?, htokens, hblank, if_false]
    rfl
  have hset : (Document.json [("a", .array [.number "1e+5", .object []])]).setAll [sampleUpdate] =
      .ok (.json sampleObject, true) := rfl
  have hunmarked : (Json.Value.object sampleObject).Unmarked := by
    have hmark : "a".toList ≠ Json.Value.numberMark ∧ "c".toList ≠ Json.Value.numberMark := by
      decide
    have harray : (Json.Value.array [.number "1e+5", .object []]).Unmarked := by
      refine .array (List.forall_mem_cons.2 ⟨.number _, List.forall_mem_singleton.2 ?_⟩)
      exact .object (by simp) (List.forall_mem_nil _)
    have hobject : (Json.Value.object [("c", .string "\"\x01\n")]).Unmarked := by
      refine .object ?_ (List.forall_mem_singleton.2 (.string _))
      rintro _ ⟨⟩
      exact hmark.2
    refine .object ?_ (List.forall_mem_cons.2 ⟨harray, List.forall_mem_singleton.2 hobject⟩)
    rintro _ ⟨⟩
    exact hmark.1
  have hdepth : (Json.Value.object sampleObject).depth ≤ 127 := by decide
  obtain ⟨entries, dirty, hset', hback⟩ := parse_render_json hparse [sampleUpdate]
  cases hset.symm.trans hset'
  exact ⟨_, hparse, hset, hunmarked, hdepth, hback hunmarked hdepth⟩

end Document

end ConfigGraft
