import ConfigGraft.Proofs.Nested.Lookup

/-!
# Setting the same texts again

A list of texts is set in a tree, and then set again. Texts in the list may get in each other's way,
so that the second time tears down what the first has left and builds it anew. It builds the same
tree, with its keys in the same order.

The proof looks at one segment at a time. What a list does to the value at a segment depends on that
value and on the updates that go through the segment, and on nothing else. If one of them ends
there, its text is a fresh start, so the value before does not matter. If none does, the list works
within the mapping at the segment, along shorter paths. As all keys are there after the first time,
the second time leaves them in their order.

## Main results

* `Nested.set_eq_ok`, `Nested.set_of_passable` — setting succeeds where no closed mapping is in the
  way, and does then what `Nested.assign` does;
* `Nested.find?_assignAll` — what a list of texts does at one segment;
* `Nested.assignAll_eq_self` — a list that leaves each value as it is leaves the mapping as it is;
* `Nested.assignAll_assignAll` — **setting the same texts again changes nothing.**
-/

namespace ConfigGraft.Nested

variable {κ ν : Type} [Nested κ ν]

/-! ### Setting without failure -/

/-- Sets the text at a path, as if no mapping were closed. -/
def assign (text : String) : List String → List (κ × ν) → List (κ × ν)
  | [], es => es
  | [leaf], es => put leaf (ofText text) es
  | segment :: next :: more, es =>
    put segment (ofEntries (assign text (next :: more) (inside (find? segment es)))) es

/-- The value that comes of setting a text below a value, or in its place. -/
def graft (text : String) (tail : List String) (old? : Option ν) : ν :=
  if tail = [] then ofText text else ofEntries (assign text tail (inside old?))

/-- Assigning at a longer path is grafting under its first segment. -/
theorem assign_cons (text segment : String) (tail : List String) (es : List (κ × ν)) :
    assign text (segment :: tail) es = put segment (graft text tail (find? segment es)) es := by
  cases tail <;> rfl

/-- Whether no mapping that a path leads through is closed. -/
def Passable : List String → List (κ × ν) → Prop
  | segment :: next :: more, es =>
    closed (find? segment es) = false ∧ Passable (next :: more) (inside (find? segment es))
  | _, _ => True

/-- A set that succeeds met no closed mapping, and assigns. -/
theorem set_eq_ok {text : String} {path : List String} {es es' : List (κ × ν)} {changed : Bool}
    (h : set text path es = .ok (es', changed)) : Passable path es ∧ es' = assign text path es := by
  induction path generalizing es es' with
  | nil =>
      cases h
      exact ⟨trivial, rfl⟩
  | cons segment more ih =>
      cases more with
      | nil =>
          cases h
          exact ⟨trivial, rfl⟩
      | cons next more =>
          obtain ⟨hopen, inner, hset, rfl⟩ := set_cons_eq_ok.1 h
          obtain ⟨hpassable, rfl⟩ := ih hset
          exact ⟨⟨hopen, hpassable⟩, rfl⟩

/-- A set succeeds if no closed mapping is on the way. -/
theorem set_of_passable {path : List String} {es : List (κ × ν)} (text : String)
    (h : Passable path es) : ∃ changed, set text path es = .ok (assign text path es, changed) := by
  induction path generalizing es with
  | nil => exact ⟨false, rfl⟩
  | cons segment more ih =>
      cases more with
      | nil => exact ⟨_, rfl⟩
      | cons next more =>
          obtain ⟨hopen, hinner⟩ := h
          obtain ⟨changed, hset⟩ := ih hinner
          exact ⟨changed, set_cons_eq_ok.2 ⟨hopen, _, hset, rfl⟩⟩

/-- Nothing is in the way among no entries. -/
theorem passable_nil (path : List String) : Passable path ([] : List (κ × ν)) := by
  induction path with
  | nil => trivial
  | cons segment more ih =>
      cases more with
      | nil => trivial
      | cons next more => exact ⟨rfl, ih⟩

/-- A closed mapping on the way of a path does not come from setting a text. -/
theorem passable_assign [Lawful κ ν] {path : List String} {es : List (κ × ν)} (h : Passable path es)
    (text : String) (other : List String) : Passable path (assign text other es) := by
  induction other generalizing path es with
  | nil => exact h
  | cons first tail ih =>
      cases path with
      | nil => trivial
      | cons segment more =>
          cases more with
          | nil => trivial
          | cons next more =>
              obtain ⟨hopen, hinner⟩ := h
              rw [assign_cons, Passable, find?_put]
              by_cases hsegment : segment = first
              · subst hsegment
                rw [if_pos rfl, graft]
                split
                · simpa [closed, inside] using passable_nil _
                · simpa [closed, inside] using ih hinner
              · rw [if_neg hsegment]
                exact ⟨hopen, hinner⟩

/-! ### Lists of texts -/

/-- Sets texts at paths, from the first to the last. -/
def assignAll (updates : List (List String × String)) (es : List (κ × ν)) : List (κ × ν) :=
  updates.foldl (fun es update => assign update.2 update.1 es) es

/-- The value that comes of setting texts below a value, or in its place. -/
def graftAll (updates : List (List String × String)) (old? : Option ν) : Option ν :=
  updates.foldl (fun old? update => some (graft update.2 update.1 old?)) old?

/-- A list is assigned one update after the other. -/
theorem assignAll_cons (update : List String × String) (rest : List (List String × String))
    (es : List (κ × ν)) :
    assignAll (update :: rest) es = assignAll rest (assign update.2 update.1 es) := rfl

/-- So it is grafted. -/
theorem graftAll_cons (update : List String × String) (rest : List (List String × String))
    (old? : Option ν) :
    graftAll (update :: rest) old? = graftAll rest (some (graft update.2 update.1 old?)) := rfl

/-- No assignment puts anything in the way. -/
theorem passable_assignAll [Lawful κ ν] {path : List String} {es : List (κ × ν)}
    (h : Passable path es) (updates : List (List String × String)) :
    Passable path (assignAll updates es) := by
  induction updates generalizing es with
  | nil => exact h
  | cons update rest ih => exact ih (passable_assign h update.2 update.1)

/-! ### Lists at one segment -/

/-- The updates that go through a segment, with their paths from there on. -/
def tails (segment : String) (updates : List (List String × String)) :
    List (List String × String) :=
  updates.filterMap fun (path, text) =>
    match path with
    | [] => none
    | first :: tail => if first = segment then some (tail, text) else none

/-- The updates that do not go through a segment. -/
def others (segment : String) (updates : List (List String × String)) :
    List (List String × String) :=
  updates.filter fun update => update.1.head? ≠ some segment

section

variable {segment first text : String} {tail : List String} {rest : List (List String × String)}

/-- An update under the segment adds its tail. -/
theorem tails_cons_self :
    tails segment ((segment :: tail, text) :: rest) = (tail, text) :: tails segment rest := by
  simp [tails]

/-- An update elsewhere adds none. -/
theorem tails_cons_of_ne (h : first ≠ segment) :
    tails segment ((first :: tail, text) :: rest) = tails segment rest := by
  simp [tails, h]

/-- An update under the segment is not among the others. -/
theorem others_cons_self :
    others segment ((segment :: tail, text) :: rest) = others segment rest := by
  simp [others]

/-- An update elsewhere is. -/
theorem others_cons_of_ne (h : first ≠ segment) :
    others segment ((first :: tail, text) :: rest) =
      (first :: tail, text) :: others segment rest := by
  simp [others, h]

end

/-- The tails are those of the updates under the segment. -/
theorem mem_tails {segment text : String} {tail : List String}
    {updates : List (List String × String)} :
    (tail, text) ∈ tails segment updates ↔ (segment :: tail, text) ∈ updates := by
  simp only [tails, List.mem_filterMap]
  constructor
  · rintro ⟨⟨path, text'⟩, hmem, heq⟩
    cases path with
    | nil => cases heq
    | cons first tail' =>
        simp only [Option.ite_none_right_eq_some, Option.some.injEq, Prod.mk.injEq] at heq
        obtain ⟨rfl, rfl, rfl⟩ := heq
        exact hmem
  · intro hmem
    exact ⟨_, hmem, if_pos rfl⟩

/-- Leaving out what goes through a segment leaves what goes through another one. -/
theorem tails_others (segment other : String) (updates : List (List String × String)) :
    tails other (others segment updates) =
      if other = segment then [] else tails other updates := by
  induction updates with
  | nil => simp [tails, others]
  | cons update rest ih =>
      obtain ⟨path, text⟩ := update
      cases path with
      | nil => exact ih
      | cons first tail =>
          by_cases hfirst : first = segment
          · subst hfirst
            rw [others_cons_self, ih]
            split
            · rfl
            · rename_i hother
              rw [tails_cons_of_ne (Ne.symm hother)]
          · rw [others_cons_of_ne hfirst]
            by_cases hother : first = other
            · subst hother
              rw [tails_cons_self, tails_cons_self, ih, if_neg hfirst, if_neg hfirst]
            · rw [tails_cons_of_ne hother, tails_cons_of_ne hother, ih]

/-- Where there is a value, there is one afterwards. -/
theorem exists_graftAll_eq (updates : List (List String × String)) (v : ν) :
    ∃ w, graftAll updates (some v) = some w := by
  induction updates generalizing v with
  | nil => exact ⟨v, rfl⟩
  | cons update rest ih => exact ih _

/-- All updates go past an entry that no segment names. -/
theorem assignAll_cons_other {k : κ} (hkey : ∀ segment, ¬ isKey ν segment k = true)
    (updates : List (List String × String)) (v : ν) (es : List (κ × ν)) :
    assignAll updates ((k, v) :: es) = (k, v) :: assignAll updates es := by
  induction updates generalizing es with
  | nil => rfl
  | cons update rest ih =>
      obtain ⟨path, text⟩ := update
      cases path with
      | nil => exact ih es
      | cons first tail =>
          rw [assignAll_cons, assign_cons, put, find?, if_neg (hkey first), if_neg (hkey first), ih,
            assignAll_cons, assign_cons]

variable [Lawful κ ν]

/-- What a list of texts does at one segment. -/
theorem find?_assignAll (segment : String) (updates : List (List String × String))
    (es : List (κ × ν)) :
    find? segment (assignAll updates es) = graftAll (tails segment updates) (find? segment es) := by
  induction updates generalizing es with
  | nil => rfl
  | cons update rest ih =>
      obtain ⟨path, text⟩ := update
      rw [assignAll_cons, ih]
      cases path with
      | nil => rfl
      | cons first tail =>
          rw [assign_cons, find?_put]
          by_cases hfirst : first = segment
          · subst hfirst
            rw [if_pos rfl, tails_cons_self, graftAll_cons]
          · rw [if_neg (Ne.symm hfirst), tails_cons_of_ne hfirst]

/-- The key of a segment is the key of no other. -/
theorem not_isKey_key {segment other : String} (h : other ≠ segment) :
    ¬ isKey ν other (key ν segment) = true := fun hkey =>
  h (Lawful.key_injective (Lawful.isKey_iff.1 hkey)).symm

/-- Updates go through the first entry of a mapping at its segment, and else past it. -/
theorem assignAll_cons_entry {segment : String} {updates : List (List String × String)} {v w : ν}
    (hw : graftAll (tails segment updates) (some v) = some w) (es : List (κ × ν)) :
    assignAll updates ((key ν segment, v) :: es) =
      (key ν segment, w) :: assignAll (others segment updates) es := by
  induction updates generalizing v es with
  | nil =>
      cases hw
      rfl
  | cons update rest ih =>
      obtain ⟨path, text⟩ := update
      cases path with
      | nil => exact ih hw es
      | cons first tail =>
          rw [assignAll_cons, assign_cons]
          by_cases hfirst : first = segment
          · subst hfirst
            have hkey : isKey ν first (key ν first) = true := Lawful.isKey_iff.2 rfl
            rw [tails_cons_self, graftAll_cons] at hw
            rw [others_cons_self, put, find?, if_pos hkey, if_pos hkey]
            exact ih hw es
          · have hkey := not_isKey_key (ν := ν) hfirst
            rw [tails_cons_of_ne hfirst] at hw
            rw [others_cons_of_ne hfirst, put, find?, if_neg hkey, if_neg hkey, assignAll_cons,
              assign_cons]
            exact ih hw _

/-- **A list that leaves each value as it is leaves the mapping as it is.** -/
theorem assignAll_eq_self {updates : List (List String × String)} {es : List (κ × ν)}
    (h : ∀ segment, graftAll (tails segment updates) (find? segment es) = find? segment es) :
    assignAll updates es = es := by
  induction es generalizing updates with
  | nil =>
      -- Nothing is found, so no update goes through any segment.
      induction updates with
      | nil => rfl
      | cons update rest ih =>
          obtain ⟨path, text⟩ := update
          cases path with
          | nil => exact ih h
          | cons first tail =>
              obtain ⟨w, hw⟩ := exists_graftAll_eq (tails first rest) (graft text tail none : ν)
              have hfirst := h first
              rw [tails_cons_self, graftAll_cons, find?, hw] at hfirst
              cases hfirst
  | cons e rest ih =>
      obtain ⟨k, v⟩ := e
      by_cases hkey : ∃ segment, isKey ν segment k = true
      · obtain ⟨segment, hsegment⟩ := hkey
        obtain rfl := Lawful.isKey_iff.1 hsegment
        have hself := h segment
        rw [find?, if_pos hsegment] at hself
        rw [assignAll_cons_entry hself, ih]
        intro other
        rw [tails_others]
        by_cases hother : other = segment
        · rw [if_pos hother]
          rfl
        · rw [if_neg hother]
          simpa only [find?, if_neg (not_isKey_key hother)] using h other
      · have hkey' := not_exists.1 hkey
        rw [assignAll_cons_other hkey', ih]
        intro segment
        simpa only [find?, if_neg (hkey' segment)] using h segment

/-! ### Lists below a value -/

/-- Below a value, updates set texts in the mapping that it shows. -/
theorem graftAll_eq_ofEntries {updates : List (List String × String)} (hne : updates ≠ [])
    (hpaths : ∀ update ∈ updates, update.1 ≠ []) (old? : Option ν) :
    graftAll updates old? = some (ofEntries (assignAll updates (inside old?))) := by
  induction updates generalizing old? with
  | nil => exact absurd rfl hne
  | cons update rest ih =>
      obtain ⟨hupdate, hrest⟩ := List.forall_mem_cons.1 hpaths
      rw [graftAll_cons, assignAll_cons, graft, if_neg hupdate]
      cases rest with
      | nil => rfl
      | cons second rest =>
          rw [ih (List.cons_ne_nil _ _) hrest, inside, Option.bind_some,
            Lawful.entries?_ofEntries]
          rfl

/-- Where updates set the same texts again in every mapping, they do so below every value. -/
theorem graftAll_graftAll {updates : List (List String × String)}
    (h : ∀ es : List (κ × ν), assignAll updates (assignAll updates es) = assignAll updates es)
    (old? : Option ν) : graftAll updates (graftAll updates old?) = graftAll updates old? := by
  by_cases htext : ∃ text, ([], text) ∈ updates
  · -- A text in place of the value is a fresh start.
    obtain ⟨text, hmem⟩ := htext
    obtain ⟨front, back, rfl⟩ := List.append_of_mem hmem
    have hfresh (old? : Option ν) :
        graftAll (front ++ ([], text) :: back) old? = graftAll back (some (ofText text)) := by
      simp [graftAll, graft]
    rw [hfresh, hfresh]
  · have hpaths : ∀ update ∈ updates, update.1 ≠ [] := by
      rintro ⟨path, text⟩ hmem rfl
      exact htext ⟨text, hmem⟩
    by_cases hne : updates = []
    · rw [hne]
      rfl
    · rw [graftAll_eq_ofEntries hne hpaths, graftAll_eq_ofEntries hne hpaths, inside,
        Option.bind_some, Lawful.entries?_ofEntries, Option.getD_some, h]

/-- The paths of a list are shorter than some bound, on which the induction over them runs. -/
theorem exists_length_lt (updates : List (List String × String)) :
    ∃ bound, ∀ update ∈ updates, update.1.length < bound := by
  induction updates with
  | nil => exact ⟨0, nofun⟩
  | cons update rest ih =>
      obtain ⟨bound, hbound⟩ := ih
      refine ⟨max (update.1.length + 1) bound, List.forall_mem_cons.2 ⟨by omega, ?_⟩⟩
      intro later hmem
      have hlater := hbound later hmem
      omega

/-- **Setting the same texts again changes nothing.** -/
theorem assignAll_assignAll (updates : List (List String × String)) (es : List (κ × ν)) :
    assignAll updates (assignAll updates es) = assignAll updates es := by
  -- The induction is on a bound for the lengths of the paths.
  obtain ⟨bound, hbound⟩ := exists_length_lt updates
  induction bound generalizing updates es with
  | zero =>
      cases updates with
      | nil => rfl
      | cons update rest => exact absurd (hbound update List.mem_cons_self) (Nat.not_lt_zero _)
  | succ bound ih =>
      apply assignAll_eq_self
      intro segment
      have htails : ∀ update ∈ tails segment updates, update.1.length < bound := by
        rintro ⟨tail, text⟩ hmem
        exact Nat.lt_of_succ_lt_succ (hbound _ (mem_tails.1 hmem))
      rw [find?_assignAll]
      exact graftAll_graftAll (fun es => ih _ es htails) _

end ConfigGraft.Nested
