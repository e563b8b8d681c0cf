import ConfigGraft.Nested

/-!
# Texts that are set where they stand already

Setting a text says whether it was another one before. Where it was not, nothing should change. This
is not so for every tree: a value can show a text and hold more than that, as one under a tag does,
and setting the text takes the rest away. Trees without such values are called plain.

## Main results

* `Nested.set_cons` — a text is set below a segment by setting it in the mapping there;
* `Nested.set_unchanged` — **in a plain tree, a text that is there already changes nothing;**
* `Nested.Kept.set` — **what setting keeps holds of a mapping in which a text was set;**
* `Nested.kept_all` — a plain tree stays plain.
-/

namespace ConfigGraft

/-- A map has a result where what it is applied to has one. -/
theorem map_eq_ok {ε α β : Type} {x : Except ε α} {f : α → β} {b : β} :
    x.map f = .ok b ↔ ∃ a, x = .ok a ∧ f a = b := by
  cases x with
  | error e => simp [Except.map]
  | ok a => simp [Except.map]

namespace Nested

variable {κ ν : Type} [Nested κ ν]

/-! ### Below a segment -/

/-- The mapping that a value shows, or the empty one. -/
def inside (old? : Option ν) : List (κ × ν) := (old?.bind entries?).getD []

/-- Whether a value shows a mapping that is closed to changes. -/
def closed (old? : Option ν) : Bool :=
  old?.any fun child => (entries? child).isSome && isSealed child

/-- **A text is set below a segment by setting it in the mapping there,** unless that is closed. -/
theorem set_cons (value segment next : String) (more : List String) (es : List (κ × ν)) :
    set value (segment :: next :: more) es =
      if closed (find? segment es) then .error .mk
      else (set value (next :: more) (inside (find? segment es))).map fun (inner, changed) =>
        (put segment (ofEntries inner) es, changed) := by
  have hdescend (x : Except SealedMapping (List (κ × ν) × Bool)) :
      set.descend segment es x =
        x.map fun (inner, changed) => (put segment (ofEntries inner) es, changed) := by
    cases x <;> rfl
  rw [set]
  cases hfind : find? segment es with
  | none => exact hdescend _
  | some child =>
      cases hentries : entries? child with
      | none => simp [closed, inside, hentries, hdescend]
      | some inner => cases hsealed : isSealed child <;>
          simp [closed, inside, hentries, hsealed, hdescend]

/-- What is set below a segment comes of setting it in the mapping there, which is not closed. -/
theorem set_cons_eq_ok {value segment next : String} {more : List String}
    {es es' : List (κ × ν)} {changed : Bool} :
    set value (segment :: next :: more) es = .ok (es', changed) ↔
      closed (find? segment es) = false ∧ ∃ inner,
        set value (next :: more) (inside (find? segment es)) = .ok (inner, changed) ∧
        es' = put segment (ofEntries inner) es := by
  rw [set_cons]
  cases closed (find? segment es) with
  | true => simp
  | false =>
      simp only [Bool.false_eq_true, if_false, map_eq_ok, true_and]
      constructor
      · rintro ⟨⟨inner, changed'⟩, hset, heq⟩
        cases heq
        exact ⟨inner, hset, rfl⟩
      · rintro ⟨inner, hset, rfl⟩
        exact ⟨_, hset, rfl⟩

/-- Where no value is closed to changes, a text can be set at every path. -/
theorem exists_set (hopen : ∀ v : ν, isSealed v = false) (value : String) (path : List String)
    (es : List (κ × ν)) : ∃ es' changed, set value path es = .ok (es', changed) := by
  induction path generalizing es with
  | nil => exact ⟨es, false, rfl⟩
  | cons segment more ih =>
      cases more with
      | nil => exact ⟨_, _, rfl⟩
      | cons next more =>
          have hclosed : closed (find? segment es) = false := by simp [closed, hopen]
          obtain ⟨inner, changed, hset⟩ := ih (inside (find? segment es))
          exact ⟨_, changed, set_cons_eq_ok.2 ⟨hclosed, inner, hset, rfl⟩⟩

/-- The mapping that a value shows, if it is not empty, is there. -/
theorem inside_eq (old? : Option ν) : inside old? = [] ∨
    ∃ child, old? = some child ∧ entries? child = some (inside old?) := by
  cases old? with
  | none => exact .inl rfl
  | some child =>
      cases hentries : entries? child with
      | none => exact .inl (by simp [inside, hentries])
      | some inner => exact .inr ⟨child, rfl, by simp [inside, hentries]⟩

/-! ### Plain mappings -/

/-- A way to tell values that hold nothing but what they show: the keys and values that are plain,
and what follows for them. -/
structure Plain (κ ν : Type) [Nested κ ν] where
  key : κ → Prop
  value : ν → Prop
  key_segment : ∀ segment, key (Nested.key ν segment)
  value_ofText : ∀ text, value (ofText text)
  value_ofEntries : ∀ es : List (κ × ν), value (ofEntries es) ↔ ∀ e ∈ es, key e.1 ∧ value e.2
  eq_ofEntries : ∀ {v : ν} {es : List (κ × ν)}, value v → entries? v = some es → v = ofEntries es
  eq_ofText : ∀ {v : ν} {text : String}, value v → text? v = some text → v = ofText text

/-- Whether all keys and values of a mapping are plain. -/
def Plain.All (plain : Plain κ ν) (es : List (κ × ν)) : Prop :=
  ∀ e ∈ es, plain.key e.1 ∧ plain.value e.2

/-! ### One mapping -/

/-- Putting a value where it is changes nothing. -/
theorem put_find? {segment : String} {v : ν} {es : List (κ × ν)}
    (h : find? segment es = some v) : put segment v es = es := by
  induction es with
  | nil => cases h
  | cons e rest ih =>
      obtain ⟨k, w⟩ := e
      rw [find?] at h
      rw [put]
      split at h
      · rename_i hk
        rw [if_pos hk, Option.some.inj h]
      · rename_i hk
        rw [if_neg hk, ih h]

/-- What is found stands among the entries. -/
theorem mem_of_find? {segment : String} {v : ν} {es : List (κ × ν)}
    (h : find? segment es = some v) : ∃ k, (k, v) ∈ es := by
  induction es with
  | nil => cases h
  | cons e rest ih =>
      obtain ⟨k, w⟩ := e
      rw [find?] at h
      split at h
      · cases h
        exact ⟨k, List.mem_cons_self⟩
      · obtain ⟨k', hmem⟩ := ih h
        exact ⟨k', List.mem_cons_of_mem _ hmem⟩

namespace Plain

variable (plain : Plain κ ν)

/-- An entry that is put keeps a property of all entries. -/
theorem all_put {segment : String} {v : ν} {es : List (κ × ν)} (hes : plain.All es)
    (hv : plain.value v) : plain.All (put segment v es) := by
  induction es with
  | nil =>
      rintro e he
      obtain rfl := List.mem_singleton.1 he
      exact ⟨plain.key_segment segment, hv⟩
  | cons e rest ih =>
      obtain ⟨k, w⟩ := e
      obtain ⟨hhead, hrest⟩ := List.forall_mem_cons.1 hes
      rw [put]
      split
      · exact List.forall_mem_cons.2 ⟨⟨hhead.1, hv⟩, hrest⟩
      · exact List.forall_mem_cons.2 ⟨hhead, ih hrest⟩

/-- The mapping that a plain value of a plain mapping shows is all there is to it, and plain. -/
theorem of_find? {segment : String} {child : ν} {es inner : List (κ × ν)} (hes : plain.All es)
    (hfind : find? segment es = some child) (hinner : entries? child = some inner) :
    child = ofEntries inner ∧ plain.All inner := by
  obtain ⟨k, hmem⟩ := mem_of_find? hfind
  have hchild := (hes _ hmem).2
  have heq := plain.eq_ofEntries hchild hinner
  exact ⟨heq, (plain.value_ofEntries inner).1 (heq ▸ hchild)⟩

end Plain

/-! ### What setting keeps -/

/-- A property of mappings that **setting keeps**: putting a text keeps it, so does putting a
mapping that has the property, and the mappings in a mapping have it. -/
structure Kept (keeps : List (κ × ν) → Prop) : Prop where
  put_ofText : ∀ (segment text : String) {es : List (κ × ν)}, keeps es →
    keeps (put segment (ofText text) es)
  put_ofEntries : ∀ (segment : String) {inner es : List (κ × ν)}, keeps inner → keeps es →
    keeps (put segment (ofEntries inner) es)
  inside : ∀ (segment : String) {es : List (κ × ν)}, keeps es →
    keeps (inside (find? segment es))

/-- **What setting keeps holds of a mapping in which a text was set.** -/
theorem Kept.set {keeps : List (κ × ν) → Prop} (hkept : Kept keeps) {value : String}
    {path : List String} {es es' : List (κ × ν)} {changed : Bool} (hes : keeps es)
    (h : Nested.set value path es = .ok (es', changed)) : keeps es' := by
  induction path generalizing es es' with
  | nil =>
      cases h
      exact hes
  | cons segment more ih =>
      cases more with
      | nil =>
          cases h
          exact hkept.put_ofText segment value hes
      | cons next more =>
          obtain ⟨-, inner, hset, rfl⟩ := set_cons_eq_ok.1 h
          exact hkept.put_ofEntries segment (ih (hkept.inside segment hes) hset) hes

/-- The mapping at a key, or the empty one, has what all mappings in a mapping have. -/
theorem inside_of_forall_mem (keeps : List (κ × ν) → Prop) (hnil : keeps []) {es : List (κ × ν)}
    (h : ∀ e ∈ es, ∀ inner, entries? e.2 = some inner → keeps inner)
    (segment : String) : keeps (inside (find? segment es)) := by
  rcases inside_eq (find? segment es) with hinside | ⟨child, hfind, hentries⟩
  · rw [hinside]
    exact hnil
  · obtain ⟨k, hmem⟩ := mem_of_find? hfind
    exact h _ hmem _ hentries

/-- What is in a mapping after a value was put is that value, or was there before. -/
theorem mem_put {segment : String} {v : ν} {es : List (κ × ν)} {e : κ × ν}
    (h : e ∈ put segment v es) : e.2 = v ∨ e ∈ es := by
  induction es with
  | nil =>
      obtain rfl := List.mem_singleton.1 h
      exact .inl rfl
  | cons first rest ih =>
      obtain ⟨k, w⟩ := first
      rw [put] at h
      split at h
      · rcases List.mem_cons.1 h with rfl | hrest
        · exact .inl rfl
        · exact .inr (List.mem_cons_of_mem _ hrest)
      · rcases List.mem_cons.1 h with rfl | hrest
        · exact .inr List.mem_cons_self
        · exact (ih hrest).imp_right (List.mem_cons_of_mem _)

/-! ### Paths -/

/-- A text that is set in an empty mapping was not there before. -/
theorem changed_of_set_nil {value segment : String} {more : List String} {es' : List (κ × ν)}
    {changed : Bool} (h : set value (segment :: more) [] = .ok (es', changed)) :
    changed = true := by
  induction more generalizing segment es' with
  | nil =>
      cases h
      simp [find?]
  | cons next more ih =>
      obtain ⟨-, inner, hset, -⟩ := set_cons_eq_ok.1 h
      exact ih hset

variable (plain : Plain κ ν)

/-- **In a plain tree, a text that is there already changes nothing.** -/
theorem set_unchanged {value : String} {path : List String} {es es' : List (κ × ν)}
    (hes : plain.All es) (h : set value path es = .ok (es', false)) : es' = es := by
  induction path generalizing es es' with
  | nil =>
      cases h
      rfl
  | cons segment more ih =>
      cases more with
      | nil =>
          rw [set] at h
          obtain ⟨rfl, hsame⟩ := Prod.mk.inj (Except.ok.inj h)
          obtain ⟨v, hfind, htext⟩ := Option.bind_eq_some_iff.1 (bne_eq_false_iff_eq.1 hsame)
          obtain ⟨k, hmem⟩ := mem_of_find? hfind
          rw [← plain.eq_ofText (hes _ hmem).2 htext, put_find? hfind]
      | cons next more =>
          obtain ⟨-, inner, hset, rfl⟩ := set_cons_eq_ok.1 h
          rcases inside_eq (find? segment es) with hnil | ⟨child, hfind, hentries⟩
          · rw [hnil] at hset
            cases changed_of_set_nil hset
          · obtain ⟨hchild, hplain⟩ := plain.of_find? hes hfind hentries
            rw [ih hplain hset, ← hchild, put_find? hfind]

/-- A plain tree stays plain. -/
theorem kept_all : Kept plain.All where
  put_ofText _ text _ hes := plain.all_put hes (plain.value_ofText text)
  put_ofEntries _ _ _ hinner hes := plain.all_put hes ((plain.value_ofEntries _).2 hinner)
  inside segment es hes := by
    refine inside_of_forall_mem plain.All (List.forall_mem_nil _)
      (fun e he inner hinner => ?_) segment
    have hvalue := (hes e he).2
    exact (plain.value_ofEntries inner).1 (plain.eq_ofEntries hvalue hinner ▸ hvalue)

end Nested

end ConfigGraft
