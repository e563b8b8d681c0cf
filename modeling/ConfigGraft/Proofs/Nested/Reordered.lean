import ConfigGraft.Proofs.Nested.Again

/-!
# Trees up to the order of their keys

Texts at paths of which none leads to another can be set in any order. What comes of it is the same
tree, except that keys which are new to a mapping stand in the order in which they came.

`Reordered` says when trees differ by nothing but the order of keys. Only entries with different
keys may change places, so trees that are the same in this sense find the same at every segment, and
setting a text keeps them so, even where a mapping has a key twice.

## Main results

* `Nested.Reordered.keys_perm` — what stays the same under reordering;
* `Nested.Reordered.assign` — setting a text in both trees keeps them the same up to order;
* `Nested.assign_assign` — two texts apart can be set in either order;
* `Nested.assignAll_perm` — **texts apart can be set in any order.**
-/

namespace ConfigGraft.Nested

variable {κ ν : Type} [Nested κ ν]

/-- **Trees are the same up to the order of keys** if one comes of the other by letting neighbours
with different keys change places, in the tree itself or in the mappings within it. -/
inductive Reordered : List (κ × ν) → List (κ × ν) → Prop
  | refl (es : List (κ × ν)) : Reordered es es
  | swap {k l : κ} (hne : k ≠ l) (v w : ν) (es : List (κ × ν)) :
      Reordered ((k, v) :: (l, w) :: es) ((l, w) :: (k, v) :: es)
  | behind (e : κ × ν) {es fs : List (κ × ν)} : Reordered es fs → Reordered (e :: es) (e :: fs)
  | within (k : κ) {is js : List (κ × ν)} (es : List (κ × ν)) :
      Reordered is js → Reordered ((k, ofEntries is) :: es) ((k, ofEntries js) :: es)
  | trans {es fs gs : List (κ × ν)} : Reordered es fs → Reordered fs gs → Reordered es gs

/-- Paths are **apart** if neither leads to the other. -/
def Apart (path other : List String) : Prop := ¬ path <+: other ∧ ¬ other <+: path

/-- Being apart goes both ways. -/
theorem Apart.symm {path other : List String} (h : Apart path other) : Apart other path :=
  ⟨h.2, h.1⟩

/-- Paths that are apart and begin with the same segment lead on from there, and part later. -/
theorem Apart.tails {segment : String} {path other : List String}
    (h : Apart (segment :: path) (segment :: other)) :
    path ≠ [] ∧ other ≠ [] ∧ Apart path other := by
  obtain ⟨hpath, hother⟩ := h
  simp only [List.cons_prefix_cons, true_and] at hpath hother
  refine ⟨?_, ?_, hpath, hother⟩
  · rintro rfl
    exact hpath List.nil_prefix
  · rintro rfl
    exact hother List.nil_prefix

/-- A segment names one key. -/
theorem eq_of_isKey [Lawful κ ν] {segment : String} {k l : κ} (hk : isKey ν segment k = true)
    (hl : isKey ν segment l = true) : k = l :=
  (Lawful.isKey_iff.1 hk).trans (Lawful.isKey_iff.1 hl).symm

namespace Reordered

variable {es fs : List (κ × ν)}

/-- The keys are the same, each as often as before. -/
theorem keys_perm (h : Reordered es fs) : (es.map Prod.fst).Perm (fs.map Prod.fst) := by
  induction h with
  | refl es => exact .refl _
  | swap _ v w es => exact .swap _ _ _
  | behind e _ ih => exact .cons _ ih
  | within k es _ _ => exact .refl _
  | trans _ _ ih ih' => exact ih.trans ih'

/-- Reordered entries are as many. -/
theorem length_eq (h : Reordered es fs) : es.length = fs.length := by
  simpa only [List.length_map] using h.keys_perm.length_eq

/-! ### Looking up -/

variable [Lawful κ ν]

/-- **The same value is found at a segment,** or mappings that are the same up to order. -/
theorem find?_eq (h : Reordered es fs) (segment : String) :
    find? segment es = find? segment fs ∨ ∃ is js, Reordered is js ∧
      find? segment es = some (ofEntries is) ∧ find? segment fs = some (ofEntries js) := by
  induction h with
  | refl es => exact .inl rfl
  | @swap k l hne v w es =>
      left
      simp only [find?]
      split
      · rename_i hk
        rw [if_neg fun hl => hne (eq_of_isKey hk hl)]
      · rfl
  | behind e _ ih =>
      obtain ⟨k, v⟩ := e
      simp only [find?]
      split
      · exact .inl rfl
      · exact ih
  | @within k is js es h _ =>
      simp only [find?]
      split
      · exact .inr ⟨is, js, h, rfl, rfl⟩
      · exact .inl rfl
  | trans _ _ ih ih' =>
      rcases ih with heq | ⟨is, js, hij, his, hjs⟩
      · rwa [heq]
      · rcases ih' with heq | ⟨js', ls, hjl, hjs', hls⟩
        · exact .inr ⟨is, js, hij, his, heq ▸ hjs⟩
        · obtain rfl : js = js' := by
            have hinj := congrArg entries? (Option.some.inj (hjs.symm.trans hjs'))
            simpa only [Lawful.entries?_ofEntries, Option.some.injEq] using hinj
          exact .inr ⟨is, ls, hij.trans hjl, his, hls⟩

/-- The mappings at a segment are the same up to order. -/
theorem inside (h : Reordered es fs) (segment : String) :
    Reordered (inside (find? segment es)) (inside (find? segment fs)) := by
  rcases h.find?_eq segment with heq | ⟨is, js, hij, his, hjs⟩
  · rw [heq]
    exact .refl _
  · simpa only [Nested.inside, his, hjs, Option.bind_some, Lawful.entries?_ofEntries,
      Option.getD_some] using hij

/-! ### Setting a text in both -/

/-- They stay reordered when the same is put into both. -/
theorem put (h : Reordered es fs) (segment : String) (v : ν) :
    Reordered (put segment v es) (put segment v fs) := by
  induction h with
  | refl es => exact .refl _
  | @swap k l hne u w es =>
      simp only [Nested.put]
      split
      · rename_i hk
        rw [if_neg fun hl => hne (eq_of_isKey hk hl)]
        exact .swap hne _ _ _
      · split
        · exact .swap hne _ _ _
        · exact .swap hne _ _ _
  | behind e h ih =>
      obtain ⟨k, u⟩ := e
      simp only [Nested.put]
      split
      · exact .behind _ h
      · exact .behind _ ih
  | within k es h _ =>
      simp only [Nested.put]
      split
      · exact .refl _
      · exact .within _ _ h
  | trans _ _ ih ih' => exact ih.trans ih'

omit [Lawful κ ν] in
/-- Mappings that are the same up to order can be put at a segment. -/
theorem put_ofEntries {is js : List (κ × ν)} (h : Reordered is js) (segment : String)
    (es : List (κ × ν)) :
    Reordered (Nested.put segment (ofEntries is) es) (Nested.put segment (ofEntries js) es) := by
  induction es with
  | nil => exact .within _ [] h
  | cons e rest ih =>
      obtain ⟨k, v⟩ := e
      simp only [Nested.put]
      split
      · exact .within _ _ h
      · exact .behind _ ih

/-- **Setting a text in both trees keeps them the same up to order.** -/
theorem assign (h : Reordered es fs) (text : String) (path : List String) :
    Reordered (assign text path es) (assign text path fs) := by
  induction path generalizing es fs with
  | nil => exact h
  | cons segment more ih =>
      cases more with
      | nil => exact h.put segment _
      | cons next more =>
          exact (h.put segment _).trans (put_ofEntries (ih (h.inside segment)) segment fs)

/-- They stay so when the same list is assigned. -/
theorem assignAll (h : Reordered es fs) (updates : List (List String × String)) :
    Reordered (assignAll updates es) (assignAll updates fs) := by
  induction updates generalizing es fs with
  | nil => exact h
  | cons update rest ih => exact ih (h.assign update.2 update.1)

end Reordered

/-! ### Two texts -/

variable [Lawful κ ν]

/-- The last value that is put at a segment counts. -/
theorem put_put (segment : String) (v w : ν) (es : List (κ × ν)) :
    put segment v (put segment w es) = put segment v es := by
  induction es with
  | nil =>
      have hkey : isKey ν segment (key ν segment) = true := Lawful.isKey_iff.2 rfl
      simp only [put, if_pos hkey]
  | cons e rest ih =>
      obtain ⟨k, u⟩ := e
      rw [put]
      split
      · rename_i hk
        rw [put, if_pos hk, put, if_pos hk]
      · rename_i hk
        rw [put, if_neg hk, ih, put, if_neg hk]

/-- Values at two segments can be put in either order. -/
theorem put_comm {segment other : String} (hne : segment ≠ other) (v w : ν) (es : List (κ × ν)) :
    Reordered (put segment v (put other w es)) (put other w (put segment v es)) := by
  induction es with
  | nil =>
      have hkeys : key ν other ≠ key ν segment := fun h => hne (Lawful.key_injective h).symm
      simp only [put, if_neg (not_isKey_key hne), if_neg (not_isKey_key hne.symm)]
      exact .swap hkeys w v []
  | cons e rest ih =>
      obtain ⟨k, u⟩ := e
      by_cases hsegment : isKey ν segment k = true
      · have hother : ¬ isKey ν other k = true :=
          Lawful.isKey_iff.1 hsegment ▸ not_isKey_key hne.symm
        simp only [put, if_pos hsegment, if_neg hother]
        exact .refl _
      · by_cases hother : isKey ν other k = true
        · simp only [put, if_neg hsegment, if_pos hother]
          exact .refl _
        · simp only [put, if_neg hsegment, if_neg hother]
          exact .behind _ ih

omit [Lawful κ ν] in
/-- Below a value, the mapping that it shows is changed. -/
theorem graft_of_ne_nil {tail : List String} (h : tail ≠ []) (text : String) (old? : Option ν) :
    graft text tail old? = ofEntries (assign text tail (inside old?)) := if_neg h

/-- **Two texts apart can be set in either order.** -/
theorem assign_assign {path other : List String} (h : Apart path other) (text text' : String)
    (es : List (κ × ν)) :
    Reordered (assign text' other (assign text path es))
      (assign text path (assign text' other es)) := by
  induction path generalizing other es with
  | nil => exact absurd List.nil_prefix h.1
  | cons segment more ih =>
      cases other with
      | nil => exact absurd List.nil_prefix h.2
      | cons first back =>
          simp only [assign_cons, find?_put]
          by_cases hfirst : first = segment
          · -- Both texts are set in the mapping at the segment, where the induction applies.
            subst hfirst
            obtain ⟨hmore, hback, hapart⟩ := h.tails
            simp only [if_pos, put_put, graft_of_ne_nil hmore, graft_of_ne_nil hback, inside,
              Option.bind_some, Lawful.entries?_ofEntries, Option.getD_some]
            exact .put_ofEntries (ih hapart _) first es
          · rw [if_neg hfirst, if_neg (Ne.symm hfirst)]
            exact put_comm hfirst _ _ es

/-- Setting a text apart from a path opens no mapping on the way of the path. -/
theorem passable_of_assign {path other : List String} (h : Apart path other) {text : String}
    {es : List (κ × ν)} (hother : Passable other es)
    (hpath : Passable path (assign text other es)) : Passable path es := by
  induction path generalizing other es with
  | nil => trivial
  | cons segment more ih =>
      cases more with
      | nil => trivial
      | cons next more =>
          cases other with
          | nil => exact absurd List.nil_prefix h.2
          | cons first back =>
              rw [assign_cons, Passable, find?_put] at hpath
              by_cases hfirst : segment = first
              · -- The other path goes through the same mapping, so that is open.
                subst hfirst
                obtain ⟨-, hback, hapart⟩ := h.tails
                obtain ⟨second, back, rfl⟩ := List.exists_cons_of_ne_nil hback
                rw [if_pos rfl, graft_of_ne_nil hback] at hpath
                simp only [inside, Option.bind_some, Lawful.entries?_ofEntries,
                  Option.getD_some] at hpath
                exact ⟨hother.1, ih hapart hother.2 hpath.2⟩
              · rwa [if_neg hfirst] at hpath

/-! ### Lists of texts -/

/-- **Texts apart can be set in any order.** -/
theorem assignAll_perm {updates others : List (List String × String)} (hperm : updates.Perm others)
    (hapart : updates.Pairwise fun update other => Apart update.1 other.1) (es : List (κ × ν)) :
    Reordered (assignAll updates es) (assignAll others es) := by
  induction hperm generalizing es with
  | nil => exact .refl es
  | cons update _ ih => exact ih hapart.of_cons _
  | swap update other rest =>
      have hheads : Apart other.1 update.1 := List.rel_of_pairwise_cons hapart List.mem_cons_self
      exact (assign_assign hheads _ _ es).assignAll rest
  | trans hleft _ ih ih' =>
      exact (ih hapart es).trans (ih' ((hleft.pairwise_iff Apart.symm).1 hapart) es)

end ConfigGraft.Nested
