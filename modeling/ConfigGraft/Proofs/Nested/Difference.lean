import ConfigGraft.Proofs.Nested.PointUpdate

/-!
# Texts that make no difference

Where a text is found at a path, setting it there makes no difference that a reader could see: every
path finds the text that it found before. The tree itself stays as it is unless the text is shown by
a value that holds more than it, such as one under a tag, and then the text alone takes its place.

## Main results

* `Nested.eq_of_get?_of_prefix` — no path at which a text is found leads on to another one;
* `Nested.set_eq_self_iff` — **when setting a text leaves a tree as it is.**
-/

namespace ConfigGraft.Nested

/-- **The laws of what values show:** no value shows a text and a mapping at once, and a value that
is open to changes is what is made of what it shows. -/
class Faithful (κ ν : Type) [Nested κ ν] : Prop where
  entries?_of_text? : ∀ {v : ν} {text : String}, text? v = some text → entries? v = none
  eq_ofEntries : ∀ {v : ν} {es : List (κ × ν)}, isSealed v = false → entries? v = some es →
    v = ofEntries es
  eq_ofText : ∀ {v : ν} {text : String}, isSealed v = false → text? v = some text → v = ofText text
  isSealed_ofText : ∀ text : String, isSealed (ofText text : ν) = false

variable {κ ν : Type} [Nested κ ν] [Faithful κ ν]

/-- **No path at which a text is found leads on to another one.** -/
theorem eq_of_get?_of_prefix {path other : List String} {text text' : String} {es : List (κ × ν)}
    (h : get? path es = some text) (h' : get? other es = some text') (hleads : path <+: other) :
    path = other := by
  induction path generalizing other es with
  | nil => cases h
  | cons segment more ih =>
      obtain ⟨back, rfl⟩ := hleads
      cases more with
      | nil =>
          cases back with
          | nil => rfl
          | cons next back =>
              -- The value at the segment shows the text, so there is no mapping to lead on through.
              obtain ⟨v, hfind, htext⟩ := Option.bind_eq_some_iff.1 h
              have hnone : entries? v = none := Faithful.entries?_of_text? htext
              rw [List.cons_append, List.nil_append, get?, hfind, Option.bind_some, hnone] at h'
              cases h'
      | cons next more =>
          obtain ⟨inner, hinner, hget⟩ := Option.bind_eq_some_iff.1 h
          rw [List.cons_append, List.cons_append, get?, hinner, Option.bind_some] at h'
          exact congrArg (segment :: ·) (ih hget h' (List.prefix_append _ _))

/-- Setting a text leaves the tree as it is if the text stands there already, on its own. -/
theorem eq_self_of_value? {text : String} {path : List String} {es es' : List (κ × ν)}
    {changed : Bool} (hvalue : value? path es = some (ofText text))
    (h : set text path es = .ok (es', changed)) : es' = es := by
  induction path generalizing es es' with
  | nil => cases hvalue
  | cons segment more ih =>
      cases more with
      | nil =>
          cases h
          exact put_find? hvalue
      | cons next more =>
          obtain ⟨hopen, inner, hset, rfl⟩ := set_cons_eq_ok.1 h
          rw [value?] at hvalue
          rcases inside_eq (find? segment es) with hnil | ⟨child, hfind, hentries⟩
          · rw [hnil, value?_nil] at hvalue
            cases hvalue
          · have hsealed : isSealed child = false := by
              simpa [closed, hfind, hentries] using hopen
            rw [ih hvalue hset, ← Faithful.eq_ofEntries hsealed hentries, put_find? hfind]

variable [Lawful κ ν]

/-- **Setting a text leaves a tree as it is** exactly if it says that there is no difference and the
value that showed the text was open to changes. -/
theorem set_eq_self_iff {text : String} {path : List String} {es es' : List (κ × ν)}
    {changed : Bool} (hpath : path ≠ []) (h : set text path es = .ok (es', changed)) :
    es' = es ↔ changed = false ∧ ∀ v, value? path es = some v → isSealed v = false := by
  rw [← Bool.not_eq_true, changed_of_set hpath h, Decidable.not_not, get?_eq]
  constructor
  · rintro rfl
    rw [value?_set_self hpath h]
    refine ⟨Lawful.text?_ofText text, ?_⟩
    rintro v ⟨⟩
    exact Faithful.isSealed_ofText text
  · rintro ⟨htext, hopen⟩
    obtain ⟨v, hvalue, hshows⟩ := Option.bind_eq_some_iff.1 htext
    have hv : v = ofText text := Faithful.eq_ofText (hopen v hvalue) hshows
    exact eq_self_of_value? (hv ▸ hvalue) h

end ConfigGraft.Nested
