import ConfigGraft.Proofs.Document.Tree
import ConfigGraft.Proofs.Nested

/-!
# Lists of updates

An update is a path with the text that is to stand there. `Document.setAll` sets a list of them, one
after the other, as one function on documents without files, records or variables around it.

## Main results

* `Document.setAll_append` — setting one list behind another is setting both in turn;
* `Document.format_setAll` — a document keeps its format;
* `Document.Spells.exists_setAll_of_step` — **updates keep what setting one text keeps.**
-/

namespace ConfigGraft.Document

/-- Sets texts at paths, from the first to the last, and says whether any of them was another one
before it was set. -/
def setAll : List (KeyPath × String) → Document → Except SealedMapping (Document × Bool)
  | [], document => .ok (document, false)
  | (path, text) :: rest, document =>
    match document.set path text with
    | .error crash => .error crash
    | .ok (next, changed) =>
      match setAll rest next with
      | .error crash => .error crash
      | .ok (last, more) => .ok (last, changed || more)

/-- The two ways in which setting a list that is not empty can end. -/
theorem setAll_cons_eq_ok {update : KeyPath × String} {rest : List (KeyPath × String)}
    {document last : Document} {dirty : Bool} :
    document.setAll (update :: rest) = .ok (last, dirty) ↔
      ∃ next changed more, document.set update.1 update.2 = .ok (next, changed) ∧
        next.setAll rest = .ok (last, more) ∧ dirty = (changed || more) := by
  rw [setAll]
  constructor
  · intro h
    split at h
    · cases h
    · rename_i next changed hset
      split at h
      · cases h
      · rename_i last' more hrest
        cases h
        exact ⟨next, changed, more, hset, hrest, rfl⟩
  · rintro ⟨next, changed, more, hset, hrest, rfl⟩
    simp only [hset, hrest]

/-- **Setting one list behind another is setting both in turn.** -/
theorem setAll_append {front back : List (KeyPath × String)} {document mid last : Document}
    {dirty more : Bool} (hfront : document.setAll front = .ok (mid, dirty))
    (hback : mid.setAll back = .ok (last, more)) :
    document.setAll (front ++ back) = .ok (last, dirty || more) := by
  induction front generalizing document dirty with
  | nil =>
      cases hfront
      simpa using hback
  | cons update front ih =>
      obtain ⟨next, changed, rest, hset, hrest, rfl⟩ := setAll_cons_eq_ok.1 hfront
      exact setAll_cons_eq_ok.2 ⟨next, changed, rest || more, hset, ih hrest, Bool.or_assoc ..⟩

/-- Setting a text keeps the format. -/
theorem format_set {path : KeyPath} {text : String} {document next : Document} {changed : Bool}
    (h : document.set path text = .ok (next, changed)) : next.format = document.format := by
  cases document with
  | properties table => cases h; rfl
  | yaml entries | json entries | toml entries =>
      obtain ⟨r, -, hr⟩ := map_eq_ok.1 h
      cases hr
      rfl

/-- Setting a list of texts keeps the format. -/
theorem format_setAll {updates : List (KeyPath × String)} {document last : Document} {dirty : Bool}
    (h : document.setAll updates = .ok (last, dirty)) : last.format = document.format := by
  induction updates generalizing document dirty with
  | nil => cases h; rfl
  | cons update rest ih =>
      obtain ⟨next, changed, more, hset, hrest, -⟩ := setAll_cons_eq_ok.1 h
      rw [ih hrest, format_set hset]

/-- **Updates keep what setting one text keeps,** if that can be done at all paths. -/
theorem Spells.exists_setAll_of_step {κ ν : Type} [Nested κ ν] {make : List (κ × ν) → Document}
    (hspells : Spells make) {Keeps : List (κ × ν) → Prop}
    (hstep : ∀ {es}, Keeps es → ∀ (text : String) (path : KeyPath),
      ∃ es' changed, Nested.set text path.segments es = .ok (es', changed) ∧ Keeps es')
    {es : List (κ × ν)} (hes : Keeps es) (updates : List (KeyPath × String)) :
    ∃ es' dirty, (make es).setAll updates = .ok (make es', dirty) ∧ Keeps es' := by
  induction updates generalizing es with
  | nil => exact ⟨es, false, rfl, hes⟩
  | cons update rest ih =>
      obtain ⟨mid, changed, hmid, hkeeps⟩ := hstep hes update.2 update.1
      obtain ⟨last, more, hrest, hlast⟩ := ih hkeeps
      have hnext := hspells.set_eq_ok_iff.2 ⟨mid, hmid, rfl⟩
      have hall := setAll_cons_eq_ok.2 ⟨_, changed, more, hnext, hrest, rfl⟩
      exact ⟨last, changed || more, hall, hlast⟩

/-- Where no value is closed to changes, texts can be set at all paths. -/
theorem Spells.exists_setAll {κ ν : Type} [Nested κ ν] {make : List (κ × ν) → Document}
    (hspells : Spells make) (hopen : ∀ v : ν, Nested.isSealed v = false)
    {Keeps : List (κ × ν) → Prop}
    (hset : ∀ {text path es es' changed}, Keeps es → Nested.set text path es = .ok (es', changed) →
      Keeps es')
    {es : List (κ × ν)} (hes : Keeps es) (updates : List (KeyPath × String)) :
    ∃ es' dirty, (make es).setAll updates = .ok (make es', dirty) ∧ Keeps es' := by
  refine hspells.exists_setAll_of_step (fun hes text path => ?_) hes updates
  obtain ⟨mid, changed, hmid⟩ := Nested.exists_set hopen text path.segments _
  exact ⟨mid, changed, hmid, hset hes hmid⟩

end ConfigGraft.Document
