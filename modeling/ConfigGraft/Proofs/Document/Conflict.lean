import ConfigGraft.Proofs.Document.Tree
import ConfigGraft.Proofs.Document.Updates

/-!
# Updates in conflict

Updates of a tree get in each other's way where their paths meet: a text takes the place of a whole
mapping, and a text further on puts a mapping in the place of a text. What a path finds in the end
is decided by one update alone, the last whose path meets it.

## Main results

* `Document.agreesAt_setAll` — what no update meets is left as it is;
* `Document.get?_setAll_last` — the text of the last update of all is found, in any format;
* `Document.lastMeeting_cons` — the last update that meets a path, in a longer list;
* `Document.get?_setAll` — **the last update that meets a path decides what it finds.**
-/

namespace ConfigGraft.Document

/-- The last update whose path meets a path. -/
def lastMeeting (path : KeyPath) (updates : List (KeyPath × String)) : Option (KeyPath × String) :=
  updates.reverse.find? fun update => update.1.Meets path

/-- An update counts only if none behind it meets the path. -/
theorem lastMeeting_cons (path : KeyPath) (update : KeyPath × String)
    (rest : List (KeyPath × String)) :
    lastMeeting path (update :: rest) =
      (lastMeeting path rest).or (if update.1.Meets path then some update else none) := by
  rw [lastMeeting, List.reverse_cons, List.find?_append, List.find?_singleton]
  simp only [decide_eq_true_eq]
  rfl

/-- What no update meets is left as it is. -/
theorem agreesAt_setAll {document last : Document} {updates : List (KeyPath × String)}
    {path : KeyPath} {dirty : Bool} (hapart : ∀ update ∈ updates, ¬ update.1.Meets path)
    (h : document.setAll updates = .ok (last, dirty)) : AgreesAt path document last := by
  induction updates generalizing document dirty with
  | nil =>
      cases h
      exact .refl path _
  | cons update rest ih =>
      obtain ⟨hupdate, hlater⟩ := List.forall_mem_cons.1 hapart
      obtain ⟨next, changed, more, hset, hrest, -⟩ := setAll_cons_eq_ok.1 h
      exact (agreesAt_set hupdate hset).trans (ih hlater hrest)

/-- The last update of all is in conflict with none that follows, so its text is found. -/
theorem get?_setAll_last {document last : Document} {front : List (KeyPath × String)}
    {path : KeyPath} {text : String} {dirty : Bool}
    (h : document.setAll (front ++ [(path, text)]) = .ok (last, dirty)) :
    last.get? path = some text := by
  induction front generalizing document dirty with
  | nil =>
      obtain ⟨next, changed, more, hset, hrest, -⟩ := setAll_cons_eq_ok.1 h
      cases hrest
      exact get?_set_self hset
  | cons update front ih =>
      obtain ⟨next, changed, more, -, hrest, -⟩ := setAll_cons_eq_ok.1 h
      exact ih hrest

/-- **The last update that meets a path decides what it finds:** its text, if it is for the path
itself, and else nothing. Where no update meets the path, it finds what it found before. -/
theorem get?_setAll {document last : Document} {updates : List (KeyPath × String)} {dirty : Bool}
    (hformat : document.format ≠ .properties)
    (h : document.setAll updates = .ok (last, dirty)) (path : KeyPath) :
    last.get? path =
      match lastMeeting path updates with
      | none => document.get? path
      | some (p, text) => if p = path then some text else none := by
  induction updates generalizing document dirty with
  | nil =>
      cases h
      rfl
  | cons update rest ih =>
      obtain ⟨next, changed, more, hset, hrest, -⟩ := setAll_cons_eq_ok.1 h
      have hnext : next.format ≠ .properties := format_set hset ▸ hformat
      rw [ih hnext hrest, lastMeeting_cons]
      cases lastMeeting path rest with
      | some later => rfl
      | none =>
          -- No later update counts, so what was set here is still there.
          simp only [Option.none_or, get?_set hformat hset path]
          by_cases hpath : update.1 = path
          · simp [hpath, KeyPath.meets_self]
          · by_cases hmeets : update.1.Meets path <;> simp [hpath, hmeets]

/-! ### An instance -/

/-- A tree, and updates of which each gets in the way of the one before. -/
def sampleTree : Document := .json [("m", .object [("x", .string "0")])]

def sampleConflict : List (KeyPath × String) :=
  [(⟨["m", "x"], by simp, by simp, by simp⟩, "1"), (⟨["m"], by simp, by simp, by simp⟩, "2"),
    (⟨["m", "y"], by simp, by simp, by simp⟩, "3")]

/-- A text below `m` is lost to the text at `m`, although that in turn is lost to a mapping. -/
theorem get?_setAll_sampleConflict :
    sampleTree.setAll sampleConflict =
        .ok (.json [("m", .object [("y", .string "3")])], true) ∧
      (Document.json [("m", .object [("y", .string "3")])]).get?
        ⟨["m", "x"], by simp, by simp, by simp⟩ = none := by
  have hset : sampleTree.setAll sampleConflict =
      .ok (.json [("m", .object [("y", .string "3")])], true) := rfl
  exact ⟨hset, get?_setAll (by decide) hset ⟨["m", "x"], by simp, by simp, by simp⟩⟩

end ConfigGraft.Document
