import ConfigGraft.ChangeSet.Check

/-!
# Which names are missing

A template names the variables that it cannot do without: those that have neither a value nor a
default. A run that enforces required variables gathers these names over all changes, whatever the
documents look like; a run that does not enforce them gathers nothing. The text that a template
expands to is the same in both.

## Main results

* `Template.expand_fst` — the text does not depend on what was gathered, nor on enforcement;
* `Template.mem_expand` — what an expansion adds to the gathered names;
* `ChangeSet.mem_gatherEntries` — what a change set adds to them.
-/

namespace ConfigGraft

namespace MissingNames

/-- Nothing is gathered at the start. -/
@[simp] theorem not_mem_none (name : String) : ¬ name ∈ MissingNames.none := List.not_mem_nil

/-- Something is gathered exactly if some name is. -/
theorem isEmpty_eq_false_iff {m : MissingNames} : m.isEmpty = false ↔ ∃ name, name ∈ m := by
  rw [isEmpty, List.isEmpty_eq_false_iff_exists_mem]
  rfl

/-- Nothing is gathered exactly if the collection is the empty one. -/
theorem isEmpty_eq_true_iff {m : MissingNames} : m.isEmpty = true ↔ m = .none :=
  ⟨fun h => ext_names (List.isEmpty_iff.1 h), fun h => h ▸ rfl⟩

end MissingNames

namespace Template

variable (value? : Resolver)

/-- The names of the required variables without a value in a template, from left to right. -/
def unresolved (template : String) : List String :=
  (pieces template.toList).filterMap fun
    | .plain _ => none
    | .hole p => if isMissing value? p then some (String.ofList p.name) else none

/-- The text of a template, whatever becomes of its required variables. -/
def text (template : String) : String := (expand value? false template .none).1

/-- **The text does not depend on what was gathered, nor on enforcement.** -/
theorem expand_fst (enforce : Bool) (template : String) (m : MissingNames) :
    (expand value? enforce template m).1 = text value? template := by
  simp only [text, expand, expandPieces_fst]

/-- Without enforcement, no piece adds a name. -/
theorem expandPieces_lax (ps : List Piece) (m : MissingNames) :
    (expandPieces value? false ps m).2 = m := by
  induction ps generalizing m with
  | nil => rfl
  | cons piece ps ih =>
      cases piece with
      | plain c => exact ih m
      | hole p => exact ih m

/-- Without enforcement nothing is gathered. -/
theorem expand_lax (template : String) (m : MissingNames) :
    (expand value? false template m).2 = m :=
  expandPieces_lax value? _ m

/-- With enforcement, pieces add the names of the placeholders that are missing. -/
theorem mem_expandPieces {name : String} (ps : List Piece) (m : MissingNames) :
    name ∈ (expandPieces value? true ps m).2 ↔ name ∈ m ∨ name ∈ ps.filterMap fun
      | .plain _ => none
      | .hole p => if isMissing value? p then some (String.ofList p.name) else none := by
  induction ps generalizing m with
  | nil => simp [expandPieces]
  | cons piece ps ih =>
      cases piece with
      | plain c => exact ih m
      | hole p =>
          rw [expandPieces]
          refine (ih _).trans ?_
          cases hp : isMissing value? p with
          | false => simp [hp]
          | true =>
              simp only [Bool.and_self, ite_true, MissingNames.mem_record, List.filterMap_cons, hp,
                List.mem_cons]
              rw [or_assoc, or_left_comm]

/-- **With enforcement an expansion gathers the unresolved names of the template.** -/
theorem mem_expand {name : String} (template : String) (m : MissingNames) :
    name ∈ (expand value? true template m).2 ↔ name ∈ m ∨ name ∈ unresolved value? template :=
  mem_expandPieces value? _ m

end Template

namespace ChangeSet

/-! ### Change sets -/

/-- Gathers the missing variables of the changes for all files. -/
def gatherEntries (resolver : Resolver) : List FileEntry → MissingNames → MissingNames
  | [], m => m
  | entry :: rest, m => gatherEntries resolver rest (gatherMissing resolver entry.changes m)

/-- Whether a change of a change set has a required variable of a name without a value. -/
def Unresolved (resolver : Resolver) (entries : List FileEntry) (name : String) : Prop :=
  ∃ entry ∈ entries, ∃ change ∈ entry.changes, name ∈ Template.unresolved resolver change.value

/-- What changes add to the gathered names: those that stay unresolved in their texts. -/
theorem mem_gatherMissing {resolver : Resolver} {name : String} (changes : List Change)
    (m : MissingNames) :
    name ∈ gatherMissing resolver changes m ↔ name ∈ m ∨
      ∃ change ∈ changes, name ∈ Template.unresolved resolver change.value := by
  induction changes generalizing m with
  | nil => simp [gatherMissing]
  | cons change changes ih =>
      rw [gatherMissing, ih, Template.mem_expand, or_assoc]
      simp

/-- **The names that are gathered over a change set are its unresolved names.** -/
theorem mem_gatherEntries (resolver : Resolver) (name : String) (entries : List FileEntry)
    (m : MissingNames) :
    name ∈ gatherEntries resolver entries m ↔ name ∈ m ∨ Unresolved resolver entries name := by
  induction entries generalizing m with
  | nil => simp [gatherEntries, Unresolved]
  | cons entry entries ih =>
      rw [gatherEntries, ih, mem_gatherMissing, or_assoc]
      simp [Unresolved]

/-- A name is unresolved in two lists of entries if it is so in one of them. -/
theorem unresolved_append {resolver : Resolver} {front back : List FileEntry} {name : String} :
    Unresolved resolver (front ++ back) name ↔
      Unresolved resolver front name ∨ Unresolved resolver back name := by
  simp only [Unresolved, List.mem_append, or_and_right, exists_or]

/-! ### Runs -/

/-- What a run gathers from changes: their missing variables, if the policy is to enforce them. -/
def Setting.gather (s : Setting) (changes : List Change) (m : MissingNames) : MissingNames :=
  if s.policy.stopOnMissingRequired then gatherMissing s.chain changes m else m

end ChangeSet

end ConfigGraft
