import ConfigGraft.Master
import ConfigGraft.Proofs.Yaml.Number

/-!
# Numbers as new texts

The new text of a change may be spelled as a number, and then it is the text of that number. The
number is kept, and so is a spelling that is the number's own: that of a whole number in base ten
without a plus sign, or of a floating-point number without needless zeros, with all its places if
these are not too many. Any other spelling is lost: a plus sign, another base, zeros at the end, and
an exponent for what has few places.

## Main results

* `MasterConfig.readChange?_number` — **the new text spells the same number, in the number's own
  way;**
* `MasterConfig.parse?_sampleRespelled` — a configuration whose spelling is lost.
-/

namespace ConfigGraft.MasterConfig

open Yaml

variable {src : Source} {node : Node Nat} {jumps jumps' : Nat} {path : KeyPath}
  {spelling : List Char} {n : Number}

/-- A change whose new text is spelled as a plain scalar without a tag. -/
inductive Spells (src : Source) (node : Node Nat) (jumps : Nat) (path : KeyPath)
    (spelling : List Char) (jumps' : Nat) : Prop where
  | mk {fields : List (String × Node Nat)} {value : Node Nat} {mark : NodeMark Nat} {j j' : Nat}
    (hfields : src.readFields? node jumps = some (fields, j))
    (hpath : required? "path" fields (readPath? src) j = some (path, j'))
    (hvalue : nodesAt "value" fields = [value])
    (hscalar : src.follow? value j' = some (.scalar mark true spelling, jumps'))
    (htag : mark.tag? = none)

/-- A plain scalar without a tag is read by its meaning. -/
theorem readNode?_plain {value : Node Nat} {mark : NodeMark Nat} (unique : Bool) (depth : Nat)
    (h : src.follow? value jumps = some (.scalar mark true spelling, jumps'))
    (htag : mark.tag? = none) :
    Value.readNode? unique src.root src.limit depth value jumps =
      (Value.ofPlain? spelling).map fun meaning => (meaning, jumps') := by
  have hwith (inner? : Option Value.NodeReader) :
      Value.readWith? unique src.root src.limit inner? value jumps =
        (Value.ofPlain? spelling).map fun meaning => (meaning, jumps') := by
    rw [Source.follow?] at h
    simp only [Value.readWith?.eq_def, h, htag]
    rfl
  cases depth with
  | zero => exact hwith none
  | succ depth => exact hwith _

/-- The change that is read has the text of what its new text means. -/
theorem readChange?_of_spells {meaning : Value} {text : String}
    (h : Spells src node jumps path spelling jumps')
    (hmeaning : Value.ofPlain? spelling = some meaning) (htext : meaningText? meaning = some text) :
    readChange? src node jumps = some (⟨path, text⟩, jumps') := by
  obtain @⟨fields, value, mark, j, j', hfields, hpath, hvalue, hscalar, htag⟩ := h
  have hread := readNode?_plain true (Value.depthLimit - changeLevels) hscalar htag
  rw [hmeaning, Option.map_some] at hread
  have hrequired : required? "value" fields (readMeaning? src) j' = some (text, jumps') := by
    rw [required?, hvalue]
    simp only [readMeaning?, hread, htext, Option.map_some]
  simp only [readChange?, hfields, hpath, hrequired, Option.bind_eq_bind, Option.bind_some]

/-- **The new text spells the same number** in the number's own way. A whole number keeps its
spelling exactly if that is a plain numeral, and a floating-point number keeps its digits if there
are no more than fifteen of them, without the zeros at their end. -/
theorem readChange?_number (h : Spells src node jumps path spelling jumps')
    (hnumber : Value.ofPlain? spelling = some (.number n)) :
    readChange? src node jumps = some (⟨path, String.ofList n.text⟩, jumps') ∧
      Value.ofPlain? n.text = some (.number n) ∧
      (∀ k, n = .whole k → (n.text = spelling ↔ Number.IsNumeral spelling)) ∧
      ∀ x d, n = .float x → Decimal.read? (Number.dropPlus spelling) = some d →
        d.normalize.coefficient < 10 ^ 15 → -306 ≤ d.magnitude →
        n.text = Number.layout d.normalize := by
  refine ⟨readChange?_of_spells h hnumber rfl, Value.ofPlain?_text hnumber, ?_, ?_⟩
  · rintro k rfl
    obtain ⟨k', heq, hread, -⟩ | ⟨x, heq, -⟩ := Value.of_ofPlain?_number hnumber
    · cases heq
      exact Number.text_eq_iff hread
    · cases heq
  · rintro x d rfl hd hfew hlarge
    obtain ⟨k, heq, -⟩ | ⟨x', heq, hread⟩ := Value.of_ofPlain?_number hnumber
    · cases heq
    · cases heq
      exact Number.text_eq_layout hread hd hfew hlarge

/-- The path of the version number. -/
def versionPath : KeyPath := ⟨["version"], by simp, by simp, by simp⟩

/-- A change that spells a version number with a zero at its end. -/
def sampleRespelledNode : Node Nat :=
  .mapping {} [(.scalar {} true "path".toList, .scalar {} true "version".toList),
    (.scalar {} true "value".toList, .scalar {} true "1.10".toList)]

/-- The number that is meant: one and a tenth, as nearly as it can be. -/
def sampleRespelled : Number := .float (.finite false 4953959590107546 (-52))

/-- The plain text is a number, and the zero at its end is lost. -/
theorem ofPlain?_sampleRespelled :
    Value.ofPlain? "1.10".toList = some (.number sampleRespelled) := by
  have hread : Number.readFloat? "1.10".toList = some (.finite false 4953959590107546 (-52)) := by
    decide +kernel
  exact Value.ofPlain?_of_readFloat? false (show '1'.isDigit = true from rfl) rfl rfl hread

/-- The number is kept, and the zero is not: its digits are those of the number. -/
theorem readChange?_number_sampleRespelled :
    Spells ⟨sampleRespelledNode, 0⟩ sampleRespelledNode 0 versionPath "1.10".toList 0 ∧
      Value.ofPlain? "1.10".toList = some (.number sampleRespelled) ∧
      readChange? ⟨sampleRespelledNode, 0⟩ sampleRespelledNode 0 =
        some (⟨versionPath, String.ofList sampleRespelled.text⟩, 0) ∧
      sampleRespelled.text = Number.layout ⟨false, 11, -1⟩ := by
  have hspells :
      Spells ⟨sampleRespelledNode, 0⟩ sampleRespelledNode 0 versionPath "1.10".toList 0 :=
    .mk rfl rfl rfl rfl rfl
  obtain ⟨hread, -, -, hlayout⟩ := readChange?_number hspells ofPlain?_sampleRespelled
  have hdecimal : Decimal.read? (Number.dropPlus "1.10".toList) = some ⟨false, 110, -2⟩ := by
    decide +kernel
  have hnormalize : Decimal.normalize ⟨false, 110, -2⟩ = ⟨false, 11, -1⟩ := by
    decide +kernel
  refine ⟨hspells, ofPlain?_sampleRespelled, hread, ?_⟩
  have htext := hlayout _ _ rfl hdecimal (by decide +kernel) (by decide +kernel)
  rw [hnormalize] at htext
  exact htext

/-- A configuration with that change. -/
def sampleRespelledSource : String :=
  "replacements:\n- file: a.yml\n  changes:\n  - path: version\n    value: 1.10\n"

/-- **A spelling is lost:** the version number of the configuration is another one for whoever reads
it as a text. -/
theorem parse?_sampleRespelled :
    parse? sampleRespelledSource = some { replacements := [⟨"a.yml", [⟨versionPath, "1.1"⟩]⟩] } ∧
      Value.ofPlain? "1.10".toList = some (.number sampleRespelled) ∧ "1.1" ≠ "1.10" :=
  ⟨by decide +kernel, ofPlain?_sampleRespelled, by decide⟩

end ConfigGraft.MasterConfig
