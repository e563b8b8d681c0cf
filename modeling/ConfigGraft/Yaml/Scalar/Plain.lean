import ConfigGraft.Yaml.Character

/-!
# Plain scalars

A plain scalar has no quotes, so what follows it decides where it ends: a colon with a gap behind
it, a number sign behind a gap, a line that is not indented enough, or, inside brackets, one of the
signs that structure them.
-/

namespace ConfigGraft.Yaml.Plain

/-- The signs that structure a collection in brackets. -/
def isFlowSign (c : Char) : Bool := c == ',' || c == '[' || c == ']' || c == '{' || c == '}'

/-- Whether a scalar ends at the start of a text, which is no gap. `gap` stands between the last
word of the scalar and the place. -/
def endsAt (inFlow : Bool) (floor column : Nat) (gap : Gap) : List Char → Bool
  | [] => true
  | c :: rest =>
    (!gap.isEmpty && ((!inFlow && column < floor) || (column == 0 && isDocumentMark (c :: rest)) ||
      c == '#')) ||
    (c == ':' && atGap rest) || (inFlow && isFlowSign c)

/-- Whether a colon stands where brackets leave no sense to it. -/
def isStrayColon (inFlow : Bool) : List Char → Bool
  | ':' :: c :: _ => inFlow && (isFlowSign c || c == '?')
  | _ => false

/-- Reads on in a plain scalar behind a gap: the content, the place behind it, and whether the
last gap, which is no part of it, goes over to another line. Lines have to be indented to `floor`
outside of brackets. -/
def read? (inFlow : Bool) (floor : Nat) :
    List Char → Nat → Nat → Gap → Option (List Char × Spot × Bool)
  | [], line, column, gap => some ([], ⟨[], line, column⟩, gap.crosses)
  | c :: rest, line, column, gap =>
    if isBlank c then
      if c = '\t' ∧ gap.crosses ∧ column < floor then none
      else read? inFlow floor rest line (column + 1) (gap.addBlank c)
    else if isBreak c then read? inFlow floor rest (line + 1) 0 (gap.addBreak c)
    else if endsAt inFlow floor column gap (c :: rest) then
      some ([], ⟨c :: rest, line, column⟩, gap.crosses)
    else if isStrayColon inFlow (c :: rest) then none
    else
      (read? inFlow floor rest line (column + 1) {}).map fun (content, ended) =>
        (gap.text ++ c :: content, ended)

end ConfigGraft.Yaml.Plain
