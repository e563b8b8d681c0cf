import ConfigGraft.MissingNames

/-!
# Placeholders

A template is text in which `${NAME}` and `${NAME:DEFAULT}` stand for the value of a variable.
A name has at least one character and neither a closing brace nor a colon; a default may be empty
and has no closing brace. Text that only begins like a placeholder is ordinary text.

Templates are cut from the left: where a placeholder can start, it starts, and cutting goes on
behind it. A value is put in as it is and not looked at again.

`Template.flatten_pieces` says that cutting loses nothing. There is no shortcut for templates
without `${`; that none is needed is `Template.expand_of_no_opening`.
-/

namespace ConfigGraft

/-- A reference to a variable, with the text to use when the variable has no value. -/
structure Placeholder where
  name : List Char
  fallback? : Option (List Char)
  deriving DecidableEq, Repr

namespace Placeholder

/-- Characters that may stand in a name. -/
def isNameChar (c : Char) : Bool := c != '}' && c != ':'

/-- Characters that may stand in a default. -/
def isFallbackChar (c : Char) : Bool := c != '}'

/-- The written form. -/
def text (p : Placeholder) : List Char :=
  match p.fallback? with
  | none => '$' :: '{' :: (p.name ++ ['}'])
  | some d => '$' :: '{' :: (p.name ++ ':' :: (d ++ ['}']))

/-- Reads what follows the name: the end of the placeholder, or a default and the end. -/
def readTail? (name : List Char) : List Char → Option (Placeholder × List Char)
  | '}' :: rest => some (⟨name, none⟩, rest)
  | ':' :: rest =>
    match rest.dropWhile isFallbackChar with
    | _ :: after => some (⟨name, some (rest.takeWhile isFallbackChar)⟩, after)
    | [] => none
  | _ => none

/-- Reads a placeholder at the start of a text, and gives the text behind it. -/
def read? : List Char → Option (Placeholder × List Char)
  | '$' :: '{' :: rest =>
    match rest.takeWhile isNameChar with
    | [] => none
    | c :: cs => readTail? (c :: cs) (rest.dropWhile isNameChar)
  | _ => none

/-- What is left after dropping begins with a character that is not to be dropped. -/
private theorem head_dropWhile {p : Char → Bool} {cs : List Char} {c : Char} {after : List Char}
    (h : cs.dropWhile p = c :: after) : p c = false := by
  have := List.head?_dropWhile_not p cs
  rw [h] at this
  simpa using this

/-- What follows a name, once it is read, is the rest of the placeholder and the text behind it. -/
theorem readTail?_text {name rest : List Char} {p : Placeholder} {after : List Char}
    (h : readTail? name rest = some (p, after)) :
    '$' :: '{' :: (name ++ rest) = p.text ++ after := by
  unfold readTail? at h
  split at h
  · cases h; simp [text]
  · rename_i rest
    split at h
    · rename_i c after' hdrop
      cases h
      have hc : c = '}' := by simpa [isFallbackChar] using head_dropWhile hdrop
      have hsplit := List.takeWhile_append_dropWhile (p := isFallbackChar) (l := rest)
      rw [hdrop, hc] at hsplit
      simp only [text, List.cons_append, List.append_assoc, List.cons.injEq, true_and,
        List.nil_append]
      rw [hsplit]
    · cases h
  · cases h

/-- What was read is the text of the placeholder and the text behind it. -/
theorem read?_text {cs : List Char} {p : Placeholder} {after : List Char}
    (h : read? cs = some (p, after)) : cs = p.text ++ after := by
  unfold read? at h
  split at h
  · rename_i rest
    split at h
    · cases h
    · rename_i c cs' htake
      rw [← readTail?_text h, ← htake, List.takeWhile_append_dropWhile]
  · cases h

/-- A placeholder is not empty, so the text behind it is shorter. Cutting a template ends because of
that. -/
theorem length_lt_of_read? {cs : List Char} {p : Placeholder} {after : List Char}
    (h : read? cs = some (p, after)) : after.length < cs.length := by
  rw [read?_text h, text]
  split <;> (simp; try omega)

end Placeholder

/-! ### Templates -/

/-- A piece of a template. -/
inductive Piece where
  | plain (c : Char)
  | hole (p : Placeholder)
  deriving DecidableEq, Repr

/-- The text a piece was cut from. -/
def Piece.text : Piece → List Char
  | .plain c => [c]
  | .hole p => p.text

namespace Template

/-- The pieces of a template, from left to right. -/
def pieces : List Char → List Piece
  | [] => []
  | c :: cs =>
    match _h : Placeholder.read? (c :: cs) with
    | some (p, after) => .hole p :: pieces after
    | none => .plain c :: pieces cs
termination_by cs => cs.length
decreasing_by
  · exact Placeholder.length_lt_of_read? _h
  · simp

/-- Cutting a template loses nothing. -/
theorem flatten_pieces (cs : List Char) : (pieces cs).flatMap Piece.text = cs := by
  fun_induction pieces cs with
  | case1 => rfl
  | case2 c cs p after h ih =>
    simp [Piece.text, ih, Placeholder.read?_text h]
  | case3 c cs h ih => simp [Piece.text, ih]

/-- The text that a placeholder stands for: its value, else its default, else nothing. -/
def fill (value? : String → Option String) (p : Placeholder) : List Char :=
  match value? (String.ofList p.name), p.fallback? with
  | some v, _ => v.toList
  | none, some d => d
  | none, none => []

/-- Whether a placeholder names a required variable without a value. -/
def isMissing (value? : String → Option String) (p : Placeholder) : Bool :=
  (value? (String.ofList p.name)).isNone && p.fallback?.isNone

/-- Expands the pieces from left to right. With `enforce` the names of required variables without
a value are recorded. -/
def expandPieces (value? : String → Option String) (enforce : Bool) :
    List Piece → MissingNames → List Char × MissingNames
  | [], missing => ([], missing)
  | .plain c :: rest, missing =>
    let (out, missing) := expandPieces value? enforce rest missing
    (c :: out, missing)
  | .hole p :: rest, missing =>
    let noted :=
      if enforce && isMissing value? p then (missing.record (String.ofList p.name)).2
      else missing
    let (out, missing) := expandPieces value? enforce rest noted
    (fill value? p ++ out, missing)

/-- **Expands a template.** Every template is cut into pieces here, also one in which no placeholder
can begin. Such a template could be passed on as it is without being cut, and that comes to the same
by `Template.expand_of_no_opening`. -/
def expand (value? : String → Option String) (enforce : Bool) (template : String)
    (missing : MissingNames) : String × MissingNames :=
  let (out, missing) := expandPieces value? enforce (pieces template.toList) missing
  (String.ofList out, missing)

/-- The text does not depend on whether missing names are recorded. -/
theorem expandPieces_fst (value? : String → Option String) (enforce : Bool) (ps : List Piece)
    (missing : MissingNames) :
    (expandPieces value? enforce ps missing).1 =
      ps.flatMap fun
        | .plain c => [c]
        | .hole p => fill value? p := by
  induction ps generalizing missing with
  | nil => rfl
  | cons piece rest ih => cases piece <;> simp [expandPieces, ih]

end Template

end ConfigGraft
