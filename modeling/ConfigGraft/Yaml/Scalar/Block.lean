import ConfigGraft.Yaml.Character

/-!
# Block scalars

A block scalar stands on lines of its own below a header. Its lines are indented at least as far
as the header says or, without a word about it there, as far as the first line that is not empty.
A literal scalar keeps its line breaks; in a folded one a line feed between two lines that begin
with no blank becomes a space. The header also says what happens to the breaks at the end.
-/

namespace ConfigGraft.Yaml.Block

/-- What becomes of the breaks at the end: none stays, one stays, or all. -/
inductive Chomp where
  | strip
  | clip
  | keep
  deriving DecidableEq, Repr

/-- What the header of a block scalar says; an indentation of zero is none at all. -/
structure Header where
  chomp : Chomp := .clip
  indentation : Nat := 0
  deriving DecidableEq, Repr

def chomp? : Char → Option Chomp
  | '+' => some .keep
  | '-' => some .strip
  | _ => none

/-- Reads the signs of a header, in either order: how to chomp, and a digit that is not zero. -/
def readSigns? : List Char → Option (Header × List Char)
  | [] => some ({}, [])
  | c :: rest =>
    match chomp? c with
    | some chomp =>
      match rest with
      | d :: rest =>
        if d = '0' then none
        else if d.isDigit then some (⟨chomp, d.toNat - 48⟩, rest)
        else some (⟨chomp, 0⟩, d :: rest)
      | [] => some (⟨chomp, 0⟩, [])
    | none =>
      if c = '0' then none
      else if c.isDigit then
        match rest with
        | d :: rest =>
          match chomp? d with
          | some chomp => some (⟨chomp, c.toNat - 48⟩, rest)
          | none => some (⟨.clip, c.toNat - 48⟩, d :: rest)
        | [] => some (⟨.clip, c.toNat - 48⟩, [])
      else some ({}, c :: rest)

/-- Leaves out blanks and a comment at the end of a line. -/
def dropComment (cs : List Char) : List Char :=
  match cs.dropWhile isBlank with
  | '#' :: rest => rest.dropWhile (!isBreak ·)
  | rest => rest

/-- A line of a block scalar that is not empty: the breaks of empty lines before it, its text
behind the indentation, and the break at its end, if there is one. -/
structure Line where
  before : List Char
  text : List Char
  ending : List Char
  deriving DecidableEq, Repr

/-- What is read next: the indentation of a line, or the text of one, which is held backwards.
The deepest column on lines so far decides about the indentation, while it is open. -/
inductive Mode where
  | indentation (deepest : Nat)
  | text (backwards : List Char)

/-- Reads on in a block scalar: its lines, the breaks behind the last one, and the place where it
ends. An indentation of `none` is still open and will be `floor` at least. -/
def readLines? (floor : Nat) :
    List Char → Nat → Nat → Option Nat → List Char → Mode → Option (List Line × List Char × Spot)
  | [], line, column, _, before, .indentation _ => some ([], before, ⟨[], line, column⟩)
  | [], line, column, _, before, .text backwards =>
    some ([⟨before, backwards.reverse, []⟩], [], ⟨[], line, column⟩)
  | c :: rest, line, column, indent?, before, .indentation deepest =>
    if c = ' ' ∧ indent?.all (column < ·) then
      readLines? floor rest line (column + 1) indent? before (.indentation deepest)
    else if c = '\t' ∧ indent?.all (column < ·) then none
    else if isBreak c then
      readLines? floor rest (line + 1) 0 indent? (before ++ [c]) (.indentation (max deepest column))
    else if column = indent?.getD (max (max deepest column) floor) then
      readLines? floor rest line (column + 1) (some column) before (.text [c])
    else some ([], before, ⟨c :: rest, line, column⟩)
  | c :: rest, line, column, indent?, before, .text backwards =>
    if isBreak c then
      (readLines? floor rest (line + 1) 0 indent? [] (.indentation 0)).map
        fun (more, trailing, spot) => (⟨before, backwards.reverse, [c]⟩ :: more, trailing, spot)
    else readLines? floor rest line (column + 1) indent? before (.text (c :: backwards))

/-- Whether a line begins with a blank. -/
def Line.startsBlank (line : Line) : Bool := line.text.head?.any isBlank

/-- What stands between two lines: `ending` ends the first one, and `blank` says whether that one
begins with a blank. -/
def joint (folded : Bool) (ending : List Char) (blank : Bool) (next : Line) : List Char :=
  if folded ∧ ending = ['\n'] ∧ !blank ∧ !next.startsBlank then
    if next.before = [] then [' '] else next.before
  else ending ++ next.before

/-- The lines joined, and the break at the end of the last one. -/
def join (folded : Bool) : List Char → Bool → List Line → List Char × List Char
  | ending, _, [] => ([], ending)
  | ending, blank, line :: more =>
    let (content, last) := join folded line.ending line.startsBlank more
    (joint folded ending blank line ++ line.text ++ content, last)

/-- The content of a scalar with the given lines and the breaks behind them. -/
def content (folded : Bool) (chomp : Chomp) (lines : List Line) (trailing : List Char) :
    List Char :=
  let (content, ending) := join folded [] false lines
  content ++ (if chomp = .strip then [] else ending) ++ (if chomp = .keep then trailing else [])

/-- Reads a block scalar behind its first sign. `indent` is the number of columns that the
collection around it asks for. -/
def read? (folded : Bool) (indent : Nat) (spot : Spot) : Option (List Char × Spot) :=
  match readSigns? spot.rest with
  | none => none
  | some (header, rest) =>
    let indent? := if header.indentation = 0 then none else some (indent - 1 + header.indentation)
    match dropComment rest with
    | [] => some ([], ⟨[], spot.line, spot.column⟩)
    | c :: rest =>
      if isBreak c then
        (readLines? (max indent 1) rest (spot.line + 1) 0 indent? [] (.indentation 0)).map
          fun (lines, trailing, spot) => (content folded header.chomp lines trailing, spot)
      else none

end ConfigGraft.Yaml.Block
