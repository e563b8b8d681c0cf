import ConfigGraft.Yaml.Character

/-!
# Tags

A tag names the type of a node. In a text it is written whole between angle brackets, or as a
handle and a suffix; a handle stands for the first part of tags, by a directive at the head of the
document or by itself. Percent signs introduce single bytes, so the text of a tag is a row of bytes.
-/

namespace ConfigGraft.Yaml

/-- A tag as it is written: a handle, which is empty for a whole tag, and the text behind it. -/
structure WrittenTag where
  handle : List Char
  suffix : List UInt8
  deriving DecidableEq, Repr

namespace WrittenTag

/-- Characters that may stand in a tag; commas and square brackets only between angle brackets. -/
def isUriChar (whole : Bool) (c : Char) : Bool :=
  isWordChar c || ";/?:@&=+$.!~*'()".toList.contains c || (whole && ",[]".toList.contains c)

def hexDigit? (c : Char) : Option Nat :=
  if '0' ≤ c ∧ c ≤ '9' then some (c.toNat - 48)
  else if 'a' ≤ c ∧ c ≤ 'f' then some (c.toNat - 87)
  else if 'A' ≤ c ∧ c ≤ 'F' then some (c.toNat - 55)
  else none

/-- How many bytes follow the first byte of a character. -/
def followers? (n : Nat) : Option Nat :=
  if n < 0x80 then some 0
  else if n / 0x20 = 6 then some 1
  else if n / 0x10 = 14 then some 2
  else if n / 8 = 30 then some 3
  else none

/-- Puts a byte before the text that was read. -/
def consByte (n : Nat) : Option (List UInt8 × List Char) → Option (List UInt8 × List Char) :=
  Option.map fun (bytes, rest) => (UInt8.ofNat n :: bytes, rest)

/-- Reads the text of a tag as far as it goes. `due` bytes of a character are still to come, and
they have to come with percent signs too. -/
def readUri? (whole : Bool) : List Char → Nat → Option (List UInt8 × List Char)
  | '%' :: a :: b :: rest, due =>
    match hexDigit? a, hexDigit? b with
    | some x, some y =>
      if due = 0 then
        match followers? (16 * x + y) with
        | some due => consByte (16 * x + y) (readUri? whole rest due)
        | none => none
      else if (16 * x + y) / 0x40 = 2 then consByte (16 * x + y) (readUri? whole rest (due - 1))
      else none
    | _, _ => none
  | c :: rest, due =>
    if due ≠ 0 ∨ c = '%' then none
    else if isUriChar whole c then consByte c.toNat (readUri? whole rest 0)
    else some ([], c :: rest)
  | [], due => if due = 0 then some ([], []) else none

/-- The bytes up to the first zero. -/
def untilZero (bytes : List UInt8) : List UInt8 := bytes.takeWhile (· != 0)

/-- Reads a handle: an exclamation mark, and word characters with another one behind them or not. -/
def readHandle? : List Char → Option (List Char × List Char)
  | '!' :: rest =>
    let word := rest.takeWhile isWordChar
    match rest.dropWhile isWordChar with
    | '!' :: rest => some ('!' :: (word ++ ['!']), rest)
    | rest => some ('!' :: word, rest)
  | _ => none

/-- Whether a handle begins and ends with an exclamation mark of its own. -/
def isClosedHandle : List Char → Bool
  | _ :: rest => rest.getLast? == some '!'
  | [] => false

/-- A tag behind the mark alone. A suffix that is empty leaves the mark as a whole tag. -/
def ofSuffix (suffix : List UInt8) : WrittenTag :=
  if untilZero suffix = [] then ⟨[], ['!'.toUInt8]⟩ else ⟨['!'], untilZero suffix⟩

/-- Reads a tag. -/
def read? : List Char → Option (WrittenTag × List Char)
  | '!' :: '<' :: rest =>
    match readUri? true rest 0 with
    | some ([], _) => none
    | some (bytes, '>' :: rest) => some (⟨[], untilZero bytes⟩, rest)
    | _ => none
  | cs =>
    match readHandle? cs with
    | none => none
    | some (handle, rest) =>
      match readUri? false rest 0 with
      | none => none
      | some (bytes, rest) =>
        if isClosedHandle handle then
          if bytes = [] then none else some (⟨handle, untilZero bytes⟩, rest)
        else some (ofSuffix ((handle.drop 1).map Char.toUInt8 ++ bytes), rest)

end WrittenTag

/-! ### Directives -/

/-- A line at the head of a document: the version that it is written for, or what a handle stands
for. -/
inductive Directive where
  | version (major minor : Nat)
  | handle (name : List Char) (start : List UInt8)
  deriving DecidableEq, Repr

namespace Directive

/-- Reads a number of at most nine digits. -/
def readNumber? (cs : List Char) : Option (Nat × List Char) :=
  let digits := cs.takeWhile Char.isDigit
  if digits = [] ∨ 9 < digits.length then none
  else some (digits.foldl (fun n c => n * 10 + (c.toNat - 48)) 0, cs.dropWhile Char.isDigit)

/-- Reads a version: two numbers with a point between them. -/
def readVersion? (cs : List Char) : Option (Directive × List Char) :=
  match readNumber? (cs.dropWhile isBlank) with
  | some (major, '.' :: rest) =>
    (readNumber? rest).map fun (minor, rest) => (.version major minor, rest)
  | _ => none

/-- Reads a handle and what it stands for. -/
def readShorthand? (cs : List Char) : Option (Directive × List Char) :=
  match WrittenTag.readHandle? (cs.dropWhile isBlank) with
  | some (name, c :: rest) =>
    if !isBlank c || !(name = ['!'] || WrittenTag.isClosedHandle name) then none
    else match WrittenTag.readUri? true (rest.dropWhile isBlank) 0 with
      | some (b :: bytes, rest) =>
        if atGap rest then some (.handle name (WrittenTag.untilZero (b :: bytes)), rest) else none
      | _ => none
  | _ => none

/-- Reads a directive behind its percent sign. -/
def read? (cs : List Char) : Option (Directive × List Char) :=
  let name := cs.takeWhile isWordChar
  let rest := cs.dropWhile isWordChar
  if !atGap rest then none
  else if name = "YAML".toList then readVersion? rest
  else if name = "TAG".toList then readShorthand? rest
  else none

end Directive

end ConfigGraft.Yaml
