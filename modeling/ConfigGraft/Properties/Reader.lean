import ConfigGraft.Properties.Table
import ConfigGraft.Text.Lines

/-!
# Reading properties

A properties text is a row of logical lines. A logical line begins on a line that is neither blank
nor a comment, and goes on to the next line while it ends in an odd number of backslashes. It is
cut into a key and a value at the first separator that no backslash protects, and then both parts
lose their backslashes.

Only an escape of a UTF-16 unit can be wrong: without four hexadecimal digits, or as a half of a
surrogate pair without the other half.
-/

namespace ConfigGraft.Properties

/-- The blanks of a properties text. -/
def isBlank (c : Char) : Bool := c == ' ' || c == '\t' || c == '\x0c'

/-! ### Logical lines -/

/-- Whether a line ends in an odd number of backslashes, so that the next line belongs to it. -/
def continues (line : List Char) : Bool :=
  (line.reverse.takeWhile (· == '\\')).length % 2 == 1

/-- Adds further lines to a logical line for as long as it asks for them. The lines that are left
come with it, each with its number. -/
def joinLines (line : List Char) : List (List Char × Nat) → List Char × List (List Char × Nat)
  | [] => (if continues line then line.dropLast else line, [])
  | next :: more =>
    if continues line then joinLines (line.dropLast ++ next.1.dropWhile isBlank) more
    else (line, next :: more)

/-- Joining lines adds none. -/
theorem length_joinLines_le (line : List Char) (rest : List (List Char × Nat)) :
    (joinLines line rest).2.length ≤ rest.length := by
  induction rest generalizing line with
  | nil => simp [joinLines]
  | cons next more ih =>
    rw [joinLines]
    split
    · exact Nat.le_succ_of_le (ih _)
    · simp

/-- Whether a line without its leading blanks says nothing: it is empty or a comment. -/
def isSilent : List Char → Bool
  | [] => true
  | c :: _ => c == '#' || c == '!'

/-- The logical lines among numbered lines, each with the number of its first line. -/
def logicalLines : List (List Char × Nat) → List (List Char × Nat)
  | [] => []
  | (raw, n) :: rest =>
    if isSilent (raw.dropWhile isBlank) then logicalLines rest
    else
      (( joinLines (raw.dropWhile isBlank) rest).1, n) ::
        logicalLines (joinLines (raw.dropWhile isBlank) rest).2
termination_by lines => lines.length
decreasing_by
  · simp
  · have := length_joinLines_le (raw.dropWhile isBlank) rest
    simp only [List.length_cons]
    omega

/-! ### Keys and values -/

/-- Whether a character separates a key from its value by itself. -/
def isSign (c : Char) : Bool := c == '=' || c == ':'

/-- Cuts a line at the first separator or blank without a backslash before it: the part before it,
and from it on. -/
def cutKey : List Char → List Char × List Char
  | [] => ([], [])
  | ['\\'] => (['\\'], [])
  | '\\' :: c :: rest => ('\\' :: c :: (cutKey rest).1, (cutKey rest).2)
  | c :: rest =>
    if isSign c || isBlank c then ([], c :: rest) else (c :: (cutKey rest).1, (cutKey rest).2)

/-- The value behind a key: blanks are left out, and so is one sign with the blanks behind it. -/
def valuePart : List Char → List Char
  | [] => []
  | sep :: rest =>
    if isSign sep then rest.dropWhile isBlank
    else match rest.dropWhile isBlank with
      | c :: more => if isSign c then more.dropWhile isBlank else c :: more
      | [] => []

/-! ### Escapes -/

/-- What is wrong with an escape. -/
inductive EscapeFault where
  | badDigits (found : List Char)
  | unpairedSurrogate
  deriving DecidableEq, Repr

/-- The wording of the fault. -/
def EscapeFault.message : EscapeFault → String
  | .badDigits found => "\\u" ++ String.ofList found
  | .unpairedSurrogate => "unpaired surrogate"

/-- The value of a hexadecimal digit. -/
def hexDigit? (c : Char) : Option Nat :=
  if '0' ≤ c ∧ c ≤ '9' then some (c.toNat - 48)
  else if 'a' ≤ c ∧ c ≤ 'f' then some (c.toNat - 87)
  else if 'A' ≤ c ∧ c ≤ 'F' then some (c.toNat - 55)
  else none

/-- The unit that four hexadecimal digits stand for. -/
def unit? (a b c d : Char) : Option Nat := do
  some ((((← hexDigit? a) * 16 + (← hexDigit? b)) * 16 + (← hexDigit? c)) * 16 + (← hexDigit? d))

/-- Reads four hexadecimal digits. -/
def readUnit : List Char → Except EscapeFault (Nat × List Char)
  | a :: b :: c :: d :: rest =>
    match unit? a b c d with
    | some unit => .ok (unit, rest)
    | none => .error (.badDigits [a, b, c, d])
  | found => .error (.badDigits found)

/-- The character that a backslash and one further character stand for. -/
def plainEscape (c : Char) : Char :=
  if c = 't' then '\t'
  else if c = 'n' then '\n'
  else if c = 'r' then '\r'
  else if c = 'f' then '\x0c'
  else c

/-- The character that two units of a surrogate pair stand for. -/
def ofPair (high low : Nat) : Char :=
  Char.ofNat (0x10000 + (high - 0xD800) * 0x400 + (low - 0xDC00))

/-- The character that a unit stands for, together with a second unit behind it if it is the first
half of a pair. -/
def readChar (unit : Nat) (rest : List Char) : Except EscapeFault (Char × List Char) :=
  if 0xD800 ≤ unit ∧ unit < 0xDC00 then
    match rest with
    | '\\' :: 'u' :: tail =>
      match readUnit tail with
      | .error fault => .error fault
      | .ok (low, after) =>
        if 0xDC00 ≤ low ∧ low < 0xE000 then .ok (ofPair unit low, after)
        else .error .unpairedSurrogate
    | _ => .error .unpairedSurrogate
  else if 0xDC00 ≤ unit ∧ unit < 0xE000 then .error .unpairedSurrogate
  else .ok (Char.ofNat unit, rest)

/-- Reads the character of a unit escape, behind its backslash and letter. -/
def readUnitEscape (cs : List Char) : Except EscapeFault (Char × List Char) :=
  match readUnit cs with
  | .error fault => .error fault
  | .ok (unit, rest) => readChar unit rest

/-- Reading a unit uses characters up. -/
theorem length_lt_of_readUnit {cs rest : List Char} {unit : Nat}
    (h : readUnit cs = .ok (unit, rest)) : rest.length < cs.length := by
  unfold readUnit at h
  split at h
  · split at h
    · cases h; simp; omega
    · cases h
  · cases h

/-- Reading its second half, if it has one, adds none. -/
theorem length_le_of_readChar {unit : Nat} {cs rest : List Char} {c : Char}
    (h : readChar unit cs = .ok (c, rest)) : rest.length ≤ cs.length := by
  unfold readChar at h
  split at h
  · split at h
    · rename_i tail
      cases hu : readUnit tail with
      | error fault => simp [hu] at h
      | ok r =>
        obtain ⟨low, after⟩ := r
        simp only [hu] at h
        split at h
        · simp only [Except.ok.injEq, Prod.mk.injEq] at h
          have := length_lt_of_readUnit hu
          simp only [List.length_cons, ← h.2]
          omega
        · cases h
    · cases h
  · split at h
    · cases h
    · simp only [Except.ok.injEq, Prod.mk.injEq] at h
      exact Nat.le_of_eq (congrArg List.length h.2.symm)

/-- Reading an escape uses characters up, so unescaping ends. -/
theorem length_lt_of_readUnitEscape {cs rest : List Char} {c : Char}
    (h : readUnitEscape cs = .ok (c, rest)) : rest.length < cs.length := by
  unfold readUnitEscape at h
  cases hu : readUnit cs with
  | error fault => simp [hu] at h
  | ok r =>
    obtain ⟨unit, tail⟩ := r
    rw [hu] at h
    exact Nat.lt_of_le_of_lt (length_le_of_readChar h) (length_lt_of_readUnit hu)

/-- Resolves the escapes of a part of a line. A backslash at the very end means nothing. -/
def unescape (cs : List Char) : Except EscapeFault (List Char) :=
  match cs with
  | [] => .ok []
  | '\\' :: 'u' :: rest =>
    match _h : readUnitEscape rest with
    | .error fault => .error fault
    | .ok (c, after) => (unescape after).map (c :: ·)
  | '\\' :: c :: rest => (unescape rest).map (plainEscape c :: ·)
  | ['\\'] => .ok []
  | c :: rest => (unescape rest).map (c :: ·)
termination_by cs.length
decreasing_by
  · have := length_lt_of_readUnitEscape _h
    simp only [List.length_cons]
    omega
  · simp only [List.length_cons]; omega
  · simp

/-! ### Whole texts -/

/-- The text that bytes stand for: a properties text is stored one byte a character. -/
def decode (bytes : ByteArray) : String :=
  String.ofList (bytes.data.toList.map fun b => Char.ofNat b.toNat)

/-- What is wrong with a properties text: an escape, and the line where its logical line begins. -/
structure Fault where
  line : Nat
  cause : EscapeFault
  deriving DecidableEq, Repr

/-- The wording of the fault. -/
def Fault.message (fault : Fault) : String :=
  "line " ++ toString fault.line ++ ": malformed \\uxxxx encoding (" ++ fault.cause.message ++ ")"

/-- The key and the value of a logical line. -/
def readEntry (line : List Char) : Except EscapeFault (String × String) :=
  match unescape (cutKey line).1 with
  | .error fault => .error fault
  | .ok key =>
    match unescape (valuePart (cutKey line).2) with
    | .error fault => .error fault
    | .ok value => .ok (String.ofList key, String.ofList value)

/-- Adds the entries of logical lines to a table, from the first line to the last. -/
def readEntries (table : Properties) : List (List Char × Nat) → Except Fault Properties
  | [] => .ok table
  | (line, n) :: rest =>
    match readEntry line with
    | .error cause => .error ⟨n, cause⟩
    | .ok (key, value) => readEntries (table.insert key value) rest

/-- Reads a properties text. The last value of a key counts. -/
def parse (content : List Char) : Except Fault Properties :=
  readEntries .empty (logicalLines ((Text.lines content).zipIdx 1))

end ConfigGraft.Properties
