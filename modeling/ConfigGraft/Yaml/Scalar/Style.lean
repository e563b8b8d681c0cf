import ConfigGraft.Yaml.Reader

/-!
# Styles of scalars

A text is written plain where it reads back as itself, and else in quotes or, with line feeds in
it, as a literal block. Single quotes are preferred; double quotes can hold everything.

`Style.wanted` says what suits the meaning of a text, and `Style.allowed` what its characters and
its place allow.
-/

namespace ConfigGraft.Yaml

/-- How a scalar is written. -/
inductive Style where
  | plain
  | single
  | double
  | literal
  deriving DecidableEq, Repr

namespace Style

/-! ### Characters of a text -/

/-- Whether a character ends a line in any way. -/
def endsLine (c : Char) : Bool :=
  c == '\n' || c == '\r' || c == '\u0085' || c == '\u2028' || c == '\u2029'

/-- Whether a character can be written as it is. -/
def isPrintable (c : Char) : Bool :=
  c == '\n' || (' ' ≤ c && c ≤ '~') || ('\u00a0' ≤ c && c ≤ '\ufffd' && c != '\ufeff') ||
    0x10000 ≤ c.toNat

/-- Whether a text begins with a blank or a line end, or is at its end. -/
def gapAhead : List Char → Bool
  | [] => true
  | c :: _ => c == ' ' || c == '\t' || endsLine c

/-- Whether two neighbours in a text are of the given kinds. -/
def hasNeighbours (p q : Char → Bool) : List Char → Bool
  | a :: b :: rest => (p a && q b) || hasNeighbours p q (b :: rest)
  | _ => false

/-- Whether a text begins like a mark between documents. -/
def startsLikeMark : List Char → Bool
  | '-' :: '-' :: '-' :: _ => true
  | '.' :: '.' :: '.' :: _ => true
  | _ => false

/-- Characters that mean something at the start of a scalar, whatever follows them. -/
def isLeadingSign (c : Char) : Bool := "#,[]\x7b\x7d&*!|>\x27\"%@\x60".toList.contains c

/-- Whether the first character of a scalar would be read as a sign. -/
def leadingSign : List Char → Bool
  | [] => false
  | c :: rest => isLeadingSign c || ((c == '?' || c == ':' || c == '-') && gapAhead rest)

/-- Whether a character behind the first would be read as a sign: a colon before a gap, or a number
sign behind one. -/
def innerSign : List Char → Bool
  | a :: b :: rest =>
    (b == ':' && gapAhead rest) || (b == '#' && gapAhead [a]) || innerSign (b :: rest)
  | _ => false

/-- Whether a text reads back as itself without quotes, apart from what it means. -/
def plainAllowed (cs : List Char) : Bool :=
  !startsLikeMark cs && !leadingSign cs && !innerSign cs && cs.all isPrintable &&
    !cs.any endsLine && cs.head? != some ' ' && cs.getLast? != some ' '

/-- Whether a text reads back as itself between single quotes. -/
def singleAllowed (cs : List Char) : Bool :=
  cs.all isPrintable && !hasNeighbours endsLine (· == ' ') cs &&
    !hasNeighbours (· == ' ') endsLine cs

/-- Whether a text reads back as itself as a literal block. -/
def literalAllowed (cs : List Char) : Bool :=
  cs.all isPrintable && !hasNeighbours (· == ' ') endsLine cs && cs.getLast? != some ' '

/-! ### Choosing a style -/

/-- Whether a text would mean something else without quotes, or looks like a number. -/
def looksOther (cs : List Char) : Bool :=
  match Value.ofPlain? cs with
  | some (.string _) => Number.isPaddedDigits cs
  | _ => true

/-- The style that suits the meaning of a text. -/
def wanted (cs : List Char) : Style :=
  if cs.contains '\n' then .literal
  else if looksOther cs then .single
  else .plain

/-- The style that a text can have instead of the wanted one. A key is written on one line. -/
def allowed (isKey : Bool) (cs : List Char) (wanted : Style) : Style :=
  if isKey && cs.any endsLine then .double
  else match wanted with
    | .plain =>
      if plainAllowed cs then .plain else if singleAllowed cs then .single else .double
    | .single => if singleAllowed cs then .single else .double
    | .literal => if literalAllowed cs then .literal else .double
    | .double => .double

/-- The style that a text is written in. -/
def ofText (isKey : Bool) (cs : List Char) : Style := allowed isKey cs (wanted cs)

end Style

end ConfigGraft.Yaml
