/-!
# Characters of YAML text

Which characters a YAML text may hold, which of them are blanks and line breaks, and the places in
a text that reading moves through.

A text is prepared before it is read: every way to end a line but two becomes a line feed, so that
each line break is one character. The line and paragraph separators stay as they are, because they
are kept in scalars.
-/

namespace ConfigGraft.Yaml

/-- Whether a character may stand in a YAML text. -/
def isAllowed (c : Char) : Bool :=
  c == '\t' || c == '\n' || c == '\r' || (' ' ≤ c && c ≤ '~') || c == '\u0085' ||
    ('\u00a0' ≤ c && c ≤ '\ufffd') || 0x10000 ≤ c.toNat

/-- Whether a character ends a line of a prepared text. -/
def isBreak (c : Char) : Bool := c == '\n' || c == '\u2028' || c == '\u2029'

/-- Whether a character is blank within a line. -/
def isBlank (c : Char) : Bool := c == ' ' || c == '\t'

/-- Whether a text begins with a blank or a break, or is at its end. -/
def atGap : List Char → Bool
  | [] => true
  | c :: _ => isBlank c || isBreak c

/-- Characters of anchors, tag handles and directive names. -/
def isWordChar (c : Char) : Bool := c.isAlphanum || c == '_' || c == '-'

/-- The text with every line break written as one character. -/
def oneBreak : List Char → List Char
  | [] => []
  | '\r' :: '\n' :: rest => '\n' :: oneBreak rest
  | c :: rest => (if c = '\r' ∨ c = '\u0085' then '\n' else c) :: oneBreak rest

/-- Whether a text begins with a mark between documents, `---` or `...` on its own. -/
def isDocumentMark : List Char → Bool
  | '-' :: '-' :: '-' :: rest => atGap rest
  | '.' :: '.' :: '.' :: rest => atGap rest
  | _ => false

/-- A place in a text: what is still to be read there, the line and the column. -/
structure Spot where
  rest : List Char
  line : Nat := 0
  column : Nat := 0
  deriving Repr

/-- Blanks and breaks between two words of a scalar. With `escaped` they stand behind a break that
a backslash took back. -/
structure Gap where
  blanks : List Char := []
  breaks : List Char := []
  escaped : Bool := false
  deriving Repr

namespace Gap

/-- Whether the gap goes over to another line. -/
def crosses (gap : Gap) : Bool := gap.escaped || !gap.breaks.isEmpty

def isEmpty (gap : Gap) : Bool := gap.blanks.isEmpty && !gap.crosses

/-- The gap with one more blank; on further lines blanks do not count. -/
def addBlank (c : Char) (gap : Gap) : Gap :=
  if gap.crosses then gap else { gap with blanks := gap.blanks ++ [c] }

def addBreak (c : Char) (gap : Gap) : Gap := { gap with breaks := gap.breaks ++ [c] }

/-- What the gap means. Within a line it stands for its blanks. A single line feed is folded to a
space, and of several breaks the first line feed is left out. -/
def text (gap : Gap) : List Char :=
  if gap.escaped then gap.breaks
  else match gap.breaks with
    | [] => gap.blanks
    | ['\n'] => [' ']
    | '\n' :: more => more
    | breaks => breaks

end Gap

end ConfigGraft.Yaml
