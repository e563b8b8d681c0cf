import ConfigGraft.Yaml.Scalar.Block
import ConfigGraft.Yaml.Scalar.Plain
import ConfigGraft.Yaml.Scalar.Quoted
import ConfigGraft.Yaml.Tag

/-!
# YAML tokens

A YAML text is a row of tokens. Most of them stand in the text as signs and scalars, and some are
seen from the layout only: a block collection opens where a line is indented further than the
collection around it, and closes where a line is indented less.

Whether a node is a key shows at the colon behind it. So a place where a key may begin is noted as
a `PendingKey`, and when the colon comes on the same line and soon enough, the token that announces
the key is put in at the noted place.
-/

namespace ConfigGraft.Yaml

/-- A token of a YAML text. -/
inductive Token where
  | directive (d : Directive)
  | documentStart
  | documentEnd
  | openBlockSequence
  | openBlockMapping
  | closeBlock
  | openSequence
  | closeSequence
  | openMapping
  | closeMapping
  | item
  | comma
  | key
  | value
  | alias (name : List Char)
  | anchor (name : List Char)
  | tag (tag : WrittenTag)
  | scalar (plain : Bool) (content : List Char)
  deriving DecidableEq, Repr

/-- A place where a key may begin. It is `required` to be one where the line is indented just like
the collection around it. `number` tokens stand before it. -/
structure PendingKey where
  required : Bool
  number : Nat
  line : Nat
  column : Nat
  deriving DecidableEq, Repr

/-- How far a text has been cut into tokens: the place, the tokens so far, the latest first, the
columns of the open block collections, the innermost first, and the possible keys of the innermost
collection in brackets and of those around it. -/
structure Lexer where
  spot : Spot
  tokens : List Token := []
  count : Nat := 0
  columns : List Nat := []
  pending : Option PendingKey := none
  outer : List (Option PendingKey) := []
  /-- Whether a key may begin at the place. -/
  keyAllowed : Bool := true

namespace Lexer

/-- Whether the place is within brackets. -/
def inFlow (lx : Lexer) : Bool := !lx.outer.isEmpty

/-- The columns that a line needs at least to stand within the innermost block collection. -/
def floor (lx : Lexer) : Nat :=
  match lx.columns with
  | [] => 0
  | column :: _ => column + 1

def push (token : Token) (lx : Lexer) : Lexer :=
  { lx with tokens := token :: lx.tokens, count := lx.count + 1 }

/-- Puts a token where `number` tokens stand before it. -/
def insertAt (number : Nat) (token : Token) (lx : Lexer) : Lexer :=
  { lx with tokens := lx.tokens.insertIdx (lx.count - number) token, count := lx.count + 1 }

/-- Goes so many characters on within the line. -/
def skip (n : Nat) (lx : Lexer) : Lexer :=
  { lx with spot := ⟨lx.spot.rest.drop n, lx.spot.line, lx.spot.column + n⟩ }

def allowKey (allowed : Bool) (lx : Lexer) : Lexer := { lx with keyAllowed := allowed }

/-! ### Possible keys -/

/-- Gives up a possible key; one that is required cannot be given up. -/
def giveUp? : Option PendingKey → Option (Option PendingKey)
  | some key => if key.required then none else some none
  | none => some none

/-- Gives up the possible key of the innermost collection. -/
def dropKey? (lx : Lexer) : Option Lexer :=
  (giveUp? lx.pending).map fun pending => { lx with pending }

/-- Notes that a key may begin at the place. -/
def noteKey? (lx : Lexer) : Option Lexer :=
  if lx.keyAllowed then
    lx.dropKey?.map fun lx => { lx with pending := some {
      required := !lx.inFlow && lx.columns.head? == some lx.spot.column
      number := lx.count
      line := lx.spot.line
      column := lx.spot.column } }
  else some lx

/-- Gives up a possible key that began on an earlier line or over 1024 columns before. -/
def expire? (spot : Spot) (pending : Option PendingKey) : Option (Option PendingKey) :=
  match pending with
  | some key =>
    if key.line < spot.line ∨ key.column + 1024 < spot.column then giveUp? pending
    else some pending
  | none => some none

/-- Gives up all possible keys that the place is too far from. -/
def expireKeys? (lx : Lexer) : Option Lexer := do
  let pending ← expire? lx.spot lx.pending
  let outer ← lx.outer.mapM (expire? lx.spot)
  some { lx with pending, outer }

/-! ### Layout -/

/-- Opens a block collection at a column, unless one is open that is indented as far. Its token is
put where `number` tokens stand before it. -/
def openBlock (column number : Nat) (token : Token) (lx : Lexer) : Lexer :=
  if !lx.inFlow && lx.floor ≤ column then
    { lx.insertAt number token with columns := column :: lx.columns }
  else lx

/-- Closes the block collections that are indented further than a column. -/
def closeBlocksTo (column : Nat) (lx : Lexer) : Lexer :=
  if lx.inFlow then lx
  else
    let closed := lx.columns.takeWhile (column < ·)
    { lx with
      tokens := closed.map (fun _ => .closeBlock) ++ lx.tokens
      count := lx.count + closed.length
      columns := lx.columns.dropWhile (column < ·) }

/-- Closes all block collections. -/
def closeBlocks (lx : Lexer) : Lexer :=
  if lx.inFlow then lx
  else
    { lx with
      tokens := lx.columns.map (fun _ => .closeBlock) ++ lx.tokens
      count := lx.count + lx.columns.length
      columns := [] }

/-- Passes over blanks, comments and breaks. A tab counts as a blank only within brackets or where
no key may begin, and behind a break outside of brackets a key may begin. -/
def passGap (inFlow : Bool) : List Char → Nat → Nat → Bool → Bool → Spot × Bool
  | [], line, column, allowed, _ => (⟨[], line, column⟩, allowed)
  | c :: rest, line, column, allowed, inComment =>
    if isBreak c then passGap inFlow rest (line + 1) 0 (allowed || !inFlow) false
    else if inComment || c == ' ' || (c == '\t' && (inFlow || !allowed)) then
      passGap inFlow rest line (column + 1) allowed inComment
    else if c == '#' then passGap inFlow rest line (column + 1) allowed true
    else (⟨c :: rest, line, column⟩, allowed)

/-- Passes over what stands before the next token. -/
def toNextToken (lx : Lexer) : Lexer :=
  let (spot, keyAllowed) :=
    passGap lx.inFlow lx.spot.rest lx.spot.line lx.spot.column lx.keyAllowed false
  { lx with spot, keyAllowed }

/-! ### Single tokens -/

/-- A mark between documents. -/
def documentMark? (token : Token) (lx : Lexer) : Option Lexer :=
  lx.closeBlocks.dropKey?.map fun lx => ((lx.allowKey false).push token).skip 3

/-- A directive, with the rest of its line. -/
def directive? (lx : Lexer) : Option Lexer := do
  let lx ← lx.closeBlocks.dropKey?
  let (d, rest) ← Directive.read? (lx.spot.rest.drop 1)
  let lx := (lx.allowKey false).push (.directive d)
  match Block.dropComment rest with
  | [] => some { lx with spot := ⟨[], lx.spot.line, lx.spot.column + 1⟩ }
  | c :: rest => if isBreak c then some { lx with spot := ⟨rest, lx.spot.line + 1, 0⟩ } else none

/-- The opening bracket of a collection. -/
def openBracket? (token : Token) (lx : Lexer) : Option Lexer :=
  lx.noteKey?.map fun lx =>
    { ((lx.allowKey true).push token).skip 1 with
      pending := none
      outer := lx.pending :: lx.outer }

/-- The closing bracket of a collection. -/
def closeBracket? (token : Token) (lx : Lexer) : Option Lexer :=
  lx.dropKey?.map fun lx =>
    let lx := ((lx.allowKey false).push token).skip 1
    match lx.outer with
    | pending :: outer => { lx with pending, outer }
    | [] => lx

/-- The comma between entries in brackets. -/
def comma? (lx : Lexer) : Option Lexer :=
  lx.dropKey?.map fun lx => ((lx.allowKey true).push .comma).skip 1

/-- The dash before an item. -/
def item? (lx : Lexer) : Option Lexer :=
  if !lx.inFlow && !lx.keyAllowed then none
  else
    (lx.openBlock lx.spot.column lx.count .openBlockSequence).dropKey?.map fun lx =>
      ((lx.allowKey true).push .item).skip 1

/-- The question mark before a key. -/
def key? (lx : Lexer) : Option Lexer :=
  if !lx.inFlow && !lx.keyAllowed then none
  else
    (lx.openBlock lx.spot.column lx.count .openBlockMapping).dropKey?.map fun lx =>
      ((lx.allowKey !lx.inFlow).push .key).skip 1

/-- The colon before a value. It makes a key of what was noted as a possible one. -/
def value? (lx : Lexer) : Option Lexer :=
  match lx.pending with
  | some key =>
    let lx := (lx.insertAt key.number .key).openBlock key.column key.number .openBlockMapping
    some ((({ lx with pending := none }.allowKey false).push .value).skip 1)
  | none =>
    if !lx.inFlow && !lx.keyAllowed then none
    else
      let lx := lx.openBlock lx.spot.column lx.count .openBlockMapping
      some (((lx.allowKey !lx.inFlow).push .value).skip 1)

/-- A name behind an ampersand or an asterisk. -/
def name? (token : List Char → Token) (lx : Lexer) : Option Lexer := do
  let lx ← lx.noteKey?
  let name := (lx.spot.rest.drop 1).takeWhile isWordChar
  let lx := ((lx.allowKey false).push (token name)).skip (name.length + 1)
  let ended : Bool := match lx.spot.rest with
    | c :: _ => "?:,]\x7d%@\x60".toList.contains c
    | [] => true
  if name != [] && (atGap lx.spot.rest || ended) then some lx else none

/-- A tag. -/
def tag? (lx : Lexer) : Option Lexer := do
  let lx ← lx.noteKey?
  let (tag, rest) ← WrittenTag.read? lx.spot.rest
  let lx := ((lx.allowKey false).push (.tag tag)).skip (lx.spot.rest.length - rest.length)
  if atGap rest ∨ (lx.inFlow ∧ rest.head? = some ',') then some lx else none

/-- A block scalar. -/
def blockScalar? (folded : Bool) (lx : Lexer) : Option Lexer := do
  let lx ← lx.dropKey?
  let (content, spot) ← Block.read? folded lx.floor (lx.skip 1).spot
  some { (lx.allowKey true).push (.scalar false content) with spot }

/-- A quoted scalar. -/
def quotedScalar? (read? : List Char → Nat → Nat → Option (List Char × Spot)) (lx : Lexer) :
    Option Lexer := do
  let lx ← lx.noteKey?
  let spot := (lx.skip 1).spot
  let (content, spot) ← read? spot.rest spot.line spot.column
  some { (lx.allowKey false).push (.scalar false content) with spot }

/-- A plain scalar. -/
def plainScalar? (lx : Lexer) : Option Lexer := do
  let lx ← lx.noteKey?
  let (content, spot, crossed) ←
    Plain.read? lx.inFlow lx.floor lx.spot.rest lx.spot.line lx.spot.column {}
  some { (lx.allowKey crossed).push (.scalar true content) with spot }

/-! ### The row of tokens -/

/-- Signs that no plain scalar begins with, whatever follows them. -/
def isIndicator (c : Char) : Bool := ",[]\x7b\x7d#&*!|>\x27\"%@\x60".toList.contains c

/-- Whether a plain scalar begins with a character, by what follows. -/
def startsPlain (inFlow : Bool) (c : Char) (rest : List Char) : Bool :=
  if c == '-' then !rest.head?.any isBlank
  else if c == '?' || c == ':' then !inFlow && !atGap rest
  else !isBlank c && !isIndicator c

/-- Cuts one token off, at a place where it begins. -/
def token? (c : Char) (rest : List Char) (lx : Lexer) : Option Lexer :=
  let first := lx.spot.column == 0
  if first && c == '%' then lx.directive?
  else if first && isDocumentMark (c :: rest) then
    lx.documentMark? (if c = '-' then .documentStart else .documentEnd)
  else if c == '[' then lx.openBracket? .openSequence
  else if c == '{' then lx.openBracket? .openMapping
  else if c == ']' then lx.closeBracket? .closeSequence
  else if c == '}' then lx.closeBracket? .closeMapping
  else if c == ',' then lx.comma?
  else if c == '-' && atGap rest then lx.item?
  else if c == '?' && (lx.inFlow || atGap rest) then lx.key?
  else if c == ':' && (lx.inFlow || atGap rest) then lx.value?
  else if c == '*' then lx.name? .alias
  else if c == '&' then lx.name? .anchor
  else if c == '!' then lx.tag?
  else if c == '|' && !lx.inFlow then lx.blockScalar? false
  else if c == '>' && !lx.inFlow then lx.blockScalar? true
  else if c == '\x27' then
    lx.quotedScalar? fun cs line column => Quoted.readSingle? cs line column (.text {})
  else if c == '"' then
    lx.quotedScalar? fun cs line column => Quoted.readDouble? cs line column (.text {})
  else if startsPlain lx.inFlow c rest then lx.plainScalar?
  else none

/-- Cuts a text into tokens to its end. Every token takes a character at least, and the number
bounds how many are taken. -/
def run? : Nat → Lexer → Option (List Token)
  | 0, _ => none
  | bound + 1, lx => do
    let lx ← lx.toNextToken.expireKeys?
    let lx := lx.closeBlocksTo lx.spot.column
    match lx.spot.rest with
    | [] =>
      let lx ← lx.closeBlocks.dropKey?
      some lx.tokens.reverse
    | c :: rest =>
      let lx ← lx.token? c rest
      run? bound lx

end Lexer

namespace Token

/-- The place where a text begins; a byte order mark at its start takes a column. -/
def start (cs : List Char) : Spot :=
  match cs with
  | '\ufeff' :: rest => ⟨rest, 0, 1⟩
  | cs => ⟨cs, 0, 0⟩

/-- The tokens of a text. -/
def readAll? (cs : List Char) : Option (List Token) :=
  if cs.all isAllowed then
    let cs := oneBreak cs
    Lexer.run? (cs.length + 1) { spot := start cs }
  else none

end Token

end ConfigGraft.Yaml
