import ConfigGraft.Yaml.Node
import ConfigGraft.Yaml.Value

/-!
# Reading YAML

A plain scalar means nothing, a truth value or a number if it is spelled like one, and else its
text. A quoted scalar means its text. Tags of the language itself ask for one kind of scalar; other
tags stay with their values.

Collections are nested at most 128 deep, counted along aliases, and aliases are followed at most a
hundred times as often as the document has marks. A mapping has no key twice.
-/

namespace ConfigGraft.Yaml

namespace Value

/-! ### Scalars -/

/-- The truth value that a text spells. -/
def truth? (cs : List Char) : Option Bool :=
  if ["true".toList, "True".toList, "TRUE".toList].contains cs then some true
  else if ["false".toList, "False".toList, "FALSE".toList].contains cs then some false
  else none

/-- Whether a text spells that there is no value. -/
def isNullText (cs : List Char) : Bool :=
  ["~".toList, "null".toList, "Null".toList, "NULL".toList].contains cs

/-- A whole number as a value. One that needs over 64 bits has no value, but beyond 128 bits it is
no whole number any more. -/
def wholeNumber? (n : Int) : Option (Option Value) :=
  if Number.fits 64 n then some (some (.number (.whole n)))
  else if Number.fits 128 n then some none
  else none

/-- The whole number that a text spells, as `wholeNumber?` gives it. -/
def readWhole? (cs : List Char) : Option (Option Value) :=
  (Number.readWhole? cs).bind wholeNumber?

/-- What a plain scalar without a tag means. -/
def ofPlain? (cs : List Char) : Option Value :=
  if cs = [] ∨ isNullText cs then some .null
  else match truth? cs with
    | some b => some (.bool b)
    | none =>
      match readWhole? cs with
      | some value? => value?
      | none =>
        match (if Number.isPaddedDigits cs then none else Number.readFloat? cs) with
        | some x => some (.number (.float x))
        | none => some (.string (String.ofList cs))

/-- What a scalar means that has no tag to ask for a kind. -/
def ofScalar? (plain : Bool) (cs : List Char) : Option Value :=
  if plain then ofPlain? cs else some (.string (String.ofList cs))

/-- A name without one exclamation mark at its start, unless that is all of it. -/
def dropMark : List Char → List Char
  | '!' :: c :: rest => c :: rest
  | cs => cs

/-- The name of a tag of the document's own: its text without the mark at the start. -/
def customTag? (tag : List UInt8) : Option String :=
  if tag.head? = some '!'.toUInt8 then
    (String.fromUTF8? ⟨tag.toArray⟩).map fun text => String.ofList (dropMark (dropMark text.toList))
  else none

/-- The tag of the language itself with a name. -/
def coreTag (name : String) : List UInt8 := ("tag:yaml.org,2002:" ++ name).toList.map Char.toUInt8

/-- What a scalar means under a tag that is none of the document's own. -/
def ofCoreScalar? (tag : List UInt8) (plain : Bool) (cs : List Char) : Option Value :=
  if tag = coreTag "bool" then (truth? cs).map .bool
  else if tag = coreTag "int" then (readWhole? cs).bind id
  else if tag = coreTag "float" then (Number.readFloat? cs).map fun x => .number (.float x)
  else if tag = coreTag "null" then if isNullText cs then some .null else none
  else ofScalar? (plain && tag.head? = some '!'.toUInt8) cs

/-- What a scalar means. -/
def ofTaggedScalar? (tag? : Option (List UInt8)) (plain : Bool) (cs : List Char) : Option Value :=
  match tag? with
  | none => ofScalar? plain cs
  | some tag =>
    match customTag? tag with
    | some name => (ofScalar? plain cs).map (.tagged name)
    | none => ofCoreScalar? tag plain cs

/-- A collection with its tag, if it has one of the document's own. -/
def withTag (tag? : Option (List UInt8)) (value : Value) : Value :=
  match tag?.bind customTag? with
  | some name => .tagged name value
  | none => value

/-! ### Nodes -/

/-- The way to the value of a node; the number counts how many aliases were followed. -/
abbrev NodeReader := Node Nat → Nat → Option (Value × Nat)

/-- The values of the items of a sequence. -/
def readItems? (read? : NodeReader) : List (Node Nat) → Nat → Option (List Value × Nat)
  | [], jumps => some ([], jumps)
  | item :: rest, jumps =>
    match read? item jumps with
    | none => none
    | some (value, jumps) =>
      (readItems? read? rest jumps).map fun (values, jumps) => (value :: values, jumps)

/-- The entries of a mapping behind those that were read already. With `unique` no key may come
again. -/
def readEntries? (unique : Bool) (read? : NodeReader) (known : Mapping) :
    List (Node Nat × Node Nat) → Nat → Option (Mapping × Nat)
  | [], jumps => some (known, jumps)
  | (key, value) :: rest, jumps =>
    match read? key jumps with
    | none => none
    | some (key, jumps) =>
      if unique && known.any (fun (other, _) => other.same key) then none
      else match read? value jumps with
        | none => none
        | some (value, jumps) => readEntries? unique read? (known ++ [(key, value)]) rest jumps

/-- The node that an alias stands for, counted as followed; any other node stands for itself. -/
def follow? (root : Node Nat) (limit : Nat) : Node Nat → Nat → Option (Node Nat × Nat)
  | .alias n, jumps =>
    if limit < jumps + 1 then none
    else match root.anchored? n with
      | some node => some (node, jumps + 1)
      | none => none
  | node, jumps => some (node, jumps)

/-- The value of a node, with a reader for the nodes in it, if any may be in it. -/
def readWith? (unique : Bool) (root : Node Nat) (limit : Nat) (inner? : Option NodeReader) :
    NodeReader :=
  fun node jumps =>
    match follow? root limit node jumps, inner? with
    | some (.scalar mark plain content, jumps), _ =>
      (ofTaggedScalar? mark.tag? plain content).map fun value => (value, jumps)
    | some (.sequence mark items, jumps), some inner =>
      (readItems? inner items jumps).map fun (items, jumps) =>
        (withTag mark.tag? (.sequence items), jumps)
    | some (.mapping mark entries, jumps), some inner =>
      (readEntries? unique inner [] entries jumps).map fun (entries, jumps) =>
        (withTag mark.tag? (.mapping entries), jumps)
    | _, _ => none

/-- The value of a node with so many levels of collections. -/
def readNode? (unique : Bool) (root : Node Nat) (limit : Nat) : Nat → NodeReader
  | 0 => readWith? unique root limit none
  | depth + 1 => readWith? unique root limit (some (readNode? unique root limit depth))

/-- How deep collections are nested at most. -/
def depthLimit : Nat := 128

/-- How often aliases are followed at most in a document. -/
def jumpLimit (root : Node Nat) : Nat := 100 * root.weight

/-- The value of the root of a document. -/
def ofRoot? (root : Node (List Char)) : Option Value :=
  match root.link? [] with
  | none => none
  | some (root, _) =>
    (readNode? true root (jumpLimit root) depthLimit root 0).map fun (value, _) => value

/-- Reads a text. One without any document means that there is no value. -/
def read? (text : String) : Option Value :=
  match Node.ofText? text with
  | none => none
  | some none => some .null
  | some (some root) => ofRoot? root

/-- A text that is cut into tokens is read by its tokens. -/
theorem read?_of_tokens {text : String} {tokens : List Token}
    (h : Token.readAll? text.toList = some tokens) :
    read? text = match Node.ofTokens? tokens with
      | none => none
      | some none => some .null
      | some (some root) => ofRoot? root := by
  rw [read?, Node.ofText?, h, Option.bind_some]

end Value

end ConfigGraft.Yaml
