import ConfigGraft.Association
import ConfigGraft.Yaml.Token

/-!
# YAML nodes

The nodes of a YAML document as its tokens spell them: scalars, sequences and mappings with their
tags and anchors, and aliases that stand for anchored nodes. Nothing is said yet about what a plain
scalar means.

Nodes are parametrised by the way anchors are named: by their text at first, and by numbers after
`Node.link?` has found out which anchor an alias belongs to.
-/

namespace ConfigGraft.Yaml

/-- What may stand before a node. -/
structure NodeMark (α : Type) where
  anchor? : Option α := none
  tag? : Option (List UInt8) := none

/-- A node of a document. -/
inductive Node (α : Type) where
  | alias (target : α)
  | scalar (mark : NodeMark α) (plain : Bool) (content : List Char)
  | sequence (mark : NodeMark α) (items : List (Node α))
  | mapping (mark : NodeMark α) (entries : List (Node α × Node α))

namespace Node

/-- The node that nothing is written for. -/
def absent {α : Type} : Node α := .scalar {} true []

/-! ### Tags -/

/-- What tag handles stand for. -/
abbrev Handles := List (List Char × List UInt8)

/-- What handles stand for unless a directive says otherwise. -/
def usualHandles : Handles :=
  [(['!'], ['!'.toUInt8]), (['!', '!'], "tag:yaml.org,2002:".toList.map Char.toUInt8)]

/-- The text of a written tag; its handle has to be known. -/
def tagText? (handles : Handles) (tag : WrittenTag) : Option (List UInt8) :=
  if tag.handle = [] then some tag.suffix
  else (handles.lookup tag.handle).map (· ++ tag.suffix)

/-- Reads what stands before a node: an anchor and a tag at most, in either order. -/
def readMark? (handles : Handles) : List Token → Option (NodeMark (List Char) × List Token)
  | .anchor name :: .tag tag :: rest =>
    (tagText? handles tag).map fun t => (⟨some name, some t⟩, rest)
  | .tag tag :: .anchor name :: rest =>
    (tagText? handles tag).map fun t => (⟨some name, some t⟩, rest)
  | .anchor name :: rest => some (⟨some name, none⟩, rest)
  | .tag tag :: rest => (tagText? handles tag).map fun t => (⟨none, some t⟩, rest)
  | rest => some ({}, rest)

/-! ### Reading nodes

Every function takes a bound on the steps first. -/

/-- Nodes that were read, and the tokens behind them. -/
abbrev Read (α : Type) := Option (α × List Token)

/-- A node for which only a mark is written, or none at all if there is not even that. -/
def ofMark? (mark : NodeMark (List Char)) (tokens : List Token) : Read (Node (List Char)) :=
  if mark.anchor?.isSome || mark.tag?.isSome then some (.scalar mark true [], tokens) else none

/-- Whether nothing is written for an item of a block sequence before a token. -/
def noItemBefore : List Token → Bool
  | .item :: _ | .closeBlock :: _ => true
  | _ => false

/-- Whether nothing is written for a key or value in a block collection before a token. -/
def noEntryBefore : List Token → Bool
  | .key :: _ | .value :: _ | .closeBlock :: _ => true
  | _ => false

/-- Whether nothing is written for a key or value in square brackets before a token. -/
def noPartInSequence : List Token → Bool
  | .comma :: _ | .closeSequence :: _ => true
  | _ => false

/-- Whether nothing is written for a key or value in braces before a token. -/
def noPartInMapping : List Token → Bool
  | .comma :: _ | .closeMapping :: _ => true
  | _ => false

/-- Whether the next token announces a value. -/
def atValue : List Token → Bool
  | .value :: _ => true
  | _ => false

/-- Passes over the comma between two entries; the first entry has none before it. -/
def passComma? (first : Bool) : List Token → Option (List Token)
  | .comma :: rest => if first then some (.comma :: rest) else some rest
  | tokens => if first then some tokens else none

mutual

/-- Reads a node. Block collections count only where `block` is set, and a sequence that is not
indented only with `indentless`. -/
def read? (handles : Handles) :
    Nat → Bool → Bool → List Token → Read (Node (List Char))
  | 0, _, _, _ => none
  | bound + 1, block, indentless, tokens =>
    match tokens with
    | .alias name :: rest => some (.alias name, rest)
    | tokens =>
      match readMark? handles tokens with
      | none => none
      | some (mark, tokens) =>
        match tokens with
        | .scalar plain content :: rest => some (.scalar mark plain content, rest)
        | .openSequence :: rest =>
          (readFlowItems? handles bound true rest).map fun (items, rest) =>
            (.sequence mark items, rest)
        | .openMapping :: rest =>
          (readFlowEntries? handles bound true rest).map fun (entries, rest) =>
            (.mapping mark entries, rest)
        | .openBlockSequence :: rest =>
          if block then
            (readItems? handles bound rest).map fun (items, rest) => (.sequence mark items, rest)
          else ofMark? mark tokens
        | .openBlockMapping :: rest =>
          if block then
            (readEntries? handles bound rest).map fun (entries, rest) =>
              (.mapping mark entries, rest)
          else ofMark? mark tokens
        | .item :: _ =>
          if indentless then
            (readFreeItems? handles bound tokens).map fun (items, rest) =>
              (.sequence mark items, rest)
          else ofMark? mark tokens
        | tokens => ofMark? mark tokens

/-- Reads the items of a block sequence to its end. -/
def readItems? (handles : Handles) : Nat → List Token → Read (List (Node (List Char)))
  | 0, _ => none
  | bound + 1, tokens =>
    match tokens with
    | .item :: rest =>
      match (if noItemBefore rest then some (absent, rest)
        else read? handles bound true false rest) with
      | none => none
      | some (item, rest) =>
        (readItems? handles bound rest).map fun (items, rest) => (item :: items, rest)
    | .closeBlock :: rest => some ([], rest)
    | _ => none

/-- Reads the items of a sequence that is not indented; it ends where no item follows. -/
def readFreeItems? (handles : Handles) : Nat → List Token → Read (List (Node (List Char)))
  | 0, _ => none
  | bound + 1, tokens =>
    match tokens with
    | .item :: rest =>
      match (if noItemBefore rest || noEntryBefore rest then some (absent, rest)
        else read? handles bound true false rest) with
      | none => none
      | some (item, rest) =>
        (readFreeItems? handles bound rest).map fun (items, rest) => (item :: items, rest)
    | tokens => some ([], tokens)

/-- Reads the entries of a block mapping to its end. -/
def readEntries? (handles : Handles) :
    Nat → List Token → Read (List (Node (List Char) × Node (List Char)))
  | 0, _ => none
  | bound + 1, tokens =>
    match tokens with
    | .key :: rest =>
      match (if noEntryBefore rest then some (absent, rest)
        else read? handles bound true true rest) with
      | none => none
      | some (key, rest) =>
        match readValue? handles bound rest with
        | none => none
        | some (value, rest) =>
          (readEntries? handles bound rest).map fun (entries, rest) =>
            ((key, value) :: entries, rest)
    | .closeBlock :: rest => some ([], rest)
    | _ => none

/-- Reads the value of an entry of a block mapping. -/
def readValue? (handles : Handles) : Nat → List Token → Read (Node (List Char))
  | 0, _ => none
  | bound + 1, tokens =>
    match tokens with
    | .value :: rest =>
      if noEntryBefore rest then some (absent, rest) else read? handles bound true true rest
    | tokens => some (absent, tokens)

/-- Reads the items of a sequence in brackets to its end. -/
def readFlowItems? (handles : Handles) :
    Nat → Bool → List Token → Read (List (Node (List Char)))
  | 0, _, _ => none
  | bound + 1, first, tokens =>
    match tokens with
    | .closeSequence :: rest => some ([], rest)
    | tokens =>
      match passComma? first tokens with
      | none => none
      | some (.closeSequence :: rest) => some ([], rest)
      | some (.key :: rest) =>
        match readPair? handles bound rest with
        | none => none
        | some (pair, rest) =>
          (readFlowItems? handles bound false rest).map fun (items, rest) => (pair :: items, rest)
      | some tokens =>
        match read? handles bound false false tokens with
        | none => none
        | some (item, rest) =>
          (readFlowItems? handles bound false rest).map fun (items, rest) => (item :: items, rest)

/-- Reads a mapping of one entry that stands as an item in square brackets, behind the token that
announces its key. Where nothing is written for the key, one token is passed over. -/
def readPair? (handles : Handles) : Nat → List Token → Read (Node (List Char))
  | 0, _ => none
  | bound + 1, tokens =>
    match (if atValue tokens || noPartInSequence tokens then some (absent, tokens.drop 1)
      else read? handles bound false false tokens) with
    | none => none
    | some (key, .value :: rest) =>
      (if noPartInSequence rest then some (absent, rest)
        else read? handles bound false false rest).map fun (value, rest) =>
          (.mapping {} [(key, value)], rest)
    | some (key, rest) => some (.mapping {} [(key, absent)], rest)

/-- Reads the entries of a mapping in braces to its end. -/
def readFlowEntries? (handles : Handles) :
    Nat → Bool → List Token → Read (List (Node (List Char) × Node (List Char)))
  | 0, _, _ => none
  | bound + 1, first, tokens =>
    match tokens with
    | .closeMapping :: rest => some ([], rest)
    | tokens =>
      match passComma? first tokens with
      | none => none
      | some (.closeMapping :: rest) => some ([], rest)
      | some (.key :: rest) =>
        match (if atValue rest || noPartInMapping rest then some (absent, rest)
          else read? handles bound false false rest) with
        | none => none
        | some (key, rest) =>
          match readFlowValue? handles bound rest with
          | none => none
          | some (value, rest) =>
            (readFlowEntries? handles bound false rest).map fun (entries, rest) =>
              ((key, value) :: entries, rest)
      | some tokens =>
        match read? handles bound false false tokens with
        | none => none
        | some (key, rest) =>
          (readFlowEntries? handles bound false rest).map fun (entries, rest) =>
            ((key, absent) :: entries, rest)

/-- Reads the value of an entry in braces. -/
def readFlowValue? (handles : Handles) : Nat → List Token → Read (Node (List Char))
  | 0, _ => none
  | bound + 1, tokens =>
    match tokens with
    | .value :: rest =>
      if noPartInMapping rest then some (absent, rest) else read? handles bound false false rest
    | tokens => some (absent, tokens)

end

/-! ### Documents -/

/-- Reads the directives at the head of a document. The version is named once at most and has to be
1.1 or 1.2, and no handle is explained twice. -/
def readDirectives? (versioned : Bool) (handles : Handles) :
    List Token → Option (Handles × List Token)
  | .directive (.version major minor) :: rest =>
    if !versioned && major == 1 && (minor == 1 || minor == 2) then
      readDirectives? true handles rest
    else none
  | .directive (.handle name start) :: rest =>
    if (handles.lookup name).isSome then none
    else readDirectives? versioned (handles ++ [(name, start)]) rest
  | rest => some (handles ++ usualHandles, rest)

/-- Whether nothing is written in a document before a token. -/
def noRootBefore : List Token → Bool
  | [] | .directive _ :: _ | .documentStart :: _ | .documentEnd :: _ => true
  | _ => false

/-- Whether a text with these tokens begins with the head of a document. -/
def hasHead : List Token → Bool
  | .directive _ :: _ | .documentStart :: _ => true
  | _ => false

def isDocumentEnd : Token → Bool
  | .documentEnd => true
  | _ => false

/-- Reads the root of the only document. -/
def readRoot? (tokens : List Token) : Read (Node (List Char)) :=
  let bound := 4 * tokens.length + 4
  if hasHead tokens then
    match readDirectives? false [] tokens with
    | some (handles, .documentStart :: rest) =>
      if noRootBefore rest then some (absent, rest) else read? handles bound true false rest
    | _ => none
  else read? usualHandles bound true false tokens

/-- The root of the document that tokens spell. There is at most one document; the inner `none`
says that there is none. -/
def ofTokens? (tokens : List Token) : Option (Option (Node (List Char))) :=
  if tokens.isEmpty then some none
  else match readRoot? tokens with
    | some (root, rest) => if rest.all isDocumentEnd then some (some root) else none
    | none => none

/-- The root of the document in a text. -/
def ofText? (text : String) : Option (Option (Node (List Char))) :=
  (Token.readAll? text.toList).bind ofTokens?

/-! ### Anchors -/

/-- The numbers of the anchors that are known by name. -/
abbrev Anchors := List (List Char × Nat)

/-- The mark with its anchor numbered by how many names are known before it. -/
def linkMark (anchors : Anchors) (mark : NodeMark (List Char)) : NodeMark Nat × Anchors :=
  match mark.anchor? with
  | some name => (⟨some anchors.length, mark.tag?⟩, Association.put name anchors.length anchors)
  | none => (⟨none, mark.tag?⟩, anchors)

mutual

/-- Numbers the anchors of a node in the order of the text, and gives every alias the number that
its name has at its place. The name has to be known there. -/
def link? (anchors : Anchors) : Node (List Char) → Option (Node Nat × Anchors)
  | .alias name => (anchors.lookup name).map fun n => (.alias n, anchors)
  | .scalar mark plain content =>
    let (mark, anchors) := linkMark anchors mark
    some (.scalar mark plain content, anchors)
  | .sequence mark items =>
    let (mark, anchors) := linkMark anchors mark
    (linkItems? anchors items).map fun (items, anchors) => (.sequence mark items, anchors)
  | .mapping mark entries =>
    let (mark, anchors) := linkMark anchors mark
    (linkEntries? anchors entries).map fun (entries, anchors) => (.mapping mark entries, anchors)

def linkItems? (anchors : Anchors) : List (Node (List Char)) → Option (List (Node Nat) × Anchors)
  | [] => some ([], anchors)
  | item :: rest =>
    match link? anchors item with
    | none => none
    | some (item, anchors) =>
      (linkItems? anchors rest).map fun (rest, anchors) => (item :: rest, anchors)

def linkEntries? (anchors : Anchors) :
    List (Node (List Char) × Node (List Char)) → Option (List (Node Nat × Node Nat) × Anchors)
  | [] => some ([], anchors)
  | (key, value) :: rest =>
    match link? anchors key with
    | none => none
    | some (key, anchors) =>
      match link? anchors value with
      | none => none
      | some (value, anchors) =>
        (linkEntries? anchors rest).map fun (rest, anchors) => ((key, value) :: rest, anchors)

end

/-- The node itself, if its mark carries an anchor. -/
def ifAnchored (n : Nat) (mark : NodeMark Nat) (node : Node Nat) : Option (Node Nat) :=
  if mark.anchor? = some n then some node else none

mutual

/-- The node with an anchor of a number; of several, the last one in the text. -/
def anchored? (n : Nat) : Node Nat → Option (Node Nat)
  | .alias _ => none
  | .scalar mark plain content => ifAnchored n mark (.scalar mark plain content)
  | .sequence mark items =>
    (anchoredItem? n items).or (ifAnchored n mark (.sequence mark items))
  | .mapping mark entries =>
    (anchoredPair? n entries).or (ifAnchored n mark (.mapping mark entries))

def anchoredItem? (n : Nat) : List (Node Nat) → Option (Node Nat)
  | [] => none
  | item :: rest => (anchoredItem? n rest).or (anchored? n item)

def anchoredPair? (n : Nat) : List (Node Nat × Node Nat) → Option (Node Nat)
  | [] => none
  | (key, value) :: rest =>
    ((anchoredPair? n rest).or (anchored? n value)).or (anchored? n key)

end

mutual

/-- How many marks a node leaves in a text: one for a scalar or alias, two for the ends of a
collection. -/
def weight {α : Type} : Node α → Nat
  | .alias _ | .scalar .. => 1
  | .sequence _ items => 2 + weightOfItems items
  | .mapping _ entries => 2 + weightOfEntries entries

def weightOfItems {α : Type} : List (Node α) → Nat
  | [] => 0
  | item :: rest => weight item + weightOfItems rest

def weightOfEntries {α : Type} : List (Node α × Node α) → Nat
  | [] => 0
  | (key, value) :: rest => weight key + weight value + weightOfEntries rest

end

end Node

end ConfigGraft.Yaml
