import Lakehouse.Dict
import Lakehouse.Yaml.Token
/-!
Nodes of a YAML document, as tokens describe them. Aliases are not followed yet.
-/
namespace Lakehouse.Yaml

inductive Node where
  | scalar (s : Scalar)
  | sequence (tag : Option Tag) (items : List Node)
  | mapping (tag : Option Tag) (entries : List (Node × Node))
  -- A node under the number of its anchor.
  | anchored (id : Nat) (content : Node)
  | alias (id : Nat)
  deriving Repr, Inhabited

namespace Node

structure Reading where
  tokens : List Token
  -- What the handles of tags stand for; of two entries the first one counts.
  handles : Dict String
  -- Numbers of anchors by name.
  anchors : Dict Nat

abbrev Read := StateT Reading Option

def peek? : Read (Option Token) := return (← get).tokens.head?

def skip : Read Unit := modify fun r => { r with tokens := r.tokens.tail }

-- Takes the next token if it is this one.
def accept (t : Token) : Read Bool := do
  if (← peek?) == some t then
    skip
    return true
  else return false

def isAt (ts : List Token) : Read Bool := return ((← peek?).map ts.contains).getD false

-- Takes the comma in front of an entry that is not the first one.
def separate (first : Bool) : Read Unit := do
  if first then return
  if !(← accept .flowEntry) then failure

-- A node of which nothing is written.
def blank : Node := .scalar ⟨"", .plain, none⟩

def anchorName? : Read (Option String) := do
  match ← peek? with
  | some (.anchor name) => skip; return some name
  | _ => return none

-- The text of a tag, with its handle resolved.
def tagText? : Read (Option String) := do
  match ← peek? with
  | some (.tag handle suffix) =>
    skip
    if handle.isEmpty then return some suffix
    else return some ((← (← get).handles.get? handle) ++ suffix)
  | _ => return none

-- Numbers an anchor. A name that comes again gets a new number, but is not counted once more.
def newAnchor (name : String) : Read Nat :=
  modifyGet fun r => (r.anchors.length, { r with anchors := r.anchors.insert name r.anchors.length })

-- Anchor and tag, in either order.
def properties : Read (Option Nat × Option String) := do
  let first ← anchorName?
  let tag ← tagText?
  let name ← match first with
    | some name => pure (some name)
    | none => anchorName?
  return (← name.mapM newAnchor, tag)

-- A single mark is no tag for a scalar.
def scalarTag (tag : Option String) : Option Tag := (tag.filter (· != "!")).map Tag.ofText

mutual

def read (fuel : Nat) (inBlock indentless : Bool) : Read Node := do
  match fuel with
  | 0 => failure
  | fuel + 1 =>
    match ← peek? with
    | some (.alias name) =>
      skip
      return .alias (← (← get).anchors.get? name)
    | _ =>
      let (anchor, tag) ← properties
      let content ← readContent fuel inBlock indentless (anchor.isSome || tag.isSome) tag
      return match anchor with
        | some id => .anchored id content
        | none => content

-- The node behind its properties. Where there are some, nothing need follow them.
def readContent (fuel : Nat) (inBlock indentless hasProperties : Bool) (tag : Option String) :
    Read Node := do
  match fuel with
  | 0 => failure
  | fuel + 1 =>
    let collectionTag := tag.map Tag.ofText
    match ← peek?, inBlock, indentless with
    | some .blockEntry, _, true => return .sequence collectionTag (← readIndentless fuel)
    | some (.scalar text style), _, _ => do
      skip
      return .scalar ⟨text, style, scalarTag tag⟩
    | some .flowSequence, _, _ => do
      skip
      return .sequence collectionTag (← readFlowItems fuel true)
    | some .flowMapping, _, _ => do
      skip
      return .mapping collectionTag (← readFlowEntries fuel true)
    | some .blockSequence, true, _ => do
      skip
      return .sequence collectionTag (← readItems fuel)
    | some .blockMapping, true, _ => do
      skip
      return .mapping collectionTag (← readEntries fuel)
    | _, _, _ => if hasProperties then return .scalar ⟨"", .plain, collectionTag⟩ else failure

-- A node, or nothing in front of the given tokens.
def readUnless (fuel : Nat) (ts : List Token) (inBlock indentless : Bool) : Read Node := do
  match fuel with
  | 0 => failure
  | fuel + 1 => if ← isAt ts then return blank else read fuel inBlock indentless

def readItems (fuel : Nat) : Read (List Node) := do
  match fuel with
  | 0 => failure
  | fuel + 1 =>
    if ← accept .blockEntry then
      let item ← readUnless fuel [.blockEntry, .blockEnd] true false
      return item :: (← readItems fuel)
    else if ← accept .blockEnd then return []
    else failure

-- Items at the column of the key that they belong to.
def readIndentless (fuel : Nat) : Read (List Node) := do
  match fuel with
  | 0 => failure
  | fuel + 1 =>
    if ← accept .blockEntry then
      let item ← readUnless fuel [.blockEntry, .key, .value, .blockEnd] true false
      return item :: (← readIndentless fuel)
    else return []

def readEntries (fuel : Nat) : Read (List (Node × Node)) := do
  match fuel with
  | 0 => failure
  | fuel + 1 =>
    if ← accept .key then
      let ends := [.key, .value, .blockEnd]
      let key ← readUnless fuel ends true true
      let v ← if ← accept .value then readUnless fuel ends true true else pure blank
      return (key, v) :: (← readEntries fuel)
    else if ← accept .blockEnd then return []
    else failure

def readFlowItems (fuel : Nat) (first : Bool) : Read (List Node) := do
  match fuel with
  | 0 => failure
  | fuel + 1 =>
    if ← accept .flowSequenceEnd then return []
    separate first
    if ← accept .key then
      let pair ← readPair fuel
      return .mapping none [pair] :: (← readFlowItems fuel false)
    else if ← accept .flowSequenceEnd then return []
    else
      let item ← read fuel false false
      return item :: (← readFlowItems fuel false)

-- A single entry between brackets. Where it has no key, the next token is skipped with it.
def readPair (fuel : Nat) : Read (Node × Node) := do
  match fuel with
  | 0 => failure
  | fuel + 1 =>
    let key ←
      if ← isAt [.value, .flowEntry, .flowSequenceEnd] then do
        skip
        pure blank
      else read fuel false false
    let v ←
      if ← accept .value then readUnless fuel [.flowEntry, .flowSequenceEnd] false false
      else pure blank
    return (key, v)

def readFlowEntries (fuel : Nat) (first : Bool) : Read (List (Node × Node)) := do
  match fuel with
  | 0 => failure
  | fuel + 1 =>
    if ← accept .flowMappingEnd then return []
    separate first
    if ← accept .key then
      let key ← readUnless fuel [.value, .flowEntry, .flowMappingEnd] false false
      let v ←
        if ← accept .value then readUnless fuel [.flowEntry, .flowMappingEnd] false false
        else pure blank
      return (key, v) :: (← readFlowEntries fuel false)
    else if ← accept .flowMappingEnd then return []
    else
      let key ← read fuel false false
      return (key, blank) :: (← readFlowEntries fuel false)

end

-- The handles that need no directive.
def defaultHandles : Dict String := [("!", "!"), ("!!", "tag:yaml.org,2002:")]

-- The directives in front of a document: one version at most, and each handle once.
def readDirectives (fuel : Nat) (hasVersion : Bool) (handles : Dict String) : Read Unit := do
  match fuel with
  | 0 => failure
  | fuel + 1 =>
    match ← peek? with
    | some (.version major minor) =>
      if hasVersion || major != 1 || !(minor == 1 || minor == 2) then failure
      skip
      readDirectives fuel true handles
    | some (.tagHandle handle stem) =>
      if handles.contains handle then failure
      skip
      readDirectives fuel hasVersion (handles ++ [(handle, stem)])
    | _ => modify fun r => { r with handles := handles ++ defaultHandles }

def startsDocument : Token → Bool
  | .documentStart | .documentEnd | .version .. | .tagHandle .. => true
  | _ => false

-- A document with its start; the start goes without saying if there are no directives.
def readDocument (fuel : Nat) : Read Node := do
  match ← peek? with
  | some .documentStart | some (.version ..) | some (.tagHandle ..) =>
    readDirectives fuel false []
    if !(← accept .documentStart) then failure
    if (← peek?).all startsDocument then return blank else read fuel true false
  | _ => read fuel true false

-- The only document of a text. Each call goes behind a token after three others at most.
def ofTokens? (tokens : List Token) : Option Node := do
  let (node, r) ← (readDocument (4 * tokens.length + 4)).run ⟨tokens, defaultHandles, []⟩
  if r.tokens.all (· == .documentEnd) then node else none

mutual

-- How often something begins, ends or stands by itself.
def weight : Node → Nat
  | .scalar _ => 1
  | .sequence _ items => 2 + weightOfItems items
  | .mapping _ entries => 2 + weightOfEntries entries
  | .anchored _ content => content.weight
  | .alias _ => 1
termination_by structural n => n

def weightOfItems : List Node → Nat
  | [] => 0
  | n :: rest => n.weight + weightOfItems rest
termination_by structural ns => ns

def weightOfEntries : List (Node × Node) → Nat
  | [] => 0
  | (key, v) :: rest => key.weight + v.weight + weightOfEntries rest
termination_by structural es => es

end

mutual

-- What has an anchor, in the order of the text.
def anchors : Node → List (Nat × Node)
  | .scalar _ => []
  | .sequence _ items => anchorsOfItems items
  | .mapping _ entries => anchorsOfEntries entries
  | .anchored id content => (id, content) :: content.anchors
  | .alias _ => []
termination_by structural n => n

def anchorsOfItems : List Node → List (Nat × Node)
  | [] => []
  | n :: rest => n.anchors ++ anchorsOfItems rest
termination_by structural ns => ns

def anchorsOfEntries : List (Node × Node) → List (Nat × Node)
  | [] => []
  | (key, v) :: rest => key.anchors ++ v.anchors ++ anchorsOfEntries rest
termination_by structural es => es

end

end Node

end Lakehouse.Yaml
