import Lakehouse.Yaml.Token.Block
import Lakehouse.Yaml.Token.Plain
import Lakehouse.Yaml.Token.Property
import Lakehouse.Yaml.Token.Quoted
/-!
The tokens of a text. Whether a node is a key shows only at the colon behind it: the place where a key
may have begun is marked, and its token is put there afterwards.
-/
namespace Lakehouse.Yaml

-- Where a key may have begun.
structure KeyMark where
  -- The number of tokens before it.
  position : Nat
  line : Nat
  column : Nat
  -- Whether nothing but a key can stand here.
  required : Bool
  deriving DecidableEq, Repr

structure Scan where
  cursor : Cursor
  -- The latest token comes first.
  tokens : List Token
  count : Nat
  -- Columns of the open blocks, the innermost first.
  indents : List Nat
  -- The mark inside the innermost brackets, and those around them; the last one is that of the block.
  key : Option KeyMark
  outerKeys : List (Option KeyMark)
  keyAllowed : Bool
  deriving Repr

namespace Scan

-- Where a key and its value are at most this far apart, on one line, no question mark is needed.
def maxKeyWidth : Nat := 1024

def start (cs : List Char) : Scan := ⟨.start cs, [], 0, [], none, [], true⟩

def inFlow (s : Scan) : Bool := !s.outerKeys.isEmpty

def column (s : Scan) : Nat := s.cursor.column

def add (s : Scan) (t : Token) : Scan := { s with tokens := t :: s.tokens, count := s.count + 1 }

-- Puts a token where so many tokens stand before it.
def insert (s : Scan) (position : Nat) (t : Token) : Scan :=
  let later := s.count - position
  { s with tokens := s.tokens.take later ++ t :: s.tokens.drop later, count := s.count + 1 }

-- Adds a token of so many characters.
def take (s : Scan) (width : Nat) (t : Token) : Scan :=
  { s.add t with cursor := s.cursor.advance width }

-- Goes on behind a token, or fails with its reader.
def read? (s : Scan) (result : Option (Token × Cursor)) : Option Scan := do
  let (t, cursor) ← result
  some { s.add t with cursor }

-- Closes the blocks in which the given columns do not lie. Brackets keep blocks open.
def closeBlocks (s : Scan) (keeps : Nat → Bool) : Scan :=
  if s.inFlow then s
  else
    let closed := (s.indents.takeWhile (!keeps ·)).length
    { s with
      tokens := List.replicate closed .blockEnd ++ s.tokens
      count := s.count + closed
      indents := s.indents.drop closed }

-- Opens a block if the column lies behind that of the innermost one.
def openBlock (s : Scan) (column position : Nat) (t : Token) : Scan :=
  if s.inFlow || s.indents.head?.any (column ≤ ·) then s
  else { s.insert position t with indents := column :: s.indents }

def openBlockHere (s : Scan) (t : Token) : Scan := s.openBlock s.column s.count t

-- Forgets a mark, which is refused if there had to be a key.
def forget? : Option KeyMark → Option (Option KeyMark)
  | some k => if k.required then none else some none
  | none => some none

def forgetKey? (s : Scan) : Option Scan := do some { s with key := ← forget? s.key }

-- Marks the place as one where a key may begin.
def markKey? (s : Scan) : Option Scan := do
  if !s.keyAllowed then return s
  let s ← s.forgetKey?
  let required := !s.inFlow && s.indents.head? == some s.column
  return { s with key := some ⟨s.count, s.cursor.line, s.column, required⟩ }

-- Whether a colon can still belong to a key.
def isNear (c : Cursor) (k : KeyMark) : Bool :=
  k.line == c.line && c.column ≤ k.column + maxKeyWidth

-- Forgets the mark when it is too far away. Marks outside the innermost brackets have to wait.
def expireKey? (s : Scan) : Option Scan :=
  if s.key.any (!isNear s.cursor ·) then s.forgetKey? else some s

def openFlow (s : Scan) : Scan := { s with key := none, outerKeys := s.key :: s.outerKeys }

def closeFlow (s : Scan) : Scan :=
  match s.outerKeys with
  | key :: outerKeys => { s with key, outerKeys }
  | [] => s

def allowKey (s : Scan) (b : Bool) : Scan := { s with keyAllowed := b }

-- Moves to the next token. Outside brackets every new line may begin with a key; tabs are blanks only
-- where no key can begin.
def toToken (inFlow comment keyAllowed : Bool) (line column : Nat) : List Char → Cursor × Bool
  | [] => (⟨[], line, column⟩, keyAllowed)
  | c :: rest =>
    if isBreak c then toToken inFlow false (keyAllowed || !inFlow) (line + 1) 0 rest
    else if comment || c == ' ' || (c == '\t' && (inFlow || !keyAllowed)) then
      toToken inFlow comment keyAllowed line (column + 1) rest
    else if c == '#' then toToken inFlow true keyAllowed line (column + 1) rest
    else (⟨c :: rest, line, column⟩, keyAllowed)

def skipBlanks (s : Scan) : Scan :=
  let c := s.cursor
  let (cursor, keyAllowed) := toToken s.inFlow false s.keyAllowed c.line c.column c.rest
  { s with cursor, keyAllowed }

-- The marks between documents, and directives, end all blocks.
def endBlocks? (s : Scan) : Option Scan := do
  return (← (s.closeBlocks fun _ => false).forgetKey?).allowKey false

def documentMark? (s : Scan) (t : Token) : Option Scan := do return (← s.endBlocks?).take 3 t

def directive? (s : Scan) : Option Scan := do
  let s ← s.endBlocks?
  s.read? (Property.directive? s.cursor)

def flowStart? (s : Scan) (t : Token) : Option Scan := do
  return ((← s.markKey?).openFlow.allowKey true).take 1 t

def flowEnd? (s : Scan) (t : Token) : Option Scan := do
  return ((← s.forgetKey?).closeFlow.allowKey false).take 1 t

def flowEntry? (s : Scan) : Option Scan := do
  return ((← s.forgetKey?).allowKey true).take 1 .flowEntry

-- An entry of a block begins where a key could.
def blockEntry? (s : Scan) : Option Scan := do
  if !s.inFlow && !s.keyAllowed then none
  return ((← (s.openBlockHere .blockSequence).forgetKey?).allowKey true).take 1 .blockEntry

def explicitKey? (s : Scan) : Option Scan := do
  if !s.inFlow && !s.keyAllowed then none
  return ((← (s.openBlockHere .blockMapping).forgetKey?).allowKey !s.inFlow).take 1 .key

-- A colon makes a key of what was marked; else it belongs to an explicit key.
def value? (s : Scan) : Option Scan :=
  match s.key with
  | some k =>
    let s := (s.insert k.position .key).openBlock k.column k.position .blockMapping
    some (({ s with key := none }.allowKey false).take 1 .value)
  | none =>
    if !s.inFlow && !s.keyAllowed then none
    else some (((s.openBlockHere .blockMapping).allowKey !s.inFlow).take 1 .value)

def named? (s : Scan) (t : String → Token) : Option Scan := do
  let s := (← s.markKey?).allowKey false
  s.read? ((Property.name? s.cursor).map fun (name, c) => (t name, c))

def tag? (s : Scan) : Option Scan := do
  let s := (← s.markKey?).allowKey false
  s.read? (Property.tag? s.inFlow s.cursor)

def blockScalar? (s : Scan) : Option Scan := do
  let s := (← s.forgetKey?).allowKey true
  s.read? ((Block.read? s.indents.head? s.cursor).map fun (text, style, c) => (.scalar text style, c))

def quotedScalar? (s : Scan) (quote : Char) : Option Scan := do
  let s := (← s.markKey?).allowKey false
  s.read? ((Quoted.read? quote s.cursor).map fun (text, c) => (.scalar text .quoted, c))

-- A key may follow if the scalar ended on a line of its own.
def plainScalar? (s : Scan) : Option Scan := do
  let s ← s.markKey?
  let least := s.indents.head?.elim 0 (· + 1)
  let (text, afterBreak, cursor) ← Plain.read? s.inFlow least s.cursor
  return { s.add (.scalar text .plain) with cursor, keyAllowed := afterBreak }

-- Reads the token that begins with `c`.
def next? (s : Scan) (c : Char) (rest : List Char) : Option Scan :=
  let alone := isSpaceOrEnd rest.head?
  if s.column == 0 && c == '%' then s.directive?
  else if s.cursor.atDocumentMark then s.documentMark? (if c == '-' then .documentStart else .documentEnd)
  else if c == '[' then s.flowStart? .flowSequence
  else if c == '\x7b' then s.flowStart? .flowMapping
  else if c == ']' then s.flowEnd? .flowSequenceEnd
  else if c == '\x7d' then s.flowEnd? .flowMappingEnd
  else if c == ',' then s.flowEntry?
  else if c == '-' && alone then s.blockEntry?
  else if c == '?' && (s.inFlow || alone) then s.explicitKey?
  else if c == ':' && (s.inFlow || alone) then s.value?
  else if c == '*' then s.named? .alias
  else if c == '&' then s.named? .anchor
  else if c == '!' then s.tag?
  else if (c == '|' || c == '>') && !s.inFlow then s.blockScalar?
  else if c == '\'' || c == '"' then s.quotedScalar? c
  else if Plain.canStart s.inFlow (c :: rest) then s.plainScalar?
  else none

-- Reads token after token; each of them takes a character at least.
def run? (fuel : Nat) (s : Scan) : Option Scan := do
  match fuel with
  | 0 => none
  | fuel + 1 =>
    let s ← s.skipBlanks.expireKey?
    let s := s.closeBlocks (· ≤ s.column)
    match s.cursor.rest with
    | [] => s.endBlocks?
    | c :: rest => run? fuel (← s.next? c rest)

end Scan

-- A mark of byte order may stand in front of the first line.
def Cursor.skipByteOrderMark (c : Cursor) : Cursor :=
  if c.head? == some '\ufeff' then c.next else c

def Token.scan? (cs : List Char) : Option (List Token) := do
  let s := Scan.start (normalizeBreaks cs)
  let s ← { s with cursor := s.cursor.skipByteOrderMark }.run? (cs.length + 1)
  return s.tokens.reverse

end Lakehouse.Yaml
