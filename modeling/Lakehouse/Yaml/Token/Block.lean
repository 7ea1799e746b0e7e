import Lakehouse.Yaml.Scalar
import Lakehouse.Yaml.Token.Fold

namespace Lakehouse.Yaml.Block

-- What is done with the breaks at the end.
inductive Chomping where
  | strip
  | clip
  | keep
  deriving DecidableEq, Repr

structure Header where
  folded : Bool
  chomping : Chomping
  -- The column of the lines, if it is given.
  column : Option Nat
  deriving Repr

def chomping? : Option Char → Option Chomping
  | some '+' => some .keep
  | some '-' => some .strip
  | _ => none

def takeChomping (c : Cursor) : Chomping × Cursor :=
  match chomping? c.head? with
  | some chomping => (chomping, c.next)
  | none => (.clip, c)

-- A digit that is not zero tells how far the lines are indented.
def takeIncrement? (c : Cursor) : Option (Option Nat × Cursor) :=
  match c.head?.bind (digit? 10) with
  | none => some (none, c)
  | some 0 => none
  | some n => some (some n, c.next)

-- The indicator with its two marks, in either order, to the end of the line.
def header? (parent : Nat) (c : Cursor) : Option (Header × Cursor) := do
  let folded := c.head? == some '>'
  let c := c.next
  let (chomping, increment, c) ←
    if (chomping? c.head?).isSome then do
      let (chomping, c) := takeChomping c
      let (increment, c) ← takeIncrement? c
      some (chomping, increment, c)
    else do
      let (increment, c) ← takeIncrement? c
      let (chomping, c) := takeChomping c
      some (chomping, increment, c)
  some (⟨folded, chomping, increment.map (parent + ·)⟩, ← c.endLine?)

-- Empty lines, and the indentation of the next line; `limit` is the column up to which there may be
-- spaces. The result has the breaks, and the farthest column that was met.
def emptyLines? (fuel : Nat) (limit : Option Nat) (breaks : List Char) (farthest : Nat) (c : Cursor) :
    Option (List Char × Nat × Cursor) :=
  match fuel with
  | 0 => none
  | fuel + 1 =>
    let spaces := c.rest.takeWhile (· == ' ')
    let width := match limit with
      | some n => min spaces.length (n - c.column)
      | none => spaces.length
    let c := c.advance width
    let farthest := max farthest c.column
    let inIndentation := match limit with
      | some n => c.column < n
      | none => true
    if inIndentation && c.head? == some '\t' then none
    else match c.head? with
      | some x =>
        if isBreak x then emptyLines? fuel limit (x :: breaks) farthest c.next
        else some (breaks.reverse, farthest, c)
      | none => some (breaks.reverse, farthest, c)

-- The text between two lines: `before` and `after` say which of them begins with a blank, `lineBreak`
-- is the break of the first, and `empty` has those of the empty lines after it.
def between (folded before after : Bool) (lineBreak empty : List Char) : List Char :=
  if folded && lineBreak.head? == some '\n' && !before && !after then
    if empty.isEmpty then [' '] else empty
  else lineBreak ++ empty

structure Lines where
  text : String
  -- The break of the last line, and those of the empty lines behind it.
  lineBreak : List Char
  empty : List Char

-- Reads lines at a column. `before` says whether the last line began with a blank.
def lines? (fuel : Nat) (folded : Bool) (column : Nat) (before : Bool) (l : Lines) (c : Cursor) :
    Option (Lines × Cursor) :=
  match fuel with
  | 0 => none
  | fuel + 1 =>
    if c.column != column || c.rest.isEmpty then some (l, c)
    else
      let blank := fits isBlank c.head?
      let (line, c) := c.span (!isBreak ·)
      let text := l.text ++ String.ofList (between folded before blank l.lineBreak l.empty ++ line)
      let lineBreak := c.head?.toList
      match emptyLines? (c.rest.length + 1) (some column) [] 0 c.next with
      | some (empty, _, c) => lines? fuel folded column blank ⟨text, lineBreak, empty⟩ c
      | none => none

def chomp (chomping : Chomping) (l : Lines) : String :=
  match chomping with
  | .strip => l.text
  | .clip => l.text ++ String.ofList l.lineBreak
  | .keep => l.text ++ String.ofList (l.lineBreak ++ l.empty)

-- A block scalar. Its lines stand at the given column, else at that of the farthest indentation of
-- the lines up to the first that is not empty, and behind the parent's column in any case.
def read? (indent : Option Nat) (c : Cursor) : Option (String × Style × Cursor) := do
  let (header, c) ← header? (indent.getD 0) c
  let (empty, farthest, c) ← emptyLines? (c.rest.length + 1) header.column [] 0 c
  let column := header.column.getD (max (max farthest (indent.elim 0 (· + 1))) 1)
  let (l, c) ← lines? (c.rest.length + 1) header.folded column false ⟨"", [], empty⟩ c
  some (chomp header.chomping l, if header.folded then .folded else .literal, c)

end Lakehouse.Yaml.Block
