import Lakehouse.Yaml.Character

namespace Lakehouse.Yaml

-- Line ends of all systems become a line feed. The separators of lines and paragraphs stay.
def normalizeBreaks : List Char → List Char
  | '\r' :: '\n' :: rest => '\n' :: normalizeBreaks rest
  | c :: rest => (if c == '\r' || c == '\u0085' then '\n' else c) :: normalizeBreaks rest
  | [] => []

structure Cursor where
  rest : List Char
  line : Nat
  column : Nat
  deriving Repr, Inhabited

namespace Cursor

def start (cs : List Char) : Cursor := ⟨cs, 0, 0⟩

def head? (c : Cursor) : Option Char := c.rest.head?

-- Behind the next character.
def next (c : Cursor) : Cursor :=
  match c.rest with
  | [] => c
  | x :: rest => if isBreak x then ⟨rest, c.line + 1, 0⟩ else ⟨rest, c.line, c.column + 1⟩

def advance (c : Cursor) : Nat → Cursor
  | 0 => c
  | n + 1 => c.next.advance n

-- The longest run of characters that fit, and the place behind it.
def span (c : Cursor) (p : Char → Bool) : List Char × Cursor :=
  let taken := c.rest.takeWhile p
  (taken, c.advance taken.length)

def skip (c : Cursor) (p : Char → Bool) : Cursor := (c.span p).2

def skipComment (c : Cursor) : Cursor :=
  if c.head? == some '#' then c.skip (!isBreak ·) else c

-- Whether a document begins or ends here: three hyphens or points stand alone at the start of a line.
def atDocumentMark (c : Cursor) : Bool :=
  c.column == 0 &&
    match c.rest with
    | x :: y :: z :: rest => (x == '-' || x == '.') && x == y && y == z && isSpaceOrEnd rest.head?
    | _ => false

-- Blanks and a comment up to the end of the line, and its break.
def endLine? (c : Cursor) : Option Cursor :=
  let c := (c.skip isBlank).skipComment
  if isBreakOrEnd c.head? then some c.next else none

end Cursor

end Lakehouse.Yaml
