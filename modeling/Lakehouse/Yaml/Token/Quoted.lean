import Lakehouse.Yaml.Scalar
import Lakehouse.Yaml.Token.Fold

namespace Lakehouse.Yaml.Quoted

-- The character of an escape without a code.
def escape? : Char → Option Char
  | '0' => some '\x00'
  | 'a' => some '\x07'
  | 'b' => some '\x08'
  | 't' => some '\t'
  | '\t' => some '\t'
  | 'n' => some '\n'
  | 'v' => some '\x0b'
  | 'f' => some '\x0c'
  | 'r' => some '\r'
  | 'e' => some '\x1b'
  | ' ' => some ' '
  | '"' => some '"'
  | '/' => some '/'
  | '\\' => some '\\'
  | 'N' => some '\u0085'
  | '_' => some '\u00a0'
  | 'L' => some '\u2028'
  | 'P' => some '\u2029'
  | _ => none

-- How many hexadecimal digits follow.
def codeLength? : Char → Option Nat
  | 'x' => some 2
  | 'u' => some 4
  | 'U' => some 8
  | _ => none

def code? (digits : List Char) : Option Char := do
  let n ← digits.foldlM (fun n c => (digit? 16 c).map (16 * n + ·)) 0
  if n < 0xD800 || (0xE000 ≤ n && n < 0x110000) then some (Char.ofNat n) else none

-- A character inside quotes, and how many characters stand for it.
inductive Piece where
  | char (c : Char) (width : Nat)
  -- A break behind a backslash joins two lines.
  | joint
  | closing
  | space

def piece? (quote : Char) : List Char → Option Piece
  | [] => none
  | c :: rest =>
    if isBlank c || isBreak c then some .space
    else if c == quote then
      if quote == '\'' && rest.head? == some '\'' then some (.char '\'' 2) else some .closing
    else if quote == '"' && c == '\\' then
      match rest with
      | [] => none
      | e :: rest =>
        if isBreak e then some .joint
        else match codeLength? e with
          | some n =>
            if rest.length < n then none
            else (code? (rest.take n)).map (.char · (n + 2))
          | none => (escape? e).map (.char · 2)
    else some (.char c 1)

-- Reads on behind the opening quote; `out` is what has been read.
def readFrom? (fuel : Nat) (quote : Char) (out : String) (c : Cursor) : Option (String × Cursor) :=
  match fuel with
  | 0 => none
  | fuel + 1 =>
    if c.atDocumentMark then none
    else match piece? quote c.rest with
      | none => none
      | some .closing => some (out, c.next)
      | some (.char x width) => readFrom? fuel quote (out.push x) (c.advance width)
      | some .joint =>
        let (run, c) := (c.advance 2).gap
        readFrom? fuel quote (out ++ String.ofList (Gap.ofRun run).breaks) c
      | some .space =>
        let (run, c) := c.gap
        readFrom? fuel quote (out ++ String.ofList (Gap.ofRun run).text) c

-- A scalar that begins with its quote.
def read? (quote : Char) (c : Cursor) : Option (String × Cursor) :=
  readFrom? (c.rest.length + 1) quote "" c.next

end Lakehouse.Yaml.Quoted
