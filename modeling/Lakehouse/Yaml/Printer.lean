import Lakehouse.Yaml.Character
import Lakehouse.Yaml.Scalar
/-!
YAML text of a value, in block style. A text is written plainly where it would be read back as the
same text, else between quotes, and over several lines as a literal block.
-/
namespace Lakehouse.Yaml

-- Positional from `1e-5` up to below `1e16`, and no plus sign on exponents.
def decimalLayout : Decimal.Layout where
  leastPositional := -5
  greatestPositional := 15
  plusSign := false

def numberText : Number → String
  | .int n => toString n
  | .decimal d => d.text decimalLayout

-- Whether a plain text would be read as something else than a text.
def looksTyped (s : String) : Bool :=
  match Scalar.atomOfPlain? s with
  | some (.text _) => hasLeadingZero s.toList
  | _ => true

-- Some two neighbours of which the first fits `p` and the second `q`.
def hasPair (p q : Char → Bool) : List Char → Bool
  | a :: b :: rest => (p a && q b) || hasPair p q (b :: rest)
  | _ => false

def isSpace (c : Char) : Bool := c == ' '

-- Whether a colon or a comment mark after the first character would end a plain text.
def breaksOff : List Char → Bool
  | a :: b :: rest =>
    (b == ':' && isSpaceOrEnd rest.head?) || (b == '#' && isSpaceOrEnd (some a)) ||
      breaksOff (b :: rest)
  | _ => false

-- Whether a plain text would be taken for something of the syntax.
def hasIndicators (cs : List Char) : Bool :=
  ['-', '-', '-'].isPrefixOf cs || ['.', '.', '.'].isPrefixOf cs || breaksOff cs ||
    match cs with
    | c :: rest =>
      isIndicator c || ((c == '?' || c == ':' || c == '-') && isSpaceOrEnd rest.head?)
    | [] => false

-- Spaces next to breaks, and characters that need an escape, can only stand in double quotes.
def isAwkward (cs : List Char) : Bool :=
  hasPair isSpace isBreak cs || cs.any (!isPrintable ·)

def allowsPlain (cs : List Char) : Bool :=
  !(fits isSpace cs.head? || fits isSpace cs.getLast? || cs.any isBreak || hasIndicators cs ||
    isAwkward cs)

def allowsSingleQuotes (cs : List Char) : Bool := !(hasPair isBreak isSpace cs || isAwkward cs)

def allowsLiteral (cs : List Char) : Bool := !(fits isSpace cs.getLast? || isAwkward cs)

def hexText (width n : Nat) : String :=
  let digits := (Nat.toDigits 16 n).map Char.toUpper
  String.ofList (List.replicate (width - digits.length) '0' ++ digits)

def escapeCode (c : Char) : String :=
  match c with
  | '\x00' => "0"
  | '\x07' => "a"
  | '\x08' => "b"
  | '\t' => "t"
  | '\n' => "n"
  | '\x0b' => "v"
  | '\x0c' => "f"
  | '\r' => "r"
  | '\x1b' => "e"
  | '"' => "\""
  | '\\' => "\\"
  | '\u0085' => "N"
  | '\u00a0' => "_"
  | '\u2028' => "L"
  | '\u2029' => "P"
  | c =>
    if c.toNat ≤ 0xFF then "x" ++ hexText 2 c.toNat
    else if c.toNat ≤ 0xFFFF then "u" ++ hexText 4 c.toNat
    else "U" ++ hexText 8 c.toNat

def doubleQuotedChar (c : Char) : String :=
  if !isPrintable c || isBreak c || c == '"' || c == '\\' then "\\" ++ escapeCode c
  else String.singleton c

def doubleQuoted (cs : List Char) : String := "\"" ++ String.join (cs.map doubleQuotedChar) ++ "\""

def padding (n : Nat) : String := String.ofList (List.replicate n ' ')

-- The lines of a text after breaks are indented; `fresh` says whether one has just been written.
def indented (indent : Nat) (write : Char → String) : Bool → List Char → String
  | fresh, [] => if fresh then padding indent else ""
  | fresh, c :: rest =>
    if isBreak c then String.singleton c ++ indented indent write true rest
    else (if fresh then padding indent else "") ++ write c ++ indented indent write false rest

def singleQuoted (indent : Nat) (cs : List Char) : String :=
  let write := fun c => if c == '\'' then "''" else String.singleton c
  "'" ++ indented indent write false cs ++ "'"

-- The lines of a literal block. Empty lines are not indented.
def literalLines (indent : Nat) : Bool → List Char → String
  | _, [] => ""
  | fresh, c :: rest =>
    if isBreak c then String.singleton c ++ literalLines indent true rest
    else (if fresh then padding indent else "") ++ String.singleton c ++ literalLines indent false rest

-- How the end of a block is to be read: without its break, with one, or with all of them.
def chomping (cs : List Char) : String :=
  match cs.reverse with
  | [] => "-"
  | c :: rest =>
    if !isBreak c then "-"
    else if rest.isEmpty || fits isBreak rest.head? then "+"
    else ""

def literal (indent : Nat) (cs : List Char) : String :=
  let hint := if fits isSpace cs.head? || fits isBreak cs.head? then "2" else ""
  "|" ++ hint ++ chomping cs ++ "\n" ++ literalLines indent true cs

def quoted (indent : Nat) (cs : List Char) : String :=
  if allowsSingleQuotes cs then singleQuoted indent cs else doubleQuoted cs

-- A text as a scalar. A key on one line cannot be a block, but then it has no break either.
def scalarText (indent : Nat) (s : String) : String :=
  let cs := s.toList
  if cs.contains '\n' then if allowsLiteral cs then literal indent cs else doubleQuoted cs
  else if looksTyped s || !allowsPlain cs then quoted indent cs
  else s

-- Ends a line, unless the text has just done so.
def endLine (s : String) : String := if fits isBreak s.toList.getLast? then s else s ++ "\n"

-- Longer keys, and those over several lines, are marked by a question mark.
def isSimpleKey (key : String) : Bool := !key.toList.any isBreak && key.utf8ByteSize ≤ 128

mutual

-- A node that begins at column `indent`, to the end of its last line.
def node (indent : Nat) : Value → String
  | .null => "null\n"
  | .bool b => if b then "true\n" else "false\n"
  | .number n => numberText n ++ "\n"
  | .string s => endLine (scalarText indent s)
  | .array [] => "[]\n"
  | .array vs => items indent false vs
  | .object [] => "\x7b\x7d\n"
  | .object fs => entries indent false fs
termination_by structural v => v

-- A node after a key at column `indent`: collections begin on the next line.
def nodeAfterKey (indent : Nat) : Value → String
  | .null => " null\n"
  | .bool b => if b then " true\n" else " false\n"
  | .number n => " " ++ numberText n ++ "\n"
  | .string s => endLine (" " ++ scalarText (indent + 2) s)
  | .array [] => " []\n"
  | .array vs => "\n" ++ items indent true vs
  | .object [] => " \x7b\x7d\n"
  | .object fs => "\n" ++ entries (indent + 2) true fs
termination_by structural v => v

-- Items at column `indent`; the first one is padded only if it begins a line.
def items (indent : Nat) (fresh : Bool) : List Value → String
  | [] => ""
  | v :: rest =>
    (if fresh then padding indent else "") ++ "- " ++ node (indent + 2) v ++ items indent true rest
termination_by structural vs => vs

def entries (indent : Nat) (fresh : Bool) : List (String × Value) → String
  | [] => ""
  | (key, v) :: rest =>
    (if fresh then padding indent else "") ++
      (if isSimpleKey key then scalarText (indent + 2) key ++ ":" ++ nodeAfterKey indent v
       else "? " ++ endLine (scalarText (indent + 2) key) ++ padding indent ++ ": " ++
        node (indent + 2) v) ++
      entries indent true rest
termination_by structural fs => fs

end

-- The text of a whole document.
def print : Value → String
  | .string s => endLine (scalarText 2 s)
  | v => node 0 v

end Lakehouse.Yaml
