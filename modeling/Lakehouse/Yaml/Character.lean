namespace Lakehouse.Yaml

def isBreak (c : Char) : Bool :=
  c == '\n' || c == '\r' || c == '\u0085' || c == '\u2028' || c == '\u2029'

def isBlank (c : Char) : Bool := c == ' ' || c == '\t'

def fits (p : Char → Bool) (c : Option Char) : Bool := (c.map p).getD false

-- Blanks, breaks and the end of the text.
def isSpaceOrEnd : Option Char → Bool
  | some c => isBlank c || isBreak c
  | none => true

def isBreakOrEnd : Option Char → Bool
  | some c => isBreak c
  | none => true

-- What a text may hold at all.
def isAllowed (c : Char) : Bool :=
  let n := c.toNat
  n == 0x09 || n == 0x0A || n == 0x0D || (0x20 ≤ n && n ≤ 0x7E) || n == 0x85 ||
    (0xA0 ≤ n && n ≤ 0xD7FF) || (0xE000 ≤ n && n ≤ 0xFFFD) || 0x10000 ≤ n

-- What can be written without an escape.
def isPrintable (c : Char) : Bool :=
  let n := c.toNat
  n == 0x0A || (0x20 ≤ n && n ≤ 0x7E) || (0xA0 ≤ n && n ≤ 0xD7FF) ||
    (0xE000 ≤ n && n ≤ 0xFFFD && n != 0xFEFF) || 0x10000 ≤ n

-- Characters that mean something at the start of a node.
def isIndicator (c : Char) : Bool := "#,[]\x7b\x7d&*!|>'\"%@`".toList.contains c

-- Characters that end a plain scalar inside brackets.
def isFlowIndicator (c : Char) : Bool := ",[]\x7b\x7d".toList.contains c

-- Letters, digits, the underscore and the hyphen of ASCII, as in names of anchors.
def isWord (c : Char) : Bool := c.isAlphanum || c == '_' || c == '-'

end Lakehouse.Yaml
