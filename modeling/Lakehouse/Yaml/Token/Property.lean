import Lakehouse.Yaml.Scalar
import Lakehouse.Yaml.Token
import Lakehouse.Yaml.Token.Fold

namespace Lakehouse.Yaml.Property

-- The name of an anchor or an alias, behind its mark.
def name? (c : Cursor) : Option (String × Cursor) :=
  let (name, c) := c.next.span isWord
  if name.isEmpty then none
  else if isSpaceOrEnd c.head? || fits ("?:,]\x7d%@`".toList.contains ·) c.head? then
    some (String.ofList name, c)
  else none

-- Characters of a tag. Commas and brackets only stand in one that is written between angle brackets.
def isTagChar (verbatim : Bool) (c : Char) : Bool :=
  isWord c || ";/?:@&=+$.%!~*'()".toList.contains c || (verbatim && ",[]".toList.contains c)

-- How many octets an encoded character has, by its first one, and the bits that this one gives.
def firstOctet? (n : Nat) : Option (Nat × Nat) :=
  if n < 0x80 then some (1, n)
  else if 0xC0 ≤ n && n < 0xE0 then some (2, n - 0xC0)
  else if 0xE0 ≤ n && n < 0xF0 then some (3, n - 0xE0)
  else if 0xF0 ≤ n && n < 0xF8 then some (4, n - 0xF0)
  else none

def octet? : List Char → Option (Nat × List Char)
  | '%' :: a :: b :: rest => do some (16 * (← digit? 16 a) + (← digit? 16 b), rest)
  | _ => none

-- Further octets of an encoded character.
def moreOctets? : Nat → Nat → List Char → Option (Nat × List Char)
  | 0, value, cs => some (value, cs)
  | n + 1, value, cs => do
    let (octet, rest) ← octet? cs
    if 0x80 ≤ octet && octet < 0xC0 then moreOctets? n (64 * value + (octet - 0x80)) rest else none

-- A character in percent encoding, octet by octet.
def escape? (cs : List Char) : Option (Char × List Char) := do
  let (octet, rest) ← octet? cs
  let (width, bits) ← firstOctet? octet
  let (value, rest) ← moreOctets? (width - 1) bits rest
  some (Char.ofNat value, rest)

-- The text that tag characters stand for.
def decode? (fuel : Nat) (cs : List Char) : Option (List Char) :=
  match fuel, cs with
  | _, [] => some []
  | 0, _ => none
  | fuel + 1, '%' :: rest => do
    let (x, rest) ← escape? ('%' :: rest)
    some (x :: (← decode? fuel rest))
  | fuel + 1, x :: rest => (decode? fuel rest).map (x :: ·)

-- The tag characters at a place, with what they stand for.
def uri? (verbatim : Bool) (c : Cursor) : Option (String × Cursor) := do
  let (taken, c) := c.span (isTagChar verbatim)
  some (String.ofList (← decode? taken.length taken), c)

-- A handle at a place: an exclamation mark, word characters, and another mark if there is one.
def handle (c : Cursor) : List Char × Cursor :=
  let (name, c) := c.next.span isWord
  if c.head? == some '!' then ('!' :: name ++ ['!'], c.next) else ('!' :: name, c)

-- A handle has a mark at both ends.
def isHandle (cs : List Char) : Bool := cs.length > 1 && cs.getLast? == some '!'

-- A tag as handle and suffix. A single mark is a tag of its own.
def tagParts? (c : Cursor) : Option (String × String × Cursor) := do
  if c.rest[1]? == some '<' then
    let (suffix, c) ← uri? true (c.advance 2)
    if suffix.isEmpty || c.head? != some '>' then none
    some ("", suffix, c.next)
  else
    let (head, c) := handle c
    if isHandle head then
      let (suffix, c) ← uri? false c
      if suffix.isEmpty then none
      some (String.ofList head, suffix, c)
    else
      let (tail, c) ← uri? false c
      let suffix := String.ofList head.tail ++ tail
      some (if suffix.isEmpty then ("", "!", c) else ("!", suffix, c))

def tag? (inFlow : Bool) (c : Cursor) : Option (Token × Cursor) := do
  let (handle, suffix, c) ← tagParts? c
  if isSpaceOrEnd c.head? || (inFlow && c.head? == some ',') then some (.tag handle suffix, c)
  else none

-- A number of a version, of nine digits at most.
def number? (c : Cursor) : Option (Nat × Cursor) := do
  let (digits, c) := c.span Char.isDigit
  if digits.length > 9 then none
  some (← natural? 10 digits, c)

def version? (c : Cursor) : Option (Token × Cursor) := do
  let (major, c) ← number? (c.skip isBlank)
  if c.head? != some '.' then none
  let (minor, c) ← number? c.next
  some (.version major minor, c)

def tagHandle? (c : Cursor) : Option (Token × Cursor) := do
  let c := c.skip isBlank
  if c.head? != some '!' then none
  let (head, c) := handle c
  if !(isHandle head || head == ['!']) || !fits isBlank c.head? then none
  let (stem, c) ← uri? true (c.skip isBlank)
  if stem.isEmpty || !isSpaceOrEnd c.head? then none
  some (.tagHandle (String.ofList head) stem, c)

-- A directive, to the end of its line.
def directive? (c : Cursor) : Option (Token × Cursor) := do
  let (name, c) := c.next.span isWord
  if !isSpaceOrEnd c.head? then none
  let (token, c) ←
    if name == "YAML".toList then version? c
    else if name == "TAG".toList then tagHandle? c
    else none
  some (token, ← c.endLine?)

end Lakehouse.Yaml.Property
