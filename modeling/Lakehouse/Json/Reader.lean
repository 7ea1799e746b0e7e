import Lakehouse.Value
/-!
Reading a value from JSON text. Of members under one name the last value counts, at the first one's
place; a whole number outside `-2^63 .. 2^64-1` is read as a double, like any other number.
-/
namespace Lakehouse.Json

def isBlank (c : Char) : Bool := c == ' ' || c == '\n' || c == '\t' || c == '\r'

def skipBlanks (cs : List Char) : List Char := cs.dropWhile isBlank

def digit? (c : Char) : Option Nat :=
  if '0' ≤ c && c ≤ '9' then some (c.toNat - '0'.toNat) else none

def hexDigit? (c : Char) : Option Nat :=
  if '0' ≤ c && c ≤ '9' then some (c.toNat - '0'.toNat)
  else if 'a' ≤ c && c ≤ 'f' then some (c.toNat - 'a'.toNat + 10)
  else if 'A' ≤ c && c ≤ 'F' then some (c.toNat - 'A'.toNat + 10)
  else none

-- The digits that a text starts with, and what follows them.
def digits (cs : List Char) : List Nat × List Char :=
  ((cs.takeWhile (digit? · |>.isSome)).filterMap digit?, cs.dropWhile (digit? · |>.isSome))

def natOfDigits (ds : List Nat) : Nat := ds.foldl (fun n d => 10 * n + d) 0

-- Appends digits to a coefficient as long as it stays within the whole numbers that are kept
-- exactly. What is left are the digits that have no place.
def append (coefficient : Nat) : List Nat → Nat × List Nat
  | [] => (coefficient, [])
  | d :: rest =>
    if Number.greatestInteger < 10 * coefficient + d then (coefficient, d :: rest)
    else append (10 * coefficient + d) rest

-- The coefficient of a number, and its power of ten: digits without a place count before the
-- point, and are dropped behind it.
def coefficient (whole fraction : List Nat) : Nat × Int :=
  let (n, large) := append 0 whole
  let (n, small) := append n fraction
  (n, (large.length : Int) - (fraction.length - small.length : Nat))

-- A number that is not a whole one, or too large for that.
def double? (negative : Bool) (whole fraction : List Nat) (exponent : Int) : Option Number :=
  let (n, shift) := coefficient whole fraction
  (Decimal.stepwise? negative n (shift + exponent)).map .decimal

-- A number without fraction and exponent. A negative zero keeps its sign.
def wholeNumber? (negative : Bool) (whole : List Nat) : Option Number :=
  let value := natOfDigits whole
  let n : Int := if negative then -value else value
  if (negative && value == 0) || n < Number.leastInteger || Number.greatestInteger < n then
    double? negative whole [] 0
  else some (.int n)

-- The exponent part, if there is one.
def exponentPart? : List Char → Option (Option Int × List Char)
  | 'e' :: rest | 'E' :: rest =>
    let (negative, rest) :=
      match rest with
      | '-' :: rest => (true, rest)
      | '+' :: rest => (false, rest)
      | _ => (false, rest)
    let (ds, rest) := digits rest
    let exponent : Int := natOfDigits ds
    if ds.isEmpty then none else some (some (if negative then -exponent else exponent), rest)
  | rest => some (none, rest)

-- The digits behind a point, if there is one.
def fractionPart? : List Char → Option (List Nat × List Char)
  | '.' :: rest =>
    let (ds, rest) := digits rest
    if ds.isEmpty then none else some (ds, rest)
  | rest => some ([], rest)

def number? (cs : List Char) : Option (Number × List Char) := do
  let (negative, cs) := match cs with
    | '-' :: rest => (true, rest)
    | _ => (false, cs)
  let (whole, rest) := digits cs
  if whole.isEmpty || (whole.length > 1 && whole.head? == some 0) then none
  let (fraction, rest) ← fractionPart? rest
  let (exponent, rest) ← exponentPart? rest
  let number ←
    if fraction.isEmpty && exponent.isNone then wholeNumber? negative whole
    else double? negative whole fraction (exponent.getD 0)
  some (number, rest)

-- Four hexadecimal digits.
def unit? : List Char → Option (Nat × List Char)
  | a :: b :: c :: d :: rest => do
    let a ← hexDigit? a
    let b ← hexDigit? b
    let c ← hexDigit? c
    let d ← hexDigit? d
    some (a * 4096 + b * 256 + c * 16 + d, rest)
  | _ => none

-- The character of a `\u` escape, which takes two units beyond the first plane.
def unicodeEscape? (cs : List Char) : Option (Char × List Char) := do
  let (high, rest) ← unit? cs
  if 0xD800 ≤ high && high < 0xDC00 then
    match rest with
    | '\\' :: 'u' :: rest =>
      let (low, rest) ← unit? rest
      if 0xDC00 ≤ low && low < 0xE000 then
        some (Char.ofNat (0x10000 + (high - 0xD800) * 1024 + (low - 0xDC00)), rest)
      else none
    | _ => none
  else if 0xDC00 ≤ high && high < 0xE000 then none
  else some (Char.ofNat high, rest)

def simpleEscape? : Char → Option Char
  | '"' => some '"'
  | '\\' => some '\\'
  | '/' => some '/'
  | 'b' => some '\x08'
  | 'f' => some '\x0c'
  | 'n' => some '\n'
  | 'r' => some '\r'
  | 't' => some '\t'
  | _ => none

-- The rest of a string after its opening quote; `out` holds its characters in reverse.
def string? (fuel : Nat) (cs : List Char) (out : List Char) : Option (String × List Char) :=
  match fuel, cs with
  | 0, _ | _, [] => none
  | _ + 1, '"' :: rest => some (String.ofList out.reverse, rest)
  | fuel + 1, '\\' :: 'u' :: rest =>
    match unicodeEscape? rest with
    | some (c, rest) => string? fuel rest (c :: out)
    | none => none
  | fuel + 1, '\\' :: c :: rest =>
    match simpleEscape? c with
    | some c => string? fuel rest (c :: out)
    | none => none
  | fuel + 1, c :: rest => if c.toNat < 32 || c == '\\' then none else string? fuel rest (c :: out)

mutual

def value? (fuel : Nat) (cs : List Char) : Option (Value × List Char) :=
  match fuel with
  | 0 => none
  | fuel + 1 =>
    match skipBlanks cs with
    | 'n' :: 'u' :: 'l' :: 'l' :: rest => some (.null, rest)
    | 't' :: 'r' :: 'u' :: 'e' :: rest => some (.bool true, rest)
    | 'f' :: 'a' :: 'l' :: 's' :: 'e' :: rest => some (.bool false, rest)
    | '"' :: rest => (string? (rest.length + 1) rest []).map fun (s, rest) => (.string s, rest)
    | '[' :: rest =>
      match skipBlanks rest with
      | ']' :: rest => some (.array [], rest)
      | rest => items? fuel rest []
    | '\x7b' :: rest =>
      match skipBlanks rest with
      | '\x7d' :: rest => some (.object [], rest)
      | rest => fields? fuel rest []
    | rest => (number? rest).map fun (n, rest) => (.number n, rest)

-- The items of an array that is not empty; `out` holds those read so far in reverse.
def items? (fuel : Nat) (cs : List Char) (out : List Value) : Option (Value × List Char) :=
  match fuel with
  | 0 => none
  | fuel + 1 => do
    let (v, rest) ← value? fuel cs
    match skipBlanks rest with
    | ',' :: rest => items? fuel rest (v :: out)
    | ']' :: rest => some (.array (v :: out).reverse, rest)
    | _ => none

def fields? (fuel : Nat) (cs : List Char) (out : List (String × Value)) :
    Option (Value × List Char) :=
  match fuel with
  | 0 => none
  | fuel + 1 =>
    match skipBlanks cs with
    | '"' :: rest => do
      let (key, rest) ← string? (rest.length + 1) rest []
      match skipBlanks rest with
      | ':' :: rest =>
        let (v, rest) ← value? fuel rest
        match skipBlanks rest with
        | ',' :: rest => fields? fuel rest ((key, v) :: out)
        | '\x7d' :: rest => some (.object (Dict.ofEntries ((key, v) :: out).reverse), rest)
        | _ => none
      | _ => none
    | _ => none

end

-- The value that a whole text stands for.
def read? (text : String) : Option Value :=
  let cs := text.toList
  match value? (2 * cs.length + 2) cs with
  | some (v, rest) => if (skipBlanks rest).isEmpty then some v else none
  | none => none

end Lakehouse.Json
