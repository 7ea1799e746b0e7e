import Lakehouse.Value

namespace Lakehouse.Yaml

inductive Style where
  | plain
  | quoted
  | literal
  | folded
  deriving DecidableEq, Repr, Inhabited

-- Tags that force a type, tags of the application, and all others.
inductive Tag where
  | null
  | bool
  | int
  | float
  | custom (name : String)
  | other
  deriving DecidableEq, Repr, Inhabited

structure Scalar where
  text : String
  style : Style
  tag : Option Tag
  deriving DecidableEq, Repr, Inhabited

-- A scalar that has its type.
inductive Atom where
  | null
  | flag (b : Bool)
  | number (n : Number)
  -- NaN or an infinity.
  | notFinite
  | text (s : String)
  deriving DecidableEq, Repr, Inhabited

-- The application's tags start with an exclamation mark, which is not part of the name unless it is
-- all of it.
def Tag.ofText (tag : String) : Tag :=
  if tag == "tag:yaml.org,2002:null" then .null
  else if tag == "tag:yaml.org,2002:bool" then .bool
  else if tag == "tag:yaml.org,2002:int" then .int
  else if tag == "tag:yaml.org,2002:float" then .float
  else match tag.toList with
    | ['!'] => .custom "!"
    | '!' :: name => .custom (String.ofList name)
    | _ => .other

def isNullText (s : String) : Bool := ["null", "Null", "NULL", "~"].contains s

def flag? (s : String) : Option Bool :=
  if ["true", "True", "TRUE"].contains s then some true
  else if ["false", "False", "FALSE"].contains s then some false
  else none

def digit? (base : Nat) (c : Char) : Option Nat :=
  let value :=
    if '0' ≤ c && c ≤ '9' then c.toNat - '0'.toNat
    else if 'a' ≤ c && c ≤ 'f' then c.toNat - 'a'.toNat + 10
    else if 'A' ≤ c && c ≤ 'F' then c.toNat - 'A'.toNat + 10
    else base
  if value < base then some value else none

-- One digit or more, and nothing else.
def natural? (base : Nat) (cs : List Char) : Option Nat :=
  if cs.isEmpty then none
  else cs.foldlM (fun value c => (digit? base c).map (base * value + ·)) 0

-- A number in base 16, 8 or 2 after its mark.
def marked? : List Char → Option Nat
  | '0' :: 'x' :: rest => natural? 16 rest
  | '0' :: 'o' :: rest => natural? 8 rest
  | '0' :: 'b' :: rest => natural? 2 rest
  | _ => none

-- Digits with a needless zero in front make a text, not a number.
def hasLeadingZero (cs : List Char) : Bool :=
  let digits := match cs with
    | '-' :: rest | '+' :: rest => rest
    | _ => cs
  digits.length > 1 && digits.head? == some '0' && digits.all Char.isDigit

def unsigned? (s : String) : Option Nat :=
  let cs := s.toList
  let rest := match cs with
    | '+' :: rest => rest
    | _ => cs
  match marked? rest with
  | some n => some n
  | none => if hasLeadingZero cs then none else natural? 10 rest

def negative? (s : String) : Option Int :=
  match s.toList with
  | '-' :: rest =>
    match marked? rest with
    | some n => some (-n)
    | none => if hasLeadingZero s.toList then none else (natural? 10 rest).map (-·)
  | _ => none

-- A whole number in a text: one that fits, one that is out of range, or none at all. Beyond 128 bits
-- the text is left to be read as a float.
inductive Whole where
  | fits (n : Int)
  | tooLarge
  | absent

def whole (s : String) : Whole :=
  let n : Option Int :=
    match unsigned? s with
    | some n => some n
    | none => negative? s
  match n with
  | some n =>
    if Number.leastInteger ≤ n && n ≤ Number.greatestInteger then .fits n
    else if -(Nat.pow 2 127 : Nat) ≤ n && n < (Nat.pow 2 128 : Nat) then .tooLarge
    else .absent
  | none => .absent

-- Digits before and after a point, at least one of them, and an exponent.
def unsignedFloat? (negative : Bool) (cs : List Char) : Option Decimal := do
  let before := cs.takeWhile Char.isDigit
  let rest := cs.dropWhile Char.isDigit
  let (after, rest) := match rest with
    | '.' :: rest => (rest.takeWhile Char.isDigit, rest.dropWhile Char.isDigit)
    | _ => ([], rest)
  let digits ← natural? 10 (before ++ after)
  let exponent ← match rest with
    | [] => some (0 : Int)
    | 'e' :: rest | 'E' :: rest =>
      match rest with
      | '-' :: rest => (natural? 10 rest).map fun n => -(n : Int)
      | '+' :: rest => (natural? 10 rest).map Int.ofNat
      | _ => (natural? 10 rest).map Int.ofNat
    | _ => none
  Decimal.nearest? negative digits (exponent - after.length)

def float? (s : String) : Option Decimal :=
  match s.toList with
  | '+' :: rest => unsignedFloat? false rest
  | '-' :: rest => unsignedFloat? true rest
  | cs => unsignedFloat? false cs

def isNotFinite (s : String) : Bool :=
  [".inf", ".Inf", ".INF", "+.inf", "+.Inf", "+.INF", "-.inf", "-.Inf", "-.INF",
   ".nan", ".NaN", ".NAN"].contains s

def floatAtom? (s : String) : Option Atom :=
  if isNotFinite s then some .notFinite else (float? s).map (.number <| .decimal ·)

namespace Scalar

def isPlain (s : Scalar) : Bool := s.style == .plain

-- Nothing at all, as after a colon.
def isNothing (s : Scalar) : Bool := s.isPlain && s.text.isEmpty

-- What a plain untagged text stands for; none for a whole number that is out of range.
def atomOfPlain? (s : String) : Option Atom :=
  if s.isEmpty || isNullText s then some .null
  else match flag? s with
    | some b => some (.flag b)
    | none =>
      match whole s with
      | .fits n => some (.number (.int n))
      | .tooLarge => none
      | .absent => if hasLeadingZero s.toList then some (.text s) else some ((floatAtom? s).getD (.text s))

def atom? (s : Scalar) : Option Atom :=
  match s.tag with
  | some .null => if isNullText s.text then some .null else none
  | some .bool => (flag? s.text).map .flag
  | some .int =>
    match whole s.text with
    | .fits n => some (.number (.int n))
    | _ => none
  | some .float => floatAtom? s.text
  | some (.custom _) => none
  | some .other => some (.text s.text)
  | none => if s.isPlain then atomOfPlain? s.text else some (.text s.text)

end Scalar

end Lakehouse.Yaml
