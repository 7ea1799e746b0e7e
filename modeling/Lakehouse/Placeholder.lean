import Lakehouse.Ident
import Lakehouse.Text.Blank
import Lakehouse.Value
/-!
Placeholders: a text inside a property that stands for another resource, or for an attribute of it.
They are found by `scan` and replaced by `substitute`; both see a text as the same `segments`, but
`substitute` looks at no text without an opening.
-/
namespace Lakehouse

structure Placeholder where
  resource : String
  path : Option String
  deriving DecidableEq, Repr, Inhabited

namespace Placeholder

def opening : List Char := "$\x7bresources.".toList

-- An attribute is named by a path: dots and brackets besides the characters of an id.
def isPathChar (c : Char) : Bool := Ident.isIdentChar c || c == '.' || c == '[' || c == ']'

def text (p : Placeholder) : String :=
  match p.path with
  | some path => "$\x7bresources." ++ p.resource ++ "." ++ path ++ "\x7d"
  | none => "$\x7bresources." ++ p.resource ++ "\x7d"

-- The placeholder text of an attribute of a resource.
def attr (resource path : String) : String := text ⟨resource, some path⟩

-- What follows a given beginning.
def after? : List Char → List Char → Option (List Char)
  | [], cs => some cs
  | _ :: _, [] => none
  | p :: ps, c :: cs => if p == c then after? ps cs else none

-- The placeholder that a text begins with, and what follows it.
def leading? (cs : List Char) : Option (Placeholder × List Char) := do
  let rest ← after? opening cs
  let resource := rest.takeWhile Ident.isIdentChar
  if resource.isEmpty then none
  match rest.dropWhile Ident.isIdentChar with
  | '\x7d' :: rest => some (⟨String.ofList resource, none⟩, rest)
  | '.' :: rest =>
    let path := rest.takeWhile isPathChar
    if path.isEmpty then none
    match rest.dropWhile isPathChar with
    | '\x7d' :: rest => some (⟨String.ofList resource, some (String.ofList path)⟩, rest)
    | _ => none
  | _ => none

-- The first placeholder in a text, with what stands before it and after it.
def first? : List Char → Option (List Char × Placeholder × List Char)
  | [] => none
  | c :: cs =>
    match leading? (c :: cs) with
    | some (p, rest) => some ([], p, rest)
    | none => (first? cs).map fun (before, found) => (c :: before, found)

-- Reads a text that is one placeholder and nothing else.
def parse? (s : String) : Option Placeholder :=
  match first? s.toList with
  | some ([], p, []) => some p
  | _ => none

-- The id that an id or a placeholder names.
def normalize (s : String) : String :=
  match parse? (Text.trim s) with
  | some p => p.resource
  | none => Text.trim s

-- A text is made of placeholders and of single characters outside them.
inductive Segment where
  | char (c : Char)
  | reference (p : Placeholder)
  deriving DecidableEq, Repr

-- The first `skip` characters belong to a placeholder that has been taken.
def segmentsFrom : Nat → List Char → List Segment
  | _, [] => []
  | skip + 1, _ :: rest => segmentsFrom skip rest
  | 0, c :: rest =>
    match leading? (c :: rest) with
    | some (p, tail) => .reference p :: segmentsFrom (rest.length - tail.length) rest
    | none => .char c :: segmentsFrom 0 rest

def segments (s : String) : List Segment := segmentsFrom 0 s.toList

def Segment.reference? : Segment → Option Placeholder
  | .char _ => none
  | .reference p => some p

def Segment.render (f : Placeholder → String) : Segment → String
  | .char c => String.singleton c
  | .reference p => f p

def inText (s : String) : List Placeholder := (segments s).filterMap Segment.reference?

-- A text without an opening has no placeholder in it.
def hasOpening : List Char → Bool
  | [] => false
  | c :: cs => (after? opening (c :: cs)).isSome || hasOpening cs

def substituteText (f : Placeholder → String) (s : String) : String :=
  if hasOpening s.toList then String.join ((segments s).map (Segment.render f)) else s

mutual

-- Every placeholder in a value, each with the path at which it stands.
def scanValue (path : String) : Value → List (String × Placeholder)
  | .string s => (inText s).map (path, ·)
  | .array items => scanItems path 0 items
  | .object fields => scanFields path fields
  | .null => []
  | .bool _ => []
  | .number _ => []
termination_by structural v => v

def scanItems (path : String) (i : Nat) : List Value → List (String × Placeholder)
  | [] => []
  | v :: rest => scanValue s!"{path}[{i}]" v ++ scanItems path (i + 1) rest
termination_by structural vs => vs

def scanFields (path : String) : List (String × Value) → List (String × Placeholder)
  | [] => []
  | (key, v) :: rest => scanValue s!"{path}.{key}" v ++ scanFields path rest
termination_by structural fs => fs

end

def scan (properties : Properties) : List (String × Placeholder) :=
  properties.flatMap fun (key, v) => scanValue key v

mutual

-- Replaces every placeholder in the texts of a value; keys stay as they are.
def substitute (f : Placeholder → String) : Value → Value
  | .string s => .string (substituteText f s)
  | .array items => .array (substituteItems f items)
  | .object fields => .object (substituteFields f fields)
  | .null => .null
  | .bool b => .bool b
  | .number n => .number n
termination_by structural v => v

def substituteItems (f : Placeholder → String) : List Value → List Value
  | [] => []
  | v :: rest => substitute f v :: substituteItems f rest
termination_by structural vs => vs

def substituteFields (f : Placeholder → String) : List (String × Value) → List (String × Value)
  | [] => []
  | (key, v) :: rest => (key, substitute f v) :: substituteFields f rest
termination_by structural fs => fs

end

end Placeholder

end Lakehouse
