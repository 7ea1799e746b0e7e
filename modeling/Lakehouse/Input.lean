import Lakehouse.Yaml.Scalar
/-!
A document as the reader of a declaration meets it. Some scalars have their type already; others are
only text, and the place that reads them decides what they stand for. `Input.ofValue` makes an input
of a value; the text format has its own way to one.
-/
namespace Lakehouse

inductive Input where
  | atom (a : Yaml.Atom)
  | scalar (s : Yaml.Scalar)
  -- A positional list may stand for a record, as its fields in order.
  | list (positional : Bool) (items : List Input)
  | map (entries : List (Input × Input))
  -- A collection under a tag of the application.
  | tagged (name : String) (content : Input)
  -- Nested too deeply, or repeated too often.
  | unreadable
  deriving Inhabited

namespace Input

mutual

def ofValue : Value → Input
  | .null => .atom .null
  | .bool b => .atom (.flag b)
  | .number n => .atom (.number n)
  | .string s => .atom (.text s)
  | .array items => .list true (ofValues items)
  | .object fields => .map (ofFields fields)
termination_by structural v => v

def ofValues : List Value → List Input
  | [] => []
  | v :: rest => ofValue v :: ofValues rest
termination_by structural vs => vs

def ofFields : List (String × Value) → List (Input × Input)
  | [] => []
  | (key, v) :: rest => (.atom (.text key), ofValue v) :: ofFields rest
termination_by structural fs => fs

end

def text? : Input → Option String
  | .atom (.text s) => some s
  | .scalar s => some s.text
  | _ => none

def flag? : Input → Option Bool
  | .atom (.flag b) => some b
  | .scalar s =>
    if s.isPlain || (s.style == .literal && s.tag == some .bool) then Yaml.flag? s.text else none
  | _ => none

-- A whole number of 32 bits.
def count? : Input → Option UInt32
  | .atom (.number (.int n)) => if 0 ≤ n && n < UInt32.size then some (UInt32.ofNat n.toNat) else none
  | .scalar s =>
    if s.isPlain || (s.style == .literal && s.tag == some .int) then
      match Yaml.unsigned? s.text with
      | some n => if n < UInt32.size then some (UInt32.ofNat n) else none
      | none => none
    else none
  | _ => none

-- What stands at a place that may stay empty: something, or nothing.
def optional? (x : Input) : Option (Option Input) :=
  match x with
  | .atom .null => some none
  | .scalar s =>
    if !s.isPlain then some (some x)
    else match s.tag with
      | some .null => if Yaml.isNullText s.text then some none else none
      | some _ => some (some x)
      | none => if s.text.isEmpty || Yaml.isNullText s.text then some none else some (some x)
  | _ => some (some x)

-- Nothing after a colon is the empty list, and the empty map.
def list? : Input → Option (List Input)
  | .list _ items => some items
  | .scalar s => if s.isNothing then some [] else none
  | .tagged _ (.list _ items) => some items
  | _ => none

def entries? : Input → Option (List (Input × Input))
  | .map entries => some entries
  | .scalar s => if s.isNothing then some [] else none
  | .tagged _ (.map entries) => some entries
  | _ => none

-- Entries whose keys are texts.
def dict? (x : Input) : Option (Dict Input) := do
  (← x.entries?).mapM fun (key, v) => do some (← key.text?, v)

-- The word of an enumeration, as its place among all of them. A tag may name it over an empty
-- scalar, and a map may hold it as the only key, with nothing under it.
def choice? (words : List String) : Input → Option Nat
  | .atom (.text s) => words.idxOf? s
  | .scalar s =>
    match s.tag with
    | some (.custom name) =>
      if s.isPlain && (s.text.isEmpty || Yaml.isNullText s.text) then words.idxOf? name else none
    | _ => words.idxOf? s.text
  | .map [(.atom (.text s), .atom .null)] => words.idxOf? s
  | .map [(.atom (.number (.int n)), .atom .null)] =>
    if 0 ≤ n && n < words.length then some n.toNat else none
  | _ => none

-- Which field of a record a key names, by its name or by its number. Other keys are skipped.
def field? (names : List String) : Input → Option (Option Nat)
  | .atom (.text s) => some (names.idxOf? s)
  | .scalar s => some (names.idxOf? s.text)
  | .atom (.number (.int n)) =>
    if n < 0 then none else some (if n < names.length then some n.toNat else none)
  | _ => none

-- The one thing there is, nothing, or a failure where there are several.
def single? {α : Type} : List α → Option (Option α)
  | [] => some none
  | [a] => some (some a)
  | _ => none

-- What a record holds for each of its fields. Fields that are not known are skipped; one that comes
-- twice is refused.
def record? (names : List String) : Input → Option (List (Option Input))
  | .list true items =>
    if items.length ≤ names.length then
      some (items.map some ++ List.replicate (names.length - items.length) none)
    else none
  | x => do
    let entries ← (← x.entries?).mapM fun (key, v) => do some (← key.field? names, v)
    (List.range names.length).mapM fun i =>
      single? (entries.filterMap fun (field, v) => if field == some i then some v else none)

-- A record that keeps the entries it does not know.
def openRecord? (names : List String) (x : Input) : Option (List (Option Input) × Dict Input) := do
  let entries ← x.dict?
  let known ← names.mapM fun name =>
    single? (entries.filterMap fun (key, v) => if key == name then some v else none)
  some (known, entries.filter fun (key, _) => !names.contains key)

def valueOfAtom : Yaml.Atom → Value
  | .null => .null
  | .flag b => .bool b
  | .number n => .number n
  | .notFinite => .null
  | .text s => .string s

mutual

-- Gives every scalar its own type, whatever reads it later.
def typed? : Input → Option Input
  | .atom a => some (.atom a)
  | .scalar s => s.atom?.map .atom
  | .list _ items => (typedItems? items).map (.list true)
  | .map entries => (typedEntries? entries).map .map
  | .tagged _ _ => none
  | .unreadable => none
termination_by structural x => x

def typedItems? : List Input → Option (List Input)
  | [] => some []
  | x :: rest => do some ((← typed? x) :: (← typedItems? rest))
termination_by structural xs => xs

def typedEntries? : List (Input × Input) → Option (List (Input × Input))
  | [] => some []
  | (key, x) :: rest => do some ((← typed? key, ← typed? x) :: (← typedEntries? rest))
termination_by structural es => es

end

mutual

-- Reads a free value. Keys are texts, whatever they look like.
def free? : Input → Option Value
  | .atom a => some (valueOfAtom a)
  | .scalar s => s.atom?.map valueOfAtom
  | .list _ items => (freeItems? items).map .array
  | .map entries => (freeEntries? entries).map (.object <| Dict.ofEntries ·)
  | .tagged _ _ => none
  | .unreadable => none
termination_by structural x => x

def freeItems? : List Input → Option (List Value)
  | [] => some []
  | x :: rest => do some ((← free? x) :: (← freeItems? rest))
termination_by structural xs => xs

def freeEntries? : List (Input × Input) → Option (List (String × Value))
  | [] => some []
  | (key, x) :: rest => do some ((← key.text?, ← free? x) :: (← freeEntries? rest))
termination_by structural es => es

end

end Input

end Lakehouse
