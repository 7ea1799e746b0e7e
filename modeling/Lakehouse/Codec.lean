import Lakehouse.Input
/-!
Codecs: how the parts of a declaration are read and written. A record is described once, field by
field, and the description gives both its reader and its writer.
-/
namespace Lakehouse

structure Codec (α : Type) where
  read : Input → Option α
  write : α → Value

namespace Codec

variable {α β : Type}

def text : Codec String := ⟨Input.text?, .string⟩

def flag : Codec Bool := ⟨Input.flag?, .bool⟩

def count : Codec UInt32 := ⟨Input.count?, fun n => .nat n.toNat⟩

def free : Codec Value := ⟨Input.free?, id⟩

def list (c : Codec α) : Codec (List α) where
  read x := do (← x.list?).mapM c.read
  write xs := .array (xs.map c.write)

def dict (c : Codec α) : Codec (Dict α) where
  read x := do
    let entries ← (← x.dict?).mapM fun (key, v) => do some (key, ← c.read v)
    some (Dict.ofEntries entries)
  write t := .object (t.mapValues c.write)

def optional (c : Codec α) : Codec (Option α) where
  read x := do
    match ← x.optional? with
    | some x => some (some (← c.read x))
    | none => some none
  write o := .ofOption (o.map c.write)

-- An enumeration with a word for each of its members.
def choice (members : List α) (word : α → String) : Codec α where
  read x := do members[(← x.choice? (members.map word))]?
  write a := .string (word a)

end Codec

-- A field of a record: its value where it is absent, if it may be, and when the writer leaves it out.
structure Field (α : Type) where
  name : String
  codec : Codec α
  absent : Option α
  omits : α → Bool

namespace Field

variable {α : Type}

def required (name : String) (c : Codec α) : Field α := ⟨name, c, none, fun _ => false⟩

def default (name : String) (c : Codec α) (value : α) : Field α :=
  ⟨name, c, some value, fun _ => false⟩

def optional (name : String) (c : Codec α) : Field (Option α) := default name c.optional none

-- Left out when there is nothing to write.
def sparse (name : String) (c : Codec α) : Field (Option α) :=
  ⟨name, c.optional, some none, Option.isNone⟩

def list (name : String) (c : Codec α) : Field (List α) := default name c.list []

def sparseList (name : String) (c : Codec α) : Field (List α) :=
  ⟨name, c.list, some [], List.isEmpty⟩

def dict (name : String) (c : Codec α) : Field (Dict α) := default name c.dict []

def sparseDict (name : String) (c : Codec α) : Field (Dict α) :=
  ⟨name, c.dict, some [], List.isEmpty⟩

def read (f : Field α) : Option Input → Option α
  | some x => f.codec.read x
  | none => f.absent

def write (f : Field α) (a : α) : Properties :=
  if f.omits a then [] else [(f.name, f.codec.write a)]

end Field

-- The fields of a record in order, over the product of their types.
inductive Fields : Type → Type 1 where
  | nil : Fields Unit
  | cons {α β : Type} (field : Field α) (rest : Fields β) : Fields (α × β)

namespace Fields

def names : {τ : Type} → Fields τ → List String
  | _, .nil => []
  | _, .cons f rest => f.name :: rest.names

-- Reads from what a record holds for each field.
def read : {τ : Type} → Fields τ → List (Option Input) → Option τ
  | _, .nil, _ => some ()
  | _, .cons f rest, slots => do
    let a ← f.read slots.head?.join
    let b ← rest.read slots.tail
    some (a, b)

def write : {τ : Type} → Fields τ → τ → Properties
  | _, .nil, _ => []
  | _, .cons f rest, (a, b) => f.write a ++ rest.write b

end Fields

namespace Codec

variable {α τ : Type}

-- A record, given its fields, how it is made of their values and how it is taken apart.
def record (fields : Fields τ) (make : τ → α) (parts : α → τ) : Codec α where
  read x := do some (make (← fields.read (← x.record? fields.names)))
  write a := .object (fields.write (parts a))

-- A record with free entries after its fields. It is never written as a list.
def openRecord (fields : Fields τ) (make : τ → Properties → α) (parts : α → τ × Properties) :
    Codec α where
  read x := do
    let (slots, extra) ← x.openRecord? fields.names
    let known ← fields.read slots
    let extra ← extra.mapM fun (key, v) => do some (key, ← (← v.typed?).free?)
    some (make known (Dict.ofEntries extra))
  write a :=
    let (known, extra) := parts a
    .object (fields.write known ++ extra)

-- What a record writes, as the fields of the object.
def properties (c : Codec α) (a : α) : Properties := (c.write a).object?.getD []

end Codec

end Lakehouse
