/-!
Dictionaries: entries under text keys, in the order in which their keys first came.
-/
namespace Lakehouse

abbrev Dict (α : Type) := List (String × α)

namespace Dict

variable {α β : Type}

def keys (t : Dict α) : List String := t.map (·.1)

def get? (t : Dict α) (key : String) : Option α := t.lookup key

def contains (t : Dict α) (key : String) : Bool := t.any (·.1 == key)

-- A key that is there keeps its place and changes its value; another one goes to the end.
def insert (t : Dict α) (key : String) (value : α) : Dict α :=
  match t with
  | [] => [(key, value)]
  | (k, v) :: rest => if k == key then (k, value) :: rest else (k, v) :: insert rest key value

def insertAll (t entries : Dict α) : Dict α :=
  entries.foldl (fun t (k, v) => t.insert k v) t

-- Of entries under one key the last value counts, at the first one's place.
def ofEntries (entries : Dict α) : Dict α := insertAll [] entries

def erase (t : Dict α) (key : String) : Dict α := t.filter (·.1 != key)

def eraseAll (t : Dict α) (keys : List String) : Dict α := t.filter (!keys.contains ·.1)

def mapValues (f : α → β) (t : Dict α) : Dict β := t.map fun (k, v) => (k, f v)

end Dict

end Lakehouse
