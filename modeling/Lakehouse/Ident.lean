namespace Lakehouse.Ident

-- ASCII letters and digits, the underscore and the hyphen.
def isIdentChar (c : Char) : Bool := c.isAlphanum || c == '_' || c == '-'

def isAddressable (id : String) : Bool := !id.isEmpty && id.toList.all isIdentChar

-- How many leading hyphens a key loses at most.
def maxStrip : Nat := 5

def stripHyphens : Nat → List Char → List Char
  | n + 1, '-' :: rest => stripHyphens n rest
  | _, cs => cs

-- Characters that an id cannot hold become hyphens.
def key (path : String) : String :=
  String.ofList (stripHyphens maxStrip (path.toList.map fun c => if isIdentChar c then c else '-'))

-- The explicit name, or the key of the path under the kind's stem.
def derive (explicit : Option String) (stem path : String) : String :=
  explicit.getD (stem ++ "-" ++ key path)

end Lakehouse.Ident
