import Lakehouse.Value

namespace Lakehouse.Json

-- Positional from `1e-5` up to below `1e16`, and a plus sign on large exponents.
def decimalLayout : Decimal.Layout where
  leastPositional := -5
  greatestPositional := 15
  plusSign := true

def numberText : Number → String
  | .int n => toString n
  | .decimal d => d.text decimalLayout

def hexDigit (n : Nat) : Char := (Nat.digitChar n)

-- Quotes, backslashes and characters below the space are escaped, nothing else.
def escape (c : Char) : String :=
  if c == '"' then "\\\""
  else if c == '\\' then "\\\\"
  else if c == '\n' then "\\n"
  else if c == '\r' then "\\r"
  else if c == '\t' then "\\t"
  else if c == '\x08' then "\\b"
  else if c == '\x0c' then "\\f"
  else if c.toNat < 32 then
    "\\u00" ++ String.singleton (hexDigit (c.toNat / 16)) ++ String.singleton (hexDigit (c.toNat % 16))
  else String.singleton c

def quoted (s : String) : String := "\"" ++ String.join (s.toList.map escape) ++ "\""

mutual

def compact : Value → String
  | .null => "null"
  | .bool b => if b then "true" else "false"
  | .number n => numberText n
  | .string s => quoted s
  | .array items => "[" ++ compactItems items ++ "]"
  | .object fields => "\x7b" ++ compactFields fields ++ "\x7d"
termination_by structural v => v

def compactItems : List Value → String
  | [] => ""
  | [v] => compact v
  | v :: rest => compact v ++ "," ++ compactItems rest
termination_by structural vs => vs

def compactFields : List (String × Value) → String
  | [] => ""
  | [(k, v)] => quoted k ++ ":" ++ compact v
  | (k, v) :: rest => quoted k ++ ":" ++ compact v ++ "," ++ compactFields rest
termination_by structural fs => fs

end

-- A new line at a level of nesting.
def newline (level : Nat) : String := "\n" ++ String.ofList (List.replicate (2 * level) ' ')

mutual

def prettyAt (level : Nat) : Value → String
  | .null => "null"
  | .bool b => if b then "true" else "false"
  | .number n => numberText n
  | .string s => quoted s
  | .array [] => "[]"
  | .array (v :: rest) =>
    "[" ++ newline (level + 1) ++ prettyAt (level + 1) v ++ prettyItems (level + 1) rest ++
      newline level ++ "]"
  | .object [] => "\x7b\x7d"
  | .object ((k, v) :: rest) =>
    "\x7b" ++ newline (level + 1) ++ quoted k ++ ": " ++ prettyAt (level + 1) v ++
      prettyFields (level + 1) rest ++ newline level ++ "\x7d"
termination_by structural v => v

-- Each further item, after a comma.
def prettyItems (level : Nat) : List Value → String
  | [] => ""
  | v :: rest => "," ++ newline level ++ prettyAt level v ++ prettyItems level rest
termination_by structural vs => vs

def prettyFields (level : Nat) : List (String × Value) → String
  | [] => ""
  | (k, v) :: rest =>
    "," ++ newline level ++ quoted k ++ ": " ++ prettyAt level v ++ prettyFields level rest
termination_by structural fs => fs

end

def pretty (v : Value) : String := prettyAt 0 v

end Lakehouse.Json
