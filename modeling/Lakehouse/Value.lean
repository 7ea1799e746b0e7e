import Lakehouse.Decimal
import Lakehouse.Dict

namespace Lakehouse

-- Whole numbers are exact; any other number is the decimal of a double.
inductive Number where
  | int (n : Int)
  | decimal (d : Decimal)
  deriving DecidableEq, Repr, Inhabited

namespace Number

-- Whole numbers beyond these are not kept exactly.
def leastInteger : Int := -9223372036854775808
def greatestInteger : Int := 18446744073709551615

end Number

inductive Value where
  | null
  | bool (b : Bool)
  | number (n : Number)
  | string (s : String)
  | array (items : List Value)
  | object (fields : List (String × Value))
  deriving Repr, Inhabited

-- The attributes of a resource, in order.
abbrev Properties := Dict Value

namespace Value

def nat (n : Nat) : Value := .number (.int n)

def strings (xs : List String) : Value := .array (xs.map .string)

def ofOption (o : Option Value) : Value := o.getD .null

def isNull : Value → Bool
  | null => true
  | _ => false

def isEmptyArray : Value → Bool
  | array [] => true
  | _ => false

def isEmptyObject : Value → Bool
  | object [] => true
  | _ => false

def string? : Value → Option String
  | string s => some s
  | _ => none

def array? : Value → Option (List Value)
  | array items => some items
  | _ => none

def object? : Value → Option Properties
  | object fields => some fields
  | _ => none

end Value

end Lakehouse
