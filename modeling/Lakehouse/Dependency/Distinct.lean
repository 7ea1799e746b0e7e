namespace Lakehouse

variable {α β : Type} [BEq β]

-- Leaves out what has a key that was seen before.
def distinctFrom (key : α → β) (seen : List β) : List α → List α
  | [] => []
  | a :: rest =>
    if seen.contains (key a) then distinctFrom key seen rest
    else a :: distinctFrom key (key a :: seen) rest

def distinctBy (key : α → β) (xs : List α) : List α := distinctFrom key [] xs

end Lakehouse
