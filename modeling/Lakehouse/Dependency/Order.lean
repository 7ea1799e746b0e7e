/-!
Stable orders of a dependency relation over `0, 1, …, n - 1`. Every index counts the dependencies that
it waits for, and of those that wait for none the lowest comes next, so an unchanged relation has an
unchanged order; if nothing can come next, there is a cycle to be named.
-/
namespace Lakehouse.Order

-- A dependency `(i, j)` says that `i` comes after `j`.
abbrev Pair := Nat × Nat

-- What an index comes after, as often as it is said.
def dependencies (pairs : List Pair) (i : Nat) : List Nat :=
  pairs.filterMap fun (after, before) => if after == i then some before else none

-- What comes after an index, as often as it is said.
def dependents (pairs : List Pair) (j : Nat) : List Nat :=
  pairs.filterMap fun (after, before) => if before == j then some after else none

-- How far the placing of the indices has come.
structure Progress where
  -- How many dependencies each index waits for.
  counts : List Nat
  -- The indices that can come next, in ascending order.
  ready : List Nat
  deriving DecidableEq, Repr

namespace Progress

-- Puts an index among ascending ones, unless it is there.
def insert (i : Nat) : List Nat → List Nat
  | [] => [i]
  | j :: rest =>
    if i < j then i :: j :: rest
    else if i = j then j :: rest
    else j :: insert i rest

-- Before anything is placed.
def initial (n : Nat) (pairs : List Pair) : Progress :=
  let counts := pairs.foldl (fun counts (after, _) => counts.modify after (· + 1))
    (List.replicate n 0)
  { counts, ready := (List.range n).filter fun i => counts[i]? == some 0 }

-- One of the dependencies that an index waits for is placed.
def meet (p : Progress) (i : Nat) : Progress :=
  let counts := p.counts.modify i (· - 1)
  { counts, ready := if counts[i]? == some 0 then insert i p.ready else p.ready }

end Progress

-- Places the lowest index that is ready, at most `fuel` times, and returns the order of the indices.
def place (pairs : List Pair) : Nat → Progress → List Nat
  | 0, _ => []
  | fuel + 1, p =>
    match p.ready with
    | [] => []
    | i :: rest =>
      i :: place pairs fuel ((dependents pairs i).foldl Progress.meet { p with ready := rest })

-- The lowest dependency of an index that is not placed.
def next? (pairs : List Pair) (placed : List Nat) (i : Nat) : Option Nat :=
  ((dependencies pairs i).filter (!placed.contains ·)).min?

-- Follows dependencies that are not placed until one comes again; the walk from there on is a cycle,
-- here in ascending order. `path` holds the walk so far in reverse.
def chase (pairs : List Pair) (placed : List Nat) : Nat → Nat → List Nat → List Nat
  | 0, _, path => path.reverse
  | fuel + 1, i, path =>
    if path.contains i then (path.reverse.dropWhile (· != i)).mergeSort
    else match next? pairs placed i with
      | some j => chase pairs placed fuel j (i :: path)
      | none => (i :: path).reverse

-- A cycle among the indices that are not placed, found from the lowest of them.
def cycle (n : Nat) (pairs : List Pair) (placed : List Nat) : List Nat :=
  let first := ((List.range n).find? (!placed.contains ·)).getD 0
  chase pairs placed (n + 1) first []

-- The stable order, or the indices of one cycle.
def sort (n : Nat) (pairs : List Pair) : Except (List Nat) (List Nat) :=
  let order := place pairs n (.initial n pairs)
  if order.length = n then .ok order else .error (cycle n pairs order)

end Lakehouse.Order
