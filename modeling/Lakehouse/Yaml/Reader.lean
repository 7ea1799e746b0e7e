import Lakehouse.Input
import Lakehouse.Yaml.Node
import Lakehouse.Yaml.Token.Scan
/-!
Reading a YAML text as an input. Aliases are replaced by what they stand for, as far as that is not too
deep and not too often.
-/
namespace Lakehouse.Yaml

-- How deep collections may be nested.
def maxDepth : Nat := 128

-- How often aliases may be followed for each part of the document.
def maxRepetition : Nat := 100

-- What is left of the number of times that aliases may be followed.
abbrev Budget := StateT Nat Option

def spend : Budget Unit := do
  match ← get with
  | 0 => failure
  | n + 1 => set n

-- An alias that would need more than what is left cannot be read, and costs nothing.
def Budget.orUnreadable (b : Budget Input) : Budget Input := fun n =>
  match b n with
  | some r => some r
  | none => some (.unreadable, n)

def withTag (tag : Option Tag) (x : Input) : Input :=
  match tag with
  | some (.custom name) => .tagged name x
  | _ => x

namespace Node

-- The node behind its anchor.
def bare : Node → Node
  | .anchored _ content => content.bare
  | n => n

-- The last node with the number of an alias.
def target? (table : List (Nat × Node)) (id : Nat) : Option Node :=
  (table.filter (·.1 == id)).getLast?.map (·.2.bare)

-- The input of a node; `inside` says whether an alias is being followed.
def build (table : List (Nat × Node)) (depth : Nat) (inside : Bool) (n : Node) : Budget Input :=
  let ofContent (inside : Bool) (n : Node) : Budget Input :=
    match n, depth with
    | .scalar s, _ => return .scalar s
    | .sequence tag items, depth + 1 => do
      return withTag tag (.list false (← items.mapM (build table depth inside)))
    | .mapping tag entries, depth + 1 => do
      return withTag tag (.map (← entries.mapM fun (key, v) => do
        return (← build table depth inside key, ← build table depth inside v)))
    | _, _ => return .unreadable
  match n.bare with
  | .alias id =>
    let followed : Budget Input := do
      spend
      ofContent true (← target? table id)
    if inside then followed else followed.orUnreadable
  | n => ofContent inside n
termination_by structural depth

end Node

-- The input that a whole text stands for.
def read? (text : String) : Option Input := do
  let cs := text.toList
  if !cs.all isAllowed then none
  let cs := match cs with
    | '\ufeff' :: rest => rest
    | _ => cs
  let node ← Node.ofTokens? (← Token.scan? cs)
  (node.build node.anchors maxDepth false).run' (maxRepetition * node.weight)

end Lakehouse.Yaml
