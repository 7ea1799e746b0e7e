import Lakehouse.CompileError
import Lakehouse.Dependency.Order
import Lakehouse.Placeholder
/-!
Dependencies between resources. The links of a resource are what it says about others; resolving
them makes edges, one for each pair of resources, and an order in which every resource follows what
it depends on.
-/
namespace Lakehouse

-- Why one resource comes after another.
inductive Origin where
  | explicit
  | owner
  | provider
  | reference (path : String)
  deriving DecidableEq, Repr, Inhabited

def Origin.word : Origin → String
  | explicit => "explicit"
  | owner => "owner"
  | provider => "provider"
  | reference _ => "reference"

-- What a resource says about another one, and at which path it says it.
structure Link where
  path : String
  target : String
  origin : Origin
  deriving DecidableEq, Repr

-- `dependent` is provisioned after `dependency`.
structure Edge where
  dependent : String
  dependency : String
  origin : Origin
  deriving DecidableEq, Repr, Inhabited

namespace Edge

-- Other edges follow from the provider or from a text that refers to the dependency.
def isOrderingHint (e : Edge) : Bool :=
  match e.origin with
  | .explicit | .owner => true
  | .provider | .reference _ => false

def encode (e : Edge) : Value :=
  .object <|
    [("from", .string e.dependent), ("to", .string e.dependency),
     ("origin", .string e.origin.word)] ++
    match e.origin with
    | .reference path => [("path", .string path)]
    | _ => []

end Edge

namespace Resource

def ownerLinks (r : Resource) : List Link := r.owner.toList.map fun id => ⟨"owner", id, .owner⟩

def explicitLinks (r : Resource) : List Link :=
  r.dependsOn.zipIdx.map fun (id, i) => ⟨s!"options.depends_on[{i}]", id, .explicit⟩

def providerLinks (r : Resource) : List Link :=
  r.provider.toList.map fun id => ⟨"options.provider", id, .provider⟩

def referenceLinks (r : Resource) : List Link :=
  (Placeholder.scan r.properties).map fun (path, p) => ⟨path, p.resource, .reference path⟩

-- Everything the resource says about others, in the order in which it counts.
def links (r : Resource) : List Link :=
  r.ownerLinks ++ r.explicitLinks ++ r.providerLinks ++ r.referenceLinks

end Resource

structure Resolution where
  edges : List Edge
  -- Indices of resources in the order of provisioning.
  order : List Nat
  deriving Repr

namespace Resolution

-- The place of the last resource with an id.
def position? (resources : List Resource) (id : String) : Option Nat :=
  (resources.zipIdx.filter (·.1.id == id)).getLast?.map (·.2)

-- The place that a link leads to; it may not lead back to where it starts.
def target (resources : List Resource) (r : Resource) (i : Nat) (l : Link) :
    Except CompileError (Link × Nat) :=
  match position? resources l.target with
  | none => .error (.unresolvedReference r.id l.path l.target)
  | some j => if j = i then .error (.cyclicDependency .resources [r.id]) else .ok (l, j)

-- How far the links have been followed: the edges, and the pairs of places that have one.
structure Followed where
  edges : List Edge
  pairs : List Order.Pair
  deriving DecidableEq, Repr

-- Two resources have one edge, for the first link from the one to the other.
def Followed.add (f : Followed) (r : Resource) (i : Nat) : Link × Nat → Followed
  | (l, j) =>
    if f.pairs.contains (i, j) then f
    else { edges := f.edges ++ [⟨r.id, l.target, l.origin⟩], pairs := f.pairs ++ [(i, j)] }

def follow (resources : List Resource) (r : Resource) (i : Nat) (f : Followed) (l : Link) :
    Except CompileError Followed := do
  .ok (f.add r i (← target resources r i l))

def ids (resources : List Resource) (indices : List Nat) : List String :=
  indices.filterMap fun i => resources[i]?.map (·.id)

-- Turns links into edges, resource by resource, and orders the resources.
def ofResources (resources : List Resource) : Except CompileError Resolution := do
  let followed ← resources.zipIdx.foldlM
    (fun f (r, i) => r.links.foldlM (follow resources r i) f) { edges := [], pairs := [] }
  match Order.sort resources.length followed.pairs with
  | .ok order => .ok { edges := followed.edges, order }
  | .error cycle => .error (.cyclicDependency .resources (ids resources cycle))

end Resolution

end Lakehouse
