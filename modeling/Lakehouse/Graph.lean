import Lakehouse.Dependency
import Lakehouse.Digest
import Lakehouse.Expansion

namespace Lakehouse

structure Graph where
  name : String
  description : Option String
  config : Properties
  vars : Properties
  settings : Settings
  resources : List Resource
  edges : List Edge
  pipelines : List NodeGraph
  deriving Repr, Inhabited

namespace Graph

def get? (g : Graph) (id : String) : Option Resource := g.resources.find? (·.id == id)

def pipeline? (g : Graph) (name : String) : Option NodeGraph := g.pipelines.find? (·.name == name)

-- What a resource is provisioned after.
def dependencies (g : Graph) (id : String) : List String :=
  (g.edges.filter (·.dependent == id)).map (·.dependency)

-- Those dependencies that a backend has to be told.
def orderingHints (g : Graph) (id : String) : List String :=
  (g.edges.filter fun e => e.dependent == id && e.isOrderingHint).map (·.dependency)

def countByKind (g : Graph) (kind : Kind) : Nat := (g.resources.filter (·.kind == kind)).length

-- The node graphs are not part of what is written.
def encode (g : Graph) : Value :=
  .object [
    ("name", .string g.name),
    ("description", .ofOption (g.description.map .string)),
    ("config", .object g.config),
    ("variables", .object g.vars),
    ("settings", Settings.codec.write g.settings),
    ("resources", .array (g.resources.map Resource.codec.write)),
    ("edges", .array (g.edges.map Edge.encode))]

-- A fingerprint of every resource, in order.
def fingerprint (g : Graph) : String :=
  Digest.ofTexts (g.resources.map fun r => Digest.ofText (Json.compact (Resource.codec.write r)))

end Graph

-- Refuses the first resource that has the id of an earlier one.
def checkUnique (seen : Dict Kind) : List Resource → Except CompileError Unit
  | [] => .ok ()
  | r :: rest =>
    match seen.get? r.id with
    | some first => .error (.duplicateResource r.id first r.kind)
    | none => checkUnique ((r.id, r.kind) :: seen) rest

namespace Stack

def compile (s : Stack) : Except CompileError Graph := do
  let expansion ← s.expand
  checkUnique [] expansion.resources
  let resolution ← Resolution.ofResources expansion.resources
  return {
    name := s.name
    description := s.description
    config := s.config
    vars := s.vars
    settings := s.settings
    resources := resolution.order.filterMap fun i => expansion.resources[i]?
    edges := resolution.edges
    pipelines := expansion.pipelines }

end Stack

end Lakehouse
