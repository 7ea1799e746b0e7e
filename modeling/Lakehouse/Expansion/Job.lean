import Lakehouse.Declaration.Job
import Lakehouse.Dependency.Order
import Lakehouse.Expansion.Access

namespace Lakehouse.Job

def id (j : Job) : String := Ident.derive j.resourceName "job" j.name

-- The first task, after those with the given keys, that has no key or one that was used before.
def keyFlaw? (seen : List String) : List Task → Option Flaw
  | [] => none
  | t :: rest =>
    if t.key.isEmpty then some .emptyTaskKey
    else if seen.contains t.key then some (.repeatedTaskKey t.key)
    else keyFlaw? (t.key :: seen) rest

-- What a task names and the job does not have: another task, or else a cluster.
def nameFlaw? (j : Job) (t : Task) : Option Flaw :=
  let known := j.tasks.map (·.key)
  let dependency := t.dependsOns.find? fun d => !known.contains d.key
  let cluster := t.jobClusterKey.filter fun key => !j.clusters.any (·.name == key)
  (dependency.map fun d => Flaw.unknownTask t.key d.key).or
    (cluster.map fun key => Flaw.unknownCluster t.key key)

def flaw? (j : Job) : Option Flaw := (keyFlaw? [] j.tasks).or (j.tasks.findSome? j.nameFlaw?)

-- Which task comes after which, by their places.
def taskPairs (j : Job) : List Order.Pair :=
  j.tasks.zipIdx.flatMap fun (t, i) =>
    t.dependsOns.filterMap fun d => (j.tasks.findIdx? (·.key == d.key)).map fun k => (i, k)

def check (j : Job) : Except CompileError Unit :=
  match j.flaw? with
  | some flaw => .error (.invalidDeclaration j.id flaw)
  | none =>
    match Order.sort j.tasks.length j.taskPairs with
    | .ok _ => .ok ()
    | .error cycle =>
      .error (.cyclicDependency (.tasks j.id) (cycle.filterMap fun i => j.tasks[i]?.map (·.key)))

def clusterEntry (c : Cluster) : Value :=
  .object [("job_cluster_key", .string c.name), ("new_cluster", .object c.spec)]

-- Clusters are written under a name of their own, and empty lists are left out.
def properties (j : Job) : Properties :=
  Declaration.dropEmpty ["tasks", "parameters", "tags", "job_clusters"]
    (Declaration.properties codec j ["clusters", "access_controls"] ++
      [("job_clusters", .array (j.clusters.map clusterEntry))])

def expand (c : Context) (j : Job) : Except CompileError (List Resource) := do
  j.check
  let primary := c.primary j.id .job j.properties j.options
  return primary :: (← Expansion.permissions primary "job_id" "id" j.accessControls)

end Lakehouse.Job
