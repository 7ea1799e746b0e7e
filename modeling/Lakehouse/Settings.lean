import Lakehouse.Codec

namespace Lakehouse

-- The engine that reads a table.
inductive Warehouse where
  | databricks
  deriving DecidableEq, Repr, Inhabited

namespace Warehouse

def word : Warehouse → String
  | databricks => "DATABRICKS"

def codec : Codec Warehouse := .choice [databricks] word

end Warehouse

structure Settings where
  -- Workspace directory of generated files, with its final slash.
  workspaceRoot : String
  -- Where raw event files land, with its final slash.
  landingRoot : String
  defaultProvider : Option String
  defaultWarehouse : Warehouse
  dltRunnerPath : Option String
  jobRunnerPath : Option String
  deleteBeforeReplace : Bool
  deriving DecidableEq, Repr

namespace Settings

def initial : Settings where
  workspaceRoot := "/.laktory/"
  landingRoot := "/mnt/landing/"
  defaultProvider := none
  defaultWarehouse := .databricks
  dltRunnerPath := none
  jobRunnerPath := none
  deleteBeforeReplace := true

instance : Inhabited Settings := ⟨initial⟩

def codec : Codec Settings :=
  .record
    (.cons (.default "workspace_root" .text initial.workspaceRoot) <|
     .cons (.default "landing_root" .text initial.landingRoot) <|
     .cons (.optional "default_provider" .text) <|
     .cons (.default "default_warehouse" Warehouse.codec initial.defaultWarehouse) <|
     .cons (.optional "dlt_runner_path" .text) <|
     .cons (.optional "job_runner_path" .text) <|
     .cons (.default "delete_before_replace" .flag initial.deleteBeforeReplace) .nil)
    (fun (workspaceRoot, landingRoot, defaultProvider, defaultWarehouse, dltRunnerPath,
        jobRunnerPath, deleteBeforeReplace, ()) =>
      { workspaceRoot, landingRoot, defaultProvider, defaultWarehouse, dltRunnerPath,
        jobRunnerPath, deleteBeforeReplace })
    (fun s => (s.workspaceRoot, s.landingRoot, s.defaultProvider, s.defaultWarehouse,
      s.dltRunnerPath, s.jobRunnerPath, s.deleteBeforeReplace, ()))

-- The notebook that runs a continuous pipeline.
def dltRunner (s : Settings) : String :=
  s.dltRunnerPath.getD (s.workspaceRoot ++ "pipelines/dlt_laktory_pl.py")

-- The notebook that runs one node of a pipeline as a task of a job.
def jobRunner (s : Settings) : String :=
  s.jobRunnerPath.getD (s.workspaceRoot ++ "jobs/job_laktory_pl.py")

end Settings

-- What happens to the object of a resource that is taken out of the stack.
inductive DeletionPolicy where
  | delete
  | retain
  deriving DecidableEq, Repr, Inhabited

namespace DeletionPolicy

def word : DeletionPolicy → String
  | delete => "DELETE"
  | retain => "RETAIN"

def codec : Codec DeletionPolicy := .choice [delete, retain] word

end DeletionPolicy

structure Options where
  -- Ids or placeholders of resources that come first.
  dependsOn : List String
  provider : Option String
  deletionPolicy : DeletionPolicy
  deleteBeforeReplace : Option Bool
  deriving DecidableEq, Repr

namespace Options

def none : Options := ⟨[], .none, .delete, .none⟩

instance : Inhabited Options := ⟨none⟩

def codec : Codec Options :=
  .record
    (.cons (.list "depends_on" .text) <|
     .cons (.optional "provider" .text) <|
     .cons (.default "deletion_policy" DeletionPolicy.codec .delete) <|
     .cons (.optional "delete_before_replace" .flag) .nil)
    (fun (dependsOn, provider, deletionPolicy, deleteBeforeReplace, ()) =>
      { dependsOn, provider, deletionPolicy, deleteBeforeReplace })
    (fun o => (o.dependsOn, o.provider, o.deletionPolicy, o.deleteBeforeReplace, ()))

-- The field that declarations keep their options in.
def field : Field Options := .default "options" codec none

end Options

end Lakehouse
