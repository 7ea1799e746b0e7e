import Lakehouse.Declaration.Access
import Lakehouse.Settings

namespace Lakehouse

-- A named cluster; all else is its specification, which is passed through.
structure Cluster where
  name : String
  spec : Properties
  deriving Repr, Inhabited

def Cluster.codec : Codec Cluster :=
  .openRecord (.cons (.required "name" .text) .nil)
    (fun (name, ()) spec => { name, spec }) (fun c => ((c.name, ()), c.spec))

structure TaskDependency where
  key : String
  deriving DecidableEq, Repr, Inhabited

def TaskDependency.codec : Codec TaskDependency :=
  .record (.cons (.required "task_key" .text) .nil) (fun (key, ()) => { key }) (fun d => (d.key, ()))

structure NotebookTask where
  path : String
  parameters : Dict String
  deriving DecidableEq, Repr, Inhabited

def NotebookTask.codec : Codec NotebookTask :=
  .record
    (.cons (.required "notebook_path" .text) <|
     .cons (.sparseDict "base_parameters" .text) .nil)
    (fun (path, parameters, ()) => { path, parameters })
    (fun t => (t.path, t.parameters, ()))

structure PipelineTask where
  pipelineId : String
  deriving DecidableEq, Repr, Inhabited

def PipelineTask.codec : Codec PipelineTask :=
  .record (.cons (.required "pipeline_id" .text) .nil)
    (fun (pipelineId, ()) => { pipelineId }) (fun t => (t.pipelineId, ()))

structure PypiLibrary where
  package : String
  repo : Option String
  deriving DecidableEq, Repr, Inhabited

def PypiLibrary.codec : Codec PypiLibrary :=
  .record
    (.cons (.required "package" .text) <|
     .cons (.sparse "repo" .text) .nil)
    (fun (package, repo, ()) => { package, repo })
    (fun l => (l.package, l.repo, ()))

structure Library where
  pypi : Option PypiLibrary
  whl : Option String
  deriving DecidableEq, Repr, Inhabited

def Library.codec : Codec Library :=
  .record
    (.cons (.sparse "pypi" PypiLibrary.codec) <|
     .cons (.sparse "whl" .text) .nil)
    (fun (pypi, whl, ()) => { pypi, whl })
    (fun l => (l.pypi, l.whl, ()))

structure Task where
  key : String
  description : Option String
  dependsOns : List TaskDependency
  jobClusterKey : Option String
  existingClusterId : Option String
  notebookTask : Option NotebookTask
  pipelineTask : Option PipelineTask
  libraries : List Library
  timeoutSeconds : Option UInt32
  maxRetries : Option UInt32
  deriving DecidableEq, Repr, Inhabited

def Task.codec : Codec Task :=
  .record
    (.cons (.required "task_key" .text) <|
     .cons (.sparse "description" .text) <|
     .cons (.sparseList "depends_ons" TaskDependency.codec) <|
     .cons (.sparse "job_cluster_key" .text) <|
     .cons (.sparse "existing_cluster_id" .text) <|
     .cons (.sparse "notebook_task" NotebookTask.codec) <|
     .cons (.sparse "pipeline_task" PipelineTask.codec) <|
     .cons (.sparseList "libraries" Library.codec) <|
     .cons (.sparse "timeout_seconds" .count) <|
     .cons (.sparse "max_retries" .count) .nil)
    (fun (key, description, dependsOns, jobClusterKey, existingClusterId, notebookTask,
        pipelineTask, libraries, timeoutSeconds, maxRetries, ()) =>
      { key, description, dependsOns, jobClusterKey, existingClusterId, notebookTask,
        pipelineTask, libraries, timeoutSeconds, maxRetries })
    (fun t => (t.key, t.description, t.dependsOns, t.jobClusterKey, t.existingClusterId,
      t.notebookTask, t.pipelineTask, t.libraries, t.timeoutSeconds, t.maxRetries, ()))

structure JobParameter where
  name : String
  value : String
  deriving DecidableEq, Repr, Inhabited

def JobParameter.codec : Codec JobParameter :=
  .record
    (.cons (.required "name" .text) <|
     .cons (.required "default" .text) .nil)
    (fun (name, value, ()) => { name, value })
    (fun p => (p.name, p.value, ()))

structure Job where
  name : String
  clusters : List Cluster
  tasks : List Task
  parameters : List JobParameter
  tags : Dict String
  schedule : Option Value
  maxConcurrentRuns : Option UInt32
  emailNotifications : Option Value
  accessControls : List AccessControl
  resourceName : Option String
  options : Options
  deriving Repr, Inhabited

def Job.codec : Codec Job :=
  .record
    (.cons (.required "name" .text) <|
     .cons (.list "clusters" Cluster.codec) <|
     .cons (.list "tasks" Task.codec) <|
     .cons (.list "parameters" JobParameter.codec) <|
     .cons (.dict "tags" .text) <|
     .cons (.optional "schedule" .free) <|
     .cons (.optional "max_concurrent_runs" .count) <|
     .cons (.optional "email_notifications" .free) <|
     .cons AccessControl.field <|
     .cons (.optional "resource_name" .text) <|
     .cons Options.field .nil)
    (fun (name, clusters, tasks, parameters, tags, schedule, maxConcurrentRuns, emailNotifications,
        accessControls, resourceName, options, ()) =>
      { name, clusters, tasks, parameters, tags, schedule, maxConcurrentRuns, emailNotifications,
        accessControls, resourceName, options })
    (fun j => (j.name, j.clusters, j.tasks, j.parameters, j.tags, j.schedule, j.maxConcurrentRuns,
      j.emailNotifications, j.accessControls, j.resourceName, j.options, ()))

end Lakehouse
