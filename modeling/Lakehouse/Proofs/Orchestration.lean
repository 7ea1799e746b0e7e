import Lakehouse.Expansion.Pipeline
import Lakehouse.Proofs.Job
import Lakehouse.Proofs.NodeGraph
import Lakehouse.Stack.Validation
/-!
Jobs of pipelines. The nodes of a graph become tasks that wait for each other as the nodes read each
other, so the job of a pipeline is valid whenever its graph can be built and its cluster is there.
-/
namespace Lakehouse

open List Attempt

variable {s : Stack} {p : Pipeline} {o : JobOrchestrator} {g : NodeGraph} {c : Context}
variable {settings : Settings} {order : List Nat} {a b : String}

namespace NodeGraph

theorem taskKey_inj : taskKey a = taskKey b ↔ a = b :=
  String.append_right_inj _

theorem taskKey_ne_empty (name : String) : taskKey name ≠ "" := by
  simp [taskKey]

end NodeGraph

theorem Stack.violations_pipeline (h : s.violations = []) (hp : p ∈ s.resources.pipelines) :
    p.violations = [] := by
  simp only [violations, append_eq_nil_iff, flatMap_eq_nil_iff] at h
  exact h.left.left.right p hp

-- All tasks are to run on a cluster of the orchestrator.
def JobOrchestrator.Clustered (o : JobOrchestrator) : Prop :=
  ∀ key, o.clusterKey? = some key → ∃ x ∈ o.clusters, x.name = key

namespace Pipeline

theorem clustered (h : p.violations = []) (ho : p.orchestrator = .job o) : o.Clustered := by
  intro key hk
  simp only [JobOrchestrator.clusterKey?] at hk
  split at hk
  case h_1 named hn =>
    cases hk
    simpa [ho, hn, Option.filter, violations] using (append_eq_nil_iff.mp h).right
  case h_2 =>
    have ⟨x, hx, he⟩ := Option.map_eq_some_iff.mp hk
    exact ⟨x, mem_of_head? hx, he⟩

theorem taskKeys_job : (p.job c g o).taskKeys = (g.nodes.map (·.name)).map NodeGraph.taskKey := by
  simp [Job.taskKeys, job, NodeGraph.tasks, NodeGraph.task, Function.comp_def]

theorem waits_job : (p.job c g o).Waits (NodeGraph.taskKey a) b ↔
    ∃ n ∈ g.nodes, n.name = a ∧ ∃ name ∈ n.feeders, NodeGraph.taskKey name = b := by
  simp [Job.Waits, job, NodeGraph.tasks, NodeGraph.task, NodeGraph.taskKey_inj]

-- Tasks come in the order of the nodes, so none waits for itself.
theorem Built.acyclic_waits (b : p.Built settings order g) : Acyclic (p.job c g o).Waits := by
  have ho : Ordered (p.job c g o).Waits (p.job c g o).taskKeys := by
    rw [taskKeys_job, ← filterMap_eq_map]
    apply b.ordered.filterMap
    intro x _ key hx key' hw
    cases hx
    have ⟨n, hn, hx, name, hf, hk⟩ := waits_job.mp hw
    exact ⟨name, hx ▸ b.reads hn hf, congrArg some hk⟩
  exact ho.acyclic fun _ _ ⟨t, ht, hk, _⟩ => hk ▸ mem_map_of_mem ht

theorem Built.job_valid (b : p.Built settings order g) (hc : o.Clustered) :
    (p.job c g o).Valid where
  keyed     := forall_mem_map.mpr fun n _ => NodeGraph.taskKey_ne_empty n.name
  distinct  := by
    rw [taskKeys_job]
    exact b.nodup_names.map fun _ _ => NodeGraph.taskKey_inj.mp
  known     := by
    rw [taskKeys_job]
    refine forall_mem_map.mpr fun n hn => forall_mem_map.mpr fun name hf => ?_
    exact mem_map_of_mem <| b.ordered.mem (mem_map_of_mem hn) (b.reads hn hf)
  clustered := forall_mem_map.mpr fun _ _ => hc
  acyclic   := b.acyclic_waits

-- The configuration file is given to those who have permissions on the pipeline.
theorem configFile_isOk_iff :
    (∃ rs, p.configFile c g = .ok rs) ↔ ∀ a ∈ p.accessControls, a.NamesOne := by
  have hm : (∀ a ∈ p.accessControls.map (·.withLevel "CAN_READ"), a.NamesOne) ↔
      ∀ a ∈ p.accessControls, a.NamesOne := by
    simp only [forall_mem_map, AccessControl.namesOne_withLevel]
  rw [← hm, ← Expansion.withPermissions_isOk_iff]
  rfl

theorem expandWith_isOk_iff (ho : p.orchestrator = .job o) (hv : (p.job c g o).Valid) :
    (∃ rs, p.expandWith c g = .ok rs) ↔ ∀ a ∈ p.accessControls ++ o.accessControls, a.NamesOne := by
  have hj : (∃ rs, (p.job c g o).expand c = .ok rs) ↔
      ∀ a ∈ p.accessControls ++ o.accessControls, a.NamesOne := by
    rw [Job.expand_isOk_iff, and_iff_right hv]
    rfl
  simp only [expandWith, ho, bind_ok_iff]
  rw [← hj]
  constructor
  case mp => exact fun ⟨_, own, h, _⟩ => ⟨own, h⟩
  case mpr =>
    intro ⟨own, h⟩
    have ha := forall_mem_append.mp (hj.mp ⟨own, h⟩) |>.left
    have ⟨file, hf⟩ : ∃ rs, p.configFile c g = .ok rs := configFile_isOk_iff.mpr ha
    exact ⟨_, own, h, file, hf, rfl⟩

end Pipeline

-- The job of a pipeline is valid; nothing but access controls keeps the pipeline from being expanded.
theorem Stack.pipeline_job_valid (hs : s.violations = []) (hp : p ∈ s.resources.pipelines)
    (ho : p.orchestrator = .job o) (hg : p.graph s.settings = .ok g) (c : Context) :
    (p.job c g o).Valid ∧ (p.job c g o).check = .ok () ∧
      ((∃ e, p.expandWith c g = .error e) ↔
        ∃ a ∈ p.accessControls ++ o.accessControls, ¬a.NamesOne) := by
  have ⟨order, b⟩ := Pipeline.graph_ok_iff.mp hg
  have hv := b.job_valid (c := c) <| Pipeline.clustered (violations_pipeline hs hp) ho
  refine ⟨hv, Job.check_ok_iff.mpr hv, ?_⟩
  rw [isError_iff, Pipeline.expandWith_isOk_iff ho hv]
  simp only [not_forall, exists_prop]

def clusteredJob : JobOrchestrator :=
  { (default : JobOrchestrator) with
    clusters       := [⟨"main", []⟩]
    accessControls := [⟨some "ops", some "ada", none, "CAN_VIEW"⟩] }

-- The first node reads the one after it, and the last one reads both.
def salesPipeline : Pipeline :=
  { (default : Pipeline) with
    name                   := "sales"
    target                 := some "sales"
    orchestrator           := .job clusteredJob
    nodes                  := [
      ⟨"slv", .node ⟨"brz", true, none, none⟩, [], some { (default : TableSink) with
        tableName := some "slv_orders" }, none, none⟩,
      ⟨"brz", .event ⟨"orders", none, none, none, true⟩, [], some { (default : TableSink) with
        tableName := some "brz_orders" }, none, none⟩,
      ⟨"gld", .node ⟨"slv", false, none, none⟩, [⟨.node ⟨"brz", false, none, none⟩, ["id"], none⟩],
        none, none, none⟩]
    accessControls         := [⟨some "team", none, none, "CAN_VIEW"⟩]
    allowForwardReferences := true }

def salesStack : Stack :=
  { (default : Stack) with
    name := "sales", resources := { (default : Sections) with pipelines := [salesPipeline] } }

theorem pipeline_job_valid_sales : ∃ g, salesStack.violations = [] ∧
    salesPipeline ∈ salesStack.resources.pipelines ∧ salesPipeline.orchestrator = .job clusteredJob ∧
      salesPipeline.graph salesStack.settings = .ok g ∧
      g.nodes.map (·.name) = ["brz", "slv", "gld"] ∧
        ∀ c, (salesPipeline.job c g clusteredJob).Valid ∧
          (salesPipeline.job c g clusteredJob).check = .ok () ∧
            ((∃ e, salesPipeline.expandWith c g = .error e) ↔
              ∃ a ∈ salesPipeline.accessControls ++ clusteredJob.accessControls, ¬a.NamesOne) := by
  let g := salesPipeline.graph salesStack.settings |>.toOption.getD default
  have hs : salesStack.violations = [] := by decide +kernel
  have hp : salesPipeline ∈ salesStack.resources.pipelines := mem_singleton_self _
  have hg : salesPipeline.graph salesStack.settings = .ok g := eq_ok_of_isSome (by decide +kernel)
  exact ⟨g, hs, hp, rfl, hg, by decide +kernel, Stack.pipeline_job_valid hs hp rfl hg⟩

end Lakehouse
