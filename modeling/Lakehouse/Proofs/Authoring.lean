import Lakehouse.Proofs.Hierarchy
/-!
What is for authors only. Of a declaration with all that is nested in it, the resources keep neither
its name for the compiler, nor its options, nor what becomes resources of their own; the lists and maps
that an author left empty are no properties.
-/
namespace Lakehouse

open List Expansion

variable {s : Stack} {x : Expansion} {r : Resource} {j : Job} {p : Pipeline}

-- The fields of declarations that no resource has.
def Declaration.withheld : List String :=
  ["resource_name", "options", "dirpath", "schemas", "tables", "volumes", "group_ids", "roles"]

-- What the properties of a resource are like.
structure Resource.Published (r : Resource) : Prop where
  fields         : ∀ key ∈ Dict.keys r.properties, key ∈ r.kind.fields
  notNull        : ∀ e ∈ r.properties, e.2 ≠ .null
  withheld       : ∀ key ∈ Dict.keys r.properties, key ∉ Declaration.withheld
  accessControls : "access_controls" ∈ Dict.keys r.properties → r.kind = .permissions
  grants         : "grants" ∈ Dict.keys r.properties → r.kind = .grants
  clusters       : r.kind = .job → "clusters" ∉ Dict.keys r.properties
  filled         : ∀ e ∈ r.properties, e.1 ∈ r.kind.sparse → e.2.isEmpty = false

-- No kind has the fields that are withheld, and two of them are for one kind only.
theorem Kind.fields_published (k : Kind) : (∀ key ∈ k.fields, key ∉ Declaration.withheld) ∧
    ("access_controls" ∈ k.fields → k = .permissions) ∧ ("grants" ∈ k.fields → k = .grants) ∧
    (k = .job → "clusters" ∉ k.fields) := by
  cases k <;> decide

theorem Resource.Published.of_admits (h : ∀ e ∈ r.properties, r.kind.Admits e) : r.Published := by
  have hf : ∀ key ∈ Dict.keys r.properties, key ∈ r.kind.fields :=
    forall_mem_map.mpr fun e he => (h e he).field
  obtain ⟨hw, ha, hg, hc⟩ := r.kind.fields_published
  exact {
    fields         := hf
    notNull        := fun e he hn => by simpa [hn, Value.isNull] using (h e he).notNull
    withheld       := fun key hk => hw key (hf key hk)
    accessControls := fun hk => ha (hf _ hk)
    grants         := fun hk => hg (hf _ hk)
    clusters       := fun hk hm => hc hk (hf _ hm)
    filled         := fun e he => (h e he).filled }

-- The jobs of a stack: those that are declared, and those that run pipelines.
inductive Stack.Runs (s : Stack) : Job → Prop where
  | declared {j : Job} (hj : j ∈ s.resources.jobs) : Runs s j
  | orchestrated {p : Pipeline} {g : NodeGraph} {o : JobOrchestrator} (hp : p ∈ s.resources.pipelines)
    (hg : p.graph s.settings = .ok g) (ho : p.orchestrator = .job o) : Runs s (p.job s.context g o)

-- The lists and maps that may be left empty: the resource, the key and the value that are written.
inductive Stack.Collects (s : Stack) : String × Kind → String → Value → Prop where
  | columns {d : Catalog} {y : Schema} {t : Table} (hd : d ∈ s.resources.catalogs)
    (hy : y ∈ d.schemas) (ht : t ∈ y.tables) :
    Collects s (Ident.derive t.resourceName "table" s!"{d.name}.{y.name}.{t.name}", .table)
      "columns" (Column.codec.list.write t.columns)
  | tasks {j : Job} (hj : s.Runs j) :
    Collects s (j.id, .job) "tasks" (Task.codec.list.write j.tasks)
  | parameters {j : Job} (hj : s.Runs j) :
    Collects s (j.id, .job) "parameters" (JobParameter.codec.list.write j.parameters)
  | tags {j : Job} (hj : s.Runs j) :
    Collects s (j.id, .job) "tags" (Codec.text.dict.write j.tags)
  -- They are written under another key than they are declared.
  | jobClusters {j : Job} (hj : s.Runs j) :
    Collects s (j.id, .job) "job_clusters" (.array (j.clusters.map Job.clusterEntry))
  | clusters {p : Pipeline} {o : DltOrchestrator} (hp : p ∈ s.resources.pipelines)
    (ho : p.orchestrator = .dlt o) :
    Collects s (p.id, .dltPipeline) "clusters" (.array o.clusters)
  | notifications {p : Pipeline} {o : DltOrchestrator} (hp : p ∈ s.resources.pipelines)
    (ho : p.orchestrator = .dlt o) :
    Collects s (p.id, .dltPipeline) "notifications" (.array o.notifications)

namespace Stack

theorem Runs.mem_resources (h : s.Runs j) (hx : s.expand = .ok x) :
    s.context.primary j.id .job j.properties j.options ∈ x.resources := by
  cases h
  case declared hj =>
    have hd : .job j ∈ s.resources.declarations := by simp [Sections.declarations, hj]
    obtain ⟨part, he, hs, _⟩ := exists_part hx hd
    exact hs (Job.expand_family <| ofDeclaration_ok he).owner_mem
  case orchestrated p g o hp hg ho =>
    obtain ⟨g', part⟩ := exists_pipeline_part hx hp
    cases hg.symm.trans part.graph
    have hr := part.primary_mem
    rwa [Pipeline.primaryKind, Pipeline.primaryProperties, ho] at hr

theorem exists_dlt {o : DltOrchestrator} (hx : s.expand = .ok x) (hp : p ∈ s.resources.pipelines)
    (ho : p.orchestrator = .dlt o) : ∃ r ∈ x.resources, r.label = (p.id, .dltPipeline) ∧
      ∃ g, r.properties = p.dltProperties s.context g o := by
  obtain ⟨g, part⟩ := exists_pipeline_part hx hp
  have hr := part.primary_mem
  rw [Pipeline.primaryKind, Pipeline.primaryProperties, ho] at hr
  exact ⟨_, hr, rfl, g, rfl⟩

end Stack

-- What an expansion of the stack publishes.
structure Expansion.Published (s : Stack) (x : Expansion) : Prop where
  resources   : ∀ r ∈ x.resources, r.kind ≠ .provider → r.Published
  collections : ∀ label key v, s.Collects label key v →
    ∃ r ∈ x.resources, r.label = label ∧ Filled r.properties key v

theorem Stack.expand_published (h : s.expand = .ok x) : x.Published s := by
  refine ⟨fun r hr hk => .of_admits <| expand_admits h hr hk, fun label key v hc => ?_⟩
  cases hc
  case columns hd hy ht => exact ⟨_, mem_of_primary h hd (.table hy ht), rfl, Table.filled⟩
  case tasks j hj =>
    exact ⟨_, hj.mem_resources h, rfl, Job.filled j.codec_under.left rfl (by decide)⟩
  case parameters j hj =>
    exact ⟨_, hj.mem_resources h, rfl, Job.filled j.codec_under.right.left rfl (by decide)⟩
  case tags j hj =>
    exact ⟨_, hj.mem_resources h, rfl, Job.filled j.codec_under.right.right rfl (by decide)⟩
  case jobClusters j hj => exact ⟨_, hj.mem_resources h, rfl, Job.filled_clusters⟩
  case clusters o hp ho =>
    obtain ⟨r, hr, hl, g, he⟩ := exists_dlt h hp ho
    exact ⟨r, hr, hl, he ▸ o.filled o.codec_under.left rfl (by decide)⟩
  case notifications o hp ho =>
    obtain ⟨r, hr, hl, g, he⟩ := exists_dlt h hp ho
    exact ⟨r, hr, hl, he ▸ o.filled o.codec_under.right rfl (by decide)⟩

-- Lists and maps that are left empty, next to all that is withheld.
def leftEmpty : Stack :=
  let table : Table := { (default : Table) with name := "t", grants := [⟨"team", ["SELECT"]⟩] }
  let volume : Volume := { (default : Volume) with name := "v", volumeType := "MANAGED" }
  let schema : Schema := { (default : Schema) with
    name := "s", resourceName := "landing", tables := [table], volumes := [volume] }
  let control : AccessControl := { (default : AccessControl) with
    groupName := "team", level := "CAN_READ" }
  { (default : Stack) with
    resources := { (default : Sections) with
      catalogs := [{ (default : Catalog) with name := "c", schemas := [schema] }]
      users := [{ (default : User) with userName := "u", groupIds := ["g"], roles := ["r"] }]
      notebooks := [{ (default : Notebook) with
        source := "n.py", directory := "/shared", accessControls := [control] }]
      jobs := [{ (default : Job) with name := "j" }]
      pipelines := [{ (default : Pipeline) with name := "p" }] } }

theorem expand_published_leftEmpty :
    ∃ x, leftEmpty.expand = .ok x ∧ x.Published leftEmpty := by
  let x := leftEmpty.expand.toOption.getD default
  have hx : leftEmpty.expand = .ok x := Attempt.eq_ok_of_isSome (by decide +kernel)
  exact ⟨x, hx, Stack.expand_published hx⟩

end Lakehouse
