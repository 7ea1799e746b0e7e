import Lakehouse.Proofs.Codec
import Lakehouse.Proofs.Dict
import Lakehouse.Proofs.Provenance
/-!
Fields of resources. A declaration is written as a whole and then stripped, by a list of keys for each
kind; what is left of it goes by the fields of the resource, is not null, and is not an empty list or
map where these are left out.
-/
namespace Lakehouse

open List Attempt Expansion

variable {c : Context} {d : Declaration} {r owner : Resource} {k : Kind} {j : Job} {p : Pipeline}
variable {g : NodeGraph} {ps more : Properties} {e : String × Value} {key other : String} {v u : Value}

def Value.isEmpty (v : Value) : Bool :=
  v.isEmptyArray || v.isEmptyObject

namespace Kind

-- The keys of a resource's properties. Those of a provider are free.
def fields : Kind → List String
  | provider => []
  | catalog => ["name", "comment", "isolation_mode", "storage_root", "force_destroy"]
  | schema => ["name", "comment", "force_destroy", "catalog_name"]
  | table =>
    ["name", "table_type", "data_source_format", "columns", "comment", "view_definition",
     "storage_location", "catalog_name", "schema_name"]
  | volume => ["name", "volume_type", "storage_location", "comment", "catalog_name", "schema_name"]
  | grants => "grants" :: objectFields.map (·.1)
  | notebook => ["source", "path", "language"]
  | workspaceFile => ["source", "content_base64", "path"]
  | permissions => "access_controls" :: objectFields.map (·.1)
  | job =>
    ["name", "tasks", "parameters", "tags", "schedule", "max_concurrent_runs", "email_notifications",
     "job_clusters"]
  | dltPipeline =>
    ["name", "channel", "development", "continuous", "photon", "serverless", "edition", "clusters",
     "configuration", "notifications", "catalog", "target", "libraries"]
  | group => ["display_name", "allow_cluster_create", "workspace_access", "databricks_sql_access"]
  | user => ["user_name", "display_name", "workspace_access"]
  | servicePrincipal => ["display_name", "application_id"]
  | groupMember => ["group_id", "member_id"]
  | userRole => ["user_id", "role"]
  | servicePrincipalRole => ["service_principal_id", "role"]
  | warehouse =>
    ["name", "cluster_size", "auto_stop_mins", "min_num_clusters", "max_num_clusters",
     "enable_serverless_compute", "warehouse_type", "channel_name", "tags"]
  | vectorSearchEndpoint => ["name", "endpoint_type"]

-- The lists and maps that are left out where they are empty.
def sparse : Kind → List String
  | table => ["columns"]
  | job => ["tasks", "parameters", "tags", "job_clusters"]
  | dltPipeline => ["clusters", "notifications"]
  | _ => []

-- What may stand among the properties of a resource.
structure Admits (k : Kind) (e : String × Value) : Prop where
  field   : e.1 ∈ k.fields
  notNull : e.2.isNull = false
  filled  : e.1 ∈ k.sparse → e.2.isEmpty = false

theorem Admits.entry (hk : key ∈ k.fields ∧ key ∉ k.sparse) (hv : v.isNull = false) :
    k.Admits (key, v) :=
  ⟨hk.left, hv, fun h => absurd h hk.right⟩

theorem Admits.pair (hk : key ∈ k.fields ∧ key ∉ k.sparse) (ho : other ∈ k.fields ∧ other ∉ k.sparse)
    (hv : v.isNull = false) (hu : u.isNull = false) :
    ∀ e ∈ [(key, v), (other, u)], k.Admits e :=
  forall_mem_cons.mpr ⟨.entry hk hv, forall_mem_singleton.mpr <| .entry ho hu⟩

end Kind

namespace Declaration

variable {α τ : Type} {keys without : List String}

theorem mem_properties_iff {codec : Codec α} {a : α} : e ∈ properties codec a without ↔
    e ∈ codec.properties a ∧ e.1 ∉ authoringKeys ++ without ∧ e.2.isNull = false := by
  simp only [properties, strip, Dict.eraseAll, mem_filter, mem_append, not_or, Bool.not_eq_true',
    contains_eq_mem, decide_eq_false_iff_not, and_assoc, and_comm, and_left_comm]

theorem mem_dropEmpty_iff : e ∈ dropEmpty keys ps ↔ e ∈ ps ∧ (e.1 ∈ keys → e.2.isEmpty = false) := by
  simp only [dropEmpty, mem_filter, Bool.not_eq_true', Bool.and_eq_false_imp, contains_eq_mem,
    decide_eq_true_eq, Value.isEmpty]

-- A record keeps some of its fields.
theorem properties_keys {fields : Fields τ} {make : τ → α} {parts : α → τ} {a : α}
    (hk : key ∈ Dict.keys (properties (.record fields make parts) a without)) :
    key ∈ fields.names ∧ key ∉ authoringKeys ++ without := by
  obtain ⟨e, he, rfl⟩ := mem_map.mp hk
  obtain ⟨hw, hk, _⟩ := mem_properties_iff.mp he
  have hm : e.1 ∈ Dict.keys (fields.write (parts a)) := mem_map_of_mem hw
  exact ⟨Fields.write_keys.subset hm, hk⟩

theorem admits_properties {fields : Fields τ} {make : τ → α} {parts : α → τ} {a : α}
    (he : e ∈ properties (.record fields make parts) a without)
    (hf : ∀ key ∈ fields.names, key ∉ authoringKeys ++ without → key ∈ k.fields)
    (hs : e.1 ∈ k.sparse → e.2.isEmpty = false) : k.Admits e := by
  obtain ⟨hn, hk⟩ := properties_keys <| mem_map_of_mem he
  exact ⟨hf _ hn hk, (mem_properties_iff.mp he).right.right, hs⟩

end Declaration

open Declaration

theorem NodeGraph.mem_entryOf {o : Option Value} : e ∈ entryOf key o ↔ ∃ v ∈ o, e = (key, v) := by
  simp [entryOf, eq_comm]

theorem NodeGraph.entryOf_keys {o : Option Value} : Dict.keys (entryOf key o) ⊆ [key] := by
  cases o
  case none => exact nil_subset _
  case some => exact Subset.refl _

theorem Expansion.mem_withPath {path : Option String} (h : e ∈ withPath path ps) :
    e ∈ ps ∨ ∃ p, e = ("path", .string p) := by
  cases path
  case none   => exact .inl h
  case some p => exact (Dict.eq_or_mem_of_mem_insert h).symm.imp id fun he => ⟨p, he⟩

theorem Job.admits_properties : ∀ e ∈ j.properties, Kind.job.Admits e := by
  intro e he
  obtain ⟨he, hs⟩ := mem_dropEmpty_iff.mp he
  obtain he | he := mem_append.mp he
  · exact Declaration.admits_properties he (by decide) hs
  · obtain rfl := mem_singleton.mp he
    have hf : "job_clusters" ∈ Kind.job.fields := by decide
    exact ⟨hf, rfl, hs⟩

theorem Pipeline.admits_dltProperties {o : DltOrchestrator} :
    ∀ e ∈ p.dltProperties c g o, Kind.dltPipeline.Admits e := by
  refine forall_mem_cons.mpr ⟨.entry (by decide) rfl, fun e he => ?_⟩
  obtain ⟨he, hs⟩ := mem_dropEmpty_iff.mp he
  obtain rfl | he := Dict.eq_or_mem_of_mem_insert he
  · exact .entry (by decide) rfl
  obtain rfl | he := Dict.eq_or_mem_of_mem_insert he
  · exact .entry (by decide) rfl
  simp only [mem_append, NodeGraph.mem_entryOf, Option.mem_def, Option.map_eq_some_iff] at he
  obtain (he | ⟨_, ⟨_, _, rfl⟩, rfl⟩) | ⟨_, ⟨_, _, rfl⟩, rfl⟩ := he
  · exact admits_properties he (by decide) hs
  · exact .entry (by decide) rfl
  · exact .entry (by decide) rfl

namespace Expansion

theorem Bound.admits (h : Bound owner r) : ∀ e ∈ r.properties, r.kind.Admits e := by
  have ho : ∀ object ∈ objectFields, object.1 ∈ Kind.permissions.fields ∧
      object.1 ∈ Kind.grants.fields := by decide
  cases h <;> dsimp only [Resource.auxiliary, Expansion.membership, role, Expansion.userRole,
    Expansion.servicePrincipalRole]
  case permissions hf => exact .pair ⟨(ho _ hf).left, nofun⟩ (by decide) rfl rfl
  case grants hf      => exact .pair ⟨(ho _ hf).right, nofun⟩ (by decide) rfl rfl
  case membership | userRole | servicePrincipalRole => exact .pair (by decide) (by decide) rfl rfl

theorem Primary.admits (h : Primary c d r) : ∀ e ∈ r.properties, r.kind.Admits e := by
  cases h <;> dsimp only [Context.primary]
  case group | user | servicePrincipal | catalog | warehouse | vectorSearchEndpoint =>
    exact fun _ he => admits_properties he (by decide) nofun
  case job | pipelineJob => exact Job.admits_properties
  case dltPipeline       => exact Pipeline.admits_dltProperties
  case configFile        => exact .pair (by decide) (by decide) rfl rfl
  case notebook | workspaceFile =>
    intro e he
    obtain he | ⟨_, rfl⟩ := mem_withPath he
    · exact admits_properties he (by decide) nofun
    · exact .entry (by decide) rfl
  case schema =>
    refine forall_mem_append.mpr ⟨fun _ he => admits_properties he (by decide) nofun, ?_⟩
    exact forall_mem_singleton.mpr <| .entry (by decide) rfl
  case table =>
    refine forall_mem_append.mpr ⟨fun e he => ?_, ?_⟩
    · obtain ⟨he, hs⟩ := mem_dropEmpty_iff.mp he
      exact admits_properties he (by decide) hs
    · exact .pair (by decide) (by decide) rfl rfl
  case volume =>
    refine forall_mem_append.mpr ⟨fun _ he => admits_properties he (by decide) nofun, ?_⟩
    exact .pair (by decide) (by decide) rfl rfl

end Expansion

-- Every resource that is not a provider has properties of its kind.
theorem Stack.expand_admits {s : Stack} {x : Expansion} (h : s.expand = .ok x)
    (hr : r ∈ x.resources) (hk : r.kind ≠ .provider) : ∀ e ∈ r.properties, r.kind.Admits e := by
  cases makes_of_expand h hr
  case provider h => exact absurd (provider_ok h).right.left hk
  case primary hp => exact hp.admits
  case bound hb   => exact hb.admits

-- The values that stand under a key are those of which something holds.
def Under (ps : Properties) (key : String) (P : Value → Prop) : Prop :=
  ∀ v, (key, v) ∈ ps ↔ P v

-- One value stands under the key, unless it is empty.
def Filled (ps : Properties) (key : String) (v : Value) : Prop :=
  Under ps key fun w => w = v ∧ w.isEmpty = false

namespace Under

variable {α : Type} {codec : Codec α} {a : α} {keys without : List String} {P : Value → Prop}

theorem single : Under [(key, v)] key (· = v) := by
  simp [Under]

theorem append (h : Under ps key P) (hk : key ∉ Dict.keys more) : Under (ps ++ more) key P := by
  intro w
  have hm : (key, w) ∉ more := fun hm => hk <| mem_map_of_mem hm
  rw [mem_append, or_iff_left hm, h]

theorem of_append (hk : key ∉ Dict.keys ps) (h : Under more key P) : Under (ps ++ more) key P := by
  intro w
  have hm : (key, w) ∉ ps := fun hm => hk <| mem_map_of_mem hm
  rw [mem_append, or_iff_right hm, h]

theorem insert (h : Under ps key P) (hk : key ≠ other) : Under (Dict.insert ps other v) key P :=
  fun w => (Dict.mem_insert_iff_of_ne hk).trans (h w)

theorem properties (h : Under (codec.properties a) key P) (hn : ∀ v, P v → v.isNull = false)
    (hk : key ∉ authoringKeys ++ without) : Under (properties codec a without) key P := by
  intro v
  rw [mem_properties_iff, h]
  exact ⟨And.left, fun hv => ⟨hv, hk, hn v hv⟩⟩

theorem dropEmpty (h : Under ps key P) (hk : key ∈ keys) :
    Under (dropEmpty keys ps) key fun v => P v ∧ v.isEmpty = false := by
  intro v
  rw [mem_dropEmpty_iff, h, forall_prop_of_true hk]

end Under

theorem Table.filled {t : Table} {catalog schema : Parent} :
    Filled (dropEmpty ["columns"] (properties codec t ["grants"]) ++ parentage catalog schema)
      "columns" (Column.codec.list.write t.columns) := by
  have hw : Under (codec.properties t) "columns" (· = Column.codec.list.write t.columns) := by
    simp [Under, codec, Codec.properties, Codec.record, Value.object?, Fields.write, Field.write,
      Field.required, Field.optional, Field.list, Field.default, Grant.field, Options.field]
  refine .append (.dropEmpty (hw.properties ?_ (by decide)) (by decide)) ?_
  · rintro _ rfl
    rfl
  · have hk : "columns" ∉ ["catalog_name", "schema_name"] := by decide
    exact hk

namespace Job

theorem codec_under (j : Job) :
    Under (codec.properties j) "tasks" (· = Task.codec.list.write j.tasks) ∧
    Under (codec.properties j) "parameters" (· = JobParameter.codec.list.write j.parameters) ∧
    Under (codec.properties j) "tags" (· = Codec.text.dict.write j.tags) := by
  simp [Under, codec, Codec.properties, Codec.record, Value.object?, Fields.write, Field.write,
    Field.required, Field.optional, Field.list, Field.dict, Field.default, AccessControl.field,
    Options.field]

theorem filled (h : Under (codec.properties j) key (· = v)) (hn : v.isNull = false)
    (hk : key ∈ ["tasks", "parameters", "tags"]) : Filled j.properties key v := by
  have ho : ∀ key ∈ ["tasks", "parameters", "tags"],
      key ∉ authoringKeys ++ ["clusters", "access_controls"] ∧ key ∉ ["job_clusters"] ∧
        key ∈ ["tasks", "parameters", "tags", "job_clusters"] := by decide
  obtain ⟨hw, hc, hs⟩ := ho key hk
  exact .dropEmpty (.append (h.properties (fun _ he => he ▸ hn) hw) hc) hs

-- The clusters are under another key than that of the declaration.
theorem filled_clusters :
    Filled j.properties "job_clusters" (.array (j.clusters.map clusterEntry)) := by
  refine .dropEmpty (.of_append (fun hk => ?_) .single) (by decide)
  exact absurd (properties_keys hk).left (by decide)

end Job

namespace DltOrchestrator

variable {o : DltOrchestrator}

theorem codec_under (o : DltOrchestrator) :
    Under (codec.properties o) "clusters" (· = .array o.clusters) ∧
    Under (codec.properties o) "notifications" (· = .array o.notifications) := by
  simp [Under, codec, Codec.properties, Codec.record, Value.object?, Fields.write, Field.write,
    Field.optional, Field.list, Field.dict, Field.default, Codec.list, Codec.free]

theorem filled (h : Under (codec.properties o) key (· = v)) (hn : v.isNull = false)
    (hk : key ∈ ["clusters", "notifications"]) : Filled (p.dltProperties c g o) key v := by
  have ho : ∀ key ∈ ["clusters", "notifications"], key ∉ authoringKeys ++ [] ∧
      key ∉ ["catalog"] ∧ key ∉ ["target"] ∧ key ≠ "configuration" ∧ key ≠ "libraries" ∧
        key ∉ ["name"] := by decide
  obtain ⟨hw, hc, ht, hf, hl, hm⟩ := ho key hk
  have hm : key ∉ Dict.keys [("name", Value.string p.name)] := hm
  have hp : Under (Declaration.properties codec o [] ++
      NodeGraph.entryOf "catalog" (p.catalog.map .string) ++
      NodeGraph.entryOf "target" (p.target.map .string)) key (· = v) :=
    (h.properties (fun _ he => he ▸ hn) hw).append (mt (NodeGraph.entryOf_keys ·) hc) |>.append
      (mt (NodeGraph.entryOf_keys ·) ht)
  exact .of_append hm (hp.insert hf |>.insert hl |>.dropEmpty hk)

end DltOrchestrator

end Lakehouse
