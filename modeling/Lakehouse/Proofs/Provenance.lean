import Lakehouse.Expansion
import Lakehouse.Proofs.Attempt

namespace Lakehouse

open List Attempt

variable {c : Context} {d : Declaration} {r owner : Resource} {rs rest : List Resource}
variable {field attr : String}

namespace Resource

-- How an auxiliary resource of some kind is named after its owner.
inductive IdOf (owner : String) : Kind → String → Prop where
  | permissions : IdOf owner .permissions s!"permissions-{owner}"
  | grants : IdOf owner .grants s!"grants-{owner}"
  | membership (group : String) :
    IdOf owner .groupMember s!"group-member-{owner}-{Ident.key group}"
  | userRole (name : String) : IdOf owner .userRole s!"user-role-{owner}-{Ident.key name}"
  | servicePrincipalRole (name : String) :
    IdOf owner .servicePrincipalRole s!"service-principal-role-{owner}-{Ident.key name}"

-- What binds an auxiliary resource to its owner.
structure BoundTo (r p : Resource) : Prop where
  owner               : r.owner = some p.id
  provider            : r.provider = p.provider
  dependsOn           : r.dependsOn = []
  deletionPolicy      : r.deletionPolicy = .delete
  deleteBeforeReplace : r.deleteBeforeReplace = p.deleteBeforeReplace
  id                  : IdOf p.id r.kind r.id

end Resource

namespace Expansion

-- What holds the schemas of a catalog, and the tables and volumes of a schema.
def catalogParent (d : Catalog) : Parent :=
  ⟨d.name, Ident.derive d.resourceName "catalog" d.name⟩

def schemaParent (d : Catalog) (s : Schema) : Parent :=
  ⟨s.name, Ident.derive s.resourceName "schema" s!"{d.name}.{s.name}"⟩

-- The fields by which permissions and grants tell what they are for, each with the attribute that
-- stands there.
def objectFields : List (String × String) :=
  [("notebook_path", "path"), ("workspace_file_path", "path"), ("sql_endpoint_id", "id"),
   ("job_id", "id"), ("pipeline_id", "id"), ("catalog", "name"), ("schema", "id"), ("table", "id"),
   ("volume", "id")]

inductive Bound (owner : Resource) : Resource → Prop where
  | permissions {field attr : String} {controls : List AccessControl}
    (hf : (field, attr) ∈ objectFields) :
    Bound owner <| .auxiliary ("permissions-" ++ owner.id) .permissions
      [(field, .string (Placeholder.attr owner.id attr)),
       ("access_controls", AccessControl.codec.list.write controls)] owner
  | grants {field attr : String} {gs : List Grant} (hf : (field, attr) ∈ objectFields) :
    Bound owner <| .auxiliary ("grants-" ++ owner.id) .grants
      [(field, .string (Placeholder.attr owner.id attr)),
       ("grants", Grant.codec.list.write gs)] owner
  | membership {groupId : String} : Bound owner (membership owner groupId)
  | userRole {name : String} : Bound owner (role userRole owner name)
  | servicePrincipalRole {name : String} : Bound owner (role servicePrincipalRole owner name)

open Declaration in
-- The primary resources of a declaration, and of all that is nested in it.
inductive Primary (c : Context) : Declaration → Resource → Prop where
  | group {d : Group} : Primary c (.group d) <|
    c.primary (Ident.derive d.resourceName "group" d.displayName) .group
      (properties Group.codec d []) d.options
  | user {d : User} : Primary c (.user d) <|
    c.primary (Ident.derive d.resourceName "user" d.userName) .user
      (properties User.codec d ["group_ids", "roles"]) d.options
  | servicePrincipal {d : ServicePrincipal} : Primary c (.servicePrincipal d) <|
    c.primary (Ident.derive d.resourceName "service-principal" d.displayName) .servicePrincipal
      (properties ServicePrincipal.codec d ["group_ids", "roles"]) d.options
  | catalog {d : Catalog} : Primary c (.catalog d) <|
    c.primary (catalogParent d).id .catalog (properties Catalog.codec d ["grants", "schemas"])
      d.options
  | schema {d : Catalog} {s : Schema} (hs : s ∈ d.schemas) : Primary c (.catalog d) <|
    c.primary (schemaParent d s).id .schema
      (properties Schema.codec s ["grants", "tables", "volumes"] ++
        [("catalog_name", (catalogParent d).reference)]) s.options
  | table {d : Catalog} {s : Schema} {t : Table} (hs : s ∈ d.schemas) (ht : t ∈ s.tables) :
    Primary c (.catalog d) <|
    c.primary (Ident.derive t.resourceName "table" s!"{d.name}.{s.name}.{t.name}") .table
      (dropEmpty ["columns"] (properties Table.codec t ["grants"]) ++
        parentage (catalogParent d) (schemaParent d s)) t.options
  | volume {d : Catalog} {s : Schema} {v : Volume} (hs : s ∈ d.schemas) (hv : v ∈ s.volumes) :
    Primary c (.catalog d) <|
    c.primary (Ident.derive v.resourceName "volume" s!"{d.name}.{s.name}.{v.name}") .volume
      (properties Volume.codec v ["grants"] ++ parentage (catalogParent d) (schemaParent d s))
      v.options
  | warehouse {d : SqlWarehouse} : Primary c (.warehouse d) <|
    c.primary (Ident.derive d.resourceName "warehouse" d.name) .warehouse
      (properties SqlWarehouse.codec d ["access_controls"]) d.options
  | vectorSearchEndpoint {d : VectorSearchEndpoint} : Primary c (.vectorSearchEndpoint d) <|
    c.primary (Ident.derive d.resourceName "vector-search-endpoint" d.name) .vectorSearchEndpoint
      (properties VectorSearchEndpoint.codec d []) d.options
  | notebook {d : Notebook} : Primary c (.notebook d) <|
    c.primary (Ident.derive d.resourceName "notebook" ((d.resolvedPath? c.settings).getD d.source))
      .notebook (withPath (d.resolvedPath? c.settings)
        (properties Notebook.codec d ["dirpath", "access_controls"])) d.options
  | workspaceFile {d : WorkspaceFile} : Primary c (.workspaceFile d) <|
    c.primary (Ident.derive d.resourceName "workspace-file"
        (((d.resolvedPath? c.settings).or d.source).getD ""))
      .workspaceFile (withPath (d.resolvedPath? c.settings)
        (properties WorkspaceFile.codec d ["dirpath", "access_controls"])) d.options
  | dltPipeline {p : Pipeline} {g : NodeGraph} {o : DltOrchestrator} (ho : p.orchestrator = .dlt o) :
    Primary c (.pipeline p) <|
    c.primary p.id .dltPipeline (p.dltProperties c g o) p.options
  | pipelineJob {p : Pipeline} {g : NodeGraph} {o : JobOrchestrator} (ho : p.orchestrator = .job o) :
    Primary c (.pipeline p) <|
    c.primary (p.job c g o).id .job (p.job c g o).properties (p.job c g o).options
  | configFile {p : Pipeline} {g : NodeGraph} : Primary c (.pipeline p) <|
    c.primary (p.configId c) .workspaceFile [
      ("path", .string (p.configPath c)),
      ("content_base64", .string (Text.Base64.encode (Json.pretty g.document)))]
      { Options.none with provider := p.options.provider }
  | job {d : Job} : Primary c (.job d) <| c.primary d.id .job d.properties d.options

theorem Primary.owner_eq (h : Primary c d r) : r.owner = none := by
  cases h <;> rfl

theorem Bound.boundTo (h : Bound owner r) : r.BoundTo owner := by
  cases h
  case permissions          => exact ⟨rfl, rfl, rfl, rfl, rfl, .permissions⟩
  case grants               => exact ⟨rfl, rfl, rfl, rfl, rfl, .grants⟩
  case membership           => exact ⟨rfl, rfl, rfl, rfl, rfl, .membership _⟩
  case userRole             => exact ⟨rfl, rfl, rfl, rfl, rfl, .userRole _⟩
  case servicePrincipalRole => exact ⟨rfl, rfl, rfl, rfl, rfl, .servicePrincipalRole _⟩

theorem Primary.kind_ne (h : Primary c d r) : r.kind ≠ .provider := by
  cases h <;> exact fun h => nomatch h

theorem Bound.kind_ne (h : Bound owner r) : r.kind ≠ .provider := by
  cases h <;> exact fun h => nomatch h

-- A resource with those that are bound to it.
def Family (owner : Resource) (rs : List Resource) : Prop :=
  ∃ bound, rs = owner :: bound ∧ ∀ r ∈ bound, Bound owner r

theorem Family.owner_mem (h : Family owner rs) : owner ∈ rs := by
  have ⟨_, he, _⟩ := h
  exact he ▸ mem_cons_self

inductive Families (c : Context) (d : Declaration) : List Resource → Prop where
  | nil : Families c d []
  | cons {owner : Resource} {rs rest : List Resource} (hp : Primary c d owner)
      (hf : Family owner rs) : Families c d rest → Families c d (rs ++ rest)

namespace Families

theorem single (hp : Primary c d owner) (hf : Family owner rs) : Families c d rs :=
  append_nil rs ▸ cons hp hf nil

theorem append (h : Families c d rs) (hr : Families c d rest) : Families c d (rs ++ rest) := by
  induction h
  case nil => exact hr
  case cons hp hf _ ih => exact append_assoc .. ▸ cons hp hf ih

theorem flatten {made : List (List Resource)} (h : ∀ rs ∈ made, Families c d rs) :
    Families c d made.flatten := by
  induction made
  case nil => exact nil
  case cons rs made ih =>
    have ⟨hr, hm⟩ := forall_mem_cons.mp h
    exact append hr (ih hm)

-- The families of all that is made of the elements of a list.
theorem of_mapM {α : Type} {xs : List α} {f : α → Except CompileError (List Resource)}
    {made : List (List Resource)} (hf : ∀ x ∈ xs, ∀ rs, f x = .ok rs → Families c d rs)
    (h : xs.mapM f = .ok made) : Families c d made.flatten := by
  apply flatten
  intro rs hm
  have ⟨x, hx, he⟩ := exists_of_mem_mapM h hm
  exact hf x hx rs he

theorem primary_or_bound (h : Families c d rs) (hr : r ∈ rs) :
    Primary c d r ∨ ∃ owner, Primary c d owner ∧ Bound owner r := by
  induction h
  case nil => contradiction
  case cons hp hf _ ih =>
    cases mem_append.mp hr
    case inr hr => exact ih hr
    case inl hr =>
      have ⟨_, he, hb⟩ := hf
      subst he
      cases hr
      case head    => exact .inl hp
      case tail hr => exact .inr ⟨_, hp, hb r hr⟩

end Families

-- What there is at most when one resource is made after a check.
theorem eq_of_mem {skip : Bool} {check : Except CompileError Unit} {made : Resource}
    (h : (if skip then pure [] else do check; return [made]) = .ok rs) (hr : r ∈ rs) : r = made := by
  split at h
  case isTrue =>
    cases h
    contradiction
  case isFalse =>
    have ⟨_, _, h⟩ := bind_ok_iff.mp h
    cases h
    exact mem_singleton.mp hr

theorem withAccess_family {access : Except CompileError (List Resource)}
    (ha : ∀ rs, access = .ok rs → ∀ r ∈ rs, Bound owner r)
    (h : (do return owner :: (← access)) = .ok rs) : Family owner rs := by
  have ⟨bound, hb, h⟩ := bind_ok_iff.mp h
  cases h
  exact ⟨bound, rfl, ha bound hb⟩

theorem withPermissions_family {controls : List AccessControl}
    (hf : (field, attr) ∈ objectFields)
    (h : (do return owner :: (← permissions owner field attr controls)) = .ok rs) :
    Family owner rs :=
  withAccess_family (fun _ h _ hr => eq_of_mem h hr ▸ .permissions hf) h

theorem withGrants_family {gs : List Grant} (hf : (field, attr) ∈ objectFields)
    (h : withGrants owner field attr gs = .ok rs) : Family owner rs :=
  withAccess_family (fun _ h _ hr => eq_of_mem h hr ▸ .grants hf) h

theorem withLinks_family {form : RoleForm} {groupIds roles : List String}
    (hf : ∀ name, Bound owner (role form owner name)) :
    Family owner (withLinks form owner groupIds roles) := by
  refine ⟨_, rfl, ?_⟩
  simp only [forall_mem_append, forall_mem_map]
  exact ⟨fun _ _ => .membership, fun name _ => hf name⟩

end Expansion

open Expansion

section Nested

variable {catalog : Catalog} {schema : Schema}

theorem Table.expand_families {t : Table} (hs : schema ∈ catalog.schemas) (ht : t ∈ schema.tables)
    (h : t.expand c (catalogParent catalog) (schemaParent catalog schema) = .ok rs) :
    Families c (.catalog catalog) rs := by
  simp only [expand] at h
  split at h
  case isTrue  => contradiction
  case isFalse => exact .single (.table hs ht) (withGrants_family (by decide) h)

theorem Volume.expand_families {v : Volume} (hs : schema ∈ catalog.schemas)
    (hv : v ∈ schema.volumes)
    (h : v.expand c (catalogParent catalog) (schemaParent catalog schema) = .ok rs) :
    Families c (.catalog catalog) rs := by
  simp only [expand] at h
  split at h
  case isTrue  => contradiction
  case isFalse => exact .single (.volume hs hv) (withGrants_family (by decide) h)

theorem Schema.expand_families (hs : schema ∈ catalog.schemas)
    (h : schema.expand c (catalogParent catalog) = .ok rs) : Families c (.catalog catalog) rs := by
  simp only [expand, bind_ok_iff] at h
  have ⟨own, ho, tables, ht, volumes, hv, h⟩ := h
  cases h
  refine .append (.append ?_ ?_) ?_
  · exact .single (.schema hs) (withGrants_family (by decide) ho)
  · exact .of_mapM (fun _ hm _ => Table.expand_families hs hm) ht
  · exact .of_mapM (fun _ hm _ => Volume.expand_families hs hm) hv

theorem Catalog.expand_families (h : catalog.expand c = .ok rs) :
    Families c (.catalog catalog) rs := by
  simp only [expand] at h
  split at h
  case isTrue => contradiction
  case isFalse =>
    simp only [bind_ok_iff] at h
    have ⟨own, ho, schemas, hs, h⟩ := h
    cases h
    refine .append ?_ ?_
    · exact .single .catalog (withGrants_family (by decide) ho)
    · exact .of_mapM (fun _ hm _ => Schema.expand_families hm) hs

end Nested

theorem SqlWarehouse.expand_families {d : SqlWarehouse} (h : d.expand c = .ok rs) :
    Families c (.warehouse d) rs := by
  simp only [expand] at h
  split at h
  case h_1 => contradiction
  case h_2 => exact .single .warehouse (withPermissions_family (by decide) h)

theorem VectorSearchEndpoint.expand_families {d : VectorSearchEndpoint} (h : d.expand c = .ok rs) :
    Families c (.vectorSearchEndpoint d) rs := by
  cases h
  exact .single .vectorSearchEndpoint ⟨[], rfl, by simp⟩

theorem Notebook.expand_family {d : Notebook} (hp : Primary c (.notebook d) owner)
    (h : d.expand c = .ok rs) : Family owner rs := by
  cases hp
  exact withPermissions_family (by decide) h

theorem WorkspaceFile.expand_family {d : WorkspaceFile} (hp : Primary c (.workspaceFile d) owner)
    (h : d.expand c = .ok rs) : Family owner rs := by
  cases hp
  simp only [expand] at h
  split at h
  case isTrue => contradiction
  case isFalse =>
    split at h
    case isTrue  => contradiction
    case isFalse => exact withPermissions_family (by decide) h

theorem Group.expand_families {d : Group} (h : d.expand c = .ok rs) : Families c (.group d) rs := by
  simp only [expand] at h
  split at h <;> cases h
  exact .single .group ⟨[], rfl, by simp⟩

theorem User.expand_families {d : User} (h : d.expand c = .ok rs) : Families c (.user d) rs := by
  simp only [expand] at h
  split at h <;> cases h
  exact .single .user <| withLinks_family fun _ => .userRole

theorem ServicePrincipal.expand_families {d : ServicePrincipal} (h : d.expand c = .ok rs) :
    Families c (.servicePrincipal d) rs := by
  simp only [expand] at h
  split at h <;> cases h
  exact .single .servicePrincipal <| withLinks_family fun _ => .servicePrincipalRole

theorem Job.expand_family {j : Job} (h : j.expand c = .ok rs) :
    Family (c.primary j.id .job j.properties j.options) rs := by
  have ⟨_, _, h⟩ := bind_ok_iff.mp h
  exact withPermissions_family (by decide) h

theorem Pipeline.expandWith_families {p : Pipeline} {g : NodeGraph} (h : p.expandWith c g = .ok rs) :
    Families c (.pipeline p) rs := by
  simp only [expandWith] at h
  split at h <;> simp only [bind_ok_iff] at h
  case h_1 ho =>
    have ⟨_, hp, _, hf, h⟩ := h
    cases h
    refine .append ?_ ?_
    · exact .single (.dltPipeline ho) (withPermissions_family (by decide) hp)
    · exact .single .configFile (withPermissions_family (by decide) hf)
  case h_2 ho =>
    have ⟨_, hp, _, hf, h⟩ := h
    cases h
    refine .append ?_ ?_
    · exact .single (.pipelineJob ho) (Job.expand_family hp)
    · exact .single .configFile (withPermissions_family (by decide) hf)

-- The kind of the primary resource of a pipeline, and its properties.
def Pipeline.primaryKind (p : Pipeline) : Kind :=
  match p.orchestrator with
  | .dlt _ => .dltPipeline
  | .job _ => .job

def Pipeline.primaryProperties (c : Context) (p : Pipeline) (g : NodeGraph) : Properties :=
  match p.orchestrator with
  | .dlt o => p.dltProperties c g o
  | .job o => (p.job c g o).properties

theorem Pipeline.expandWith_primary {p : Pipeline} {g : NodeGraph} (h : p.expandWith c g = .ok rs) :
    c.primary p.id p.primaryKind (p.primaryProperties c g) p.options ∈ rs := by
  simp only [expandWith] at h
  split at h <;> simp only [bind_ok_iff] at h
  case h_1 o ho =>
    have ⟨_, hf, _, _, h⟩ := h
    cases h
    rw [primaryKind, primaryProperties, ho]
    exact mem_append_left _ (withPermissions_family (by decide) hf).owner_mem
  case h_2 o ho =>
    have ⟨_, hf, _, _, h⟩ := h
    cases h
    rw [primaryKind, primaryProperties, ho]
    exact mem_append_left _ (Job.expand_family hf).owner_mem

theorem Pipeline.expandWith_configFile {p : Pipeline} {g : NodeGraph} (h : p.expandWith c g = .ok rs) :
    ∃ properties, c.primary (p.configId c) .workspaceFile properties
      { Options.none with provider := p.options.provider } ∈ rs := by
  simp only [expandWith] at h
  split at h <;> simp only [bind_ok_iff] at h
  all_goals
    have ⟨_, _, _, hf, h⟩ := h
    cases h
    exact ⟨_, mem_append_right _ (withPermissions_family (by decide) hf).owner_mem⟩

theorem Declaration.expand_families (h : d.expand c = .ok rs) : Families c d rs := by
  cases d
  case group                => exact Group.expand_families h
  case user                 => exact User.expand_families h
  case servicePrincipal     => exact ServicePrincipal.expand_families h
  case catalog              => exact Catalog.expand_families h
  case warehouse            => exact SqlWarehouse.expand_families h
  case vectorSearchEndpoint => exact VectorSearchEndpoint.expand_families h
  case job                  => exact .single .job (Job.expand_family h)
  case notebook             => exact .single .notebook (Notebook.expand_family .notebook h)
  case workspaceFile =>
    exact .single .workspaceFile (WorkspaceFile.expand_family .workspaceFile h)
  case pipeline =>
    have ⟨_, _, h⟩ := bind_ok_iff.mp h
    exact Pipeline.expandWith_families h

theorem Expansion.provider_ok {settings : Settings} {name : String} {p : Provider}
    (h : provider settings name p = .ok r) :
    r.id = name ∧ r.kind = .provider ∧ r.properties = p.arguments ∧ r.provider = none := by
  obtain ⟨_, _, h⟩ := bind_ok_iff.mp h
  cases h
  exact ⟨rfl, rfl, rfl, rfl⟩

-- The node graph apart, this is what `expand` does.
theorem Expansion.ofDeclaration_ok {x : Expansion} (h : ofDeclaration c d = .ok x) :
    d.expand c = .ok x.resources := by
  cases d <;> simp only [ofDeclaration, bind_ok_iff] at h
  case pipeline =>
    have ⟨g, hg, _, he, _, hx, _, _, h⟩ := h
    cases hx
    cases h
    exact bind_ok_iff.mpr ⟨g, hg, he⟩
  all_goals
    have ⟨_, he, _, hx, _, _, h⟩ := h
    cases hx
    cases h
    exact he

-- How a stack makes a resource.
inductive Stack.Makes (s : Stack) (r : Resource) : Prop where
  | provider {entry : String × Provider} (he : entry ∈ s.providers)
      (hr : Expansion.provider s.settings entry.1 entry.2 = .ok r)
  | primary {d : Declaration} {rs : List Resource} (hd : d ∈ s.resources.declarations)
      (he : d.expand s.context = .ok rs) (hp : Primary s.context d r)
  | bound {d : Declaration} {owner : Resource} (hd : d ∈ s.resources.declarations)
      (hp : Primary s.context d owner) (hb : Bound owner r)

theorem Stack.makes_of_expand {s : Stack} {x : Expansion} (h : s.expand = .ok x)
    (hr : r ∈ x.resources) : s.Makes r := by
  have ⟨providers, hp, h⟩ := bind_ok_iff.mp h
  have ⟨parts, hd, hx⟩ := bind_ok_iff.mp h
  cases hx
  cases mem_append.mp hr
  case inl hr =>
    have ⟨_, he, h⟩ := exists_of_mem_mapM hp hr
    exact .provider he h
  case inr hr =>
    have ⟨part, hm, hr⟩ := mem_flatMap.mp hr
    have ⟨d, hd, h⟩ := exists_of_mem_mapM hd hm
    have he := ofDeclaration_ok h
    obtain hp | ⟨owner, hp, hb⟩ := Declaration.expand_families he |>.primary_or_bound hr
    · exact .primary hd he hp
    · exact .bound hd hp hb

-- What is made of a declaration is part of what is made of the stack.
theorem Stack.exists_part {s : Stack} {x : Expansion} (h : s.expand = .ok x)
    (hd : d ∈ s.resources.declarations) : ∃ part, Expansion.ofDeclaration s.context d = .ok part ∧
      part.resources ⊆ x.resources ∧ part.pipelines ⊆ x.pipelines := by
  have ⟨_, _, h⟩ := bind_ok_iff.mp h
  have ⟨parts, hp, hx⟩ := bind_ok_iff.mp h
  cases hx
  have ⟨part, hm, he⟩ := exists_of_mapM_ok hp hd
  refine ⟨part, he, fun r hr => mem_append_right _ ?_, fun g hg => ?_⟩
  · exact mem_flatMap.mpr ⟨part, hm, hr⟩
  · exact mem_flatMap.mpr ⟨part, hm, hg⟩

end Lakehouse
