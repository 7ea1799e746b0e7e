import Lakehouse.Proofs.Provenance
/-!
Nested declarations. What a catalog or a schema makes of itself does not depend on what it holds, and
neither does what its nested declarations are told of it.
-/
namespace Lakehouse

open List Attempt Expansion

variable {c : Context} {catalog : Parent} {rs : List Resource}

namespace Declaration

variable {α : Type} {codec : Codec α} {d d' : α} {without : List String}

theorem strip_eraseAll {ps : Properties} {keys : List String} :
    strip (Dict.eraseAll ps keys) = Dict.eraseAll (strip ps) keys := by
  simp only [strip, Dict.eraseAll, filter_filter, Bool.and_comm, Bool.and_assoc]

-- Fields that are left out do not count.
theorem properties_congr
    (h : Dict.eraseAll (codec.properties d') without = Dict.eraseAll (codec.properties d) without) :
    properties codec d' without = properties codec d without := by
  simp only [properties, ← strip_eraseAll, h]

end Declaration

namespace Schema

variable {x x' : Schema}

-- How the nested declarations of the schema know it.
def parent (catalog : Parent) (x : Schema) : Parent :=
  ⟨x.name, Ident.derive x.resourceName "schema" s!"{catalog.name}.{x.name}"⟩

-- The resource of the schema with its grants.
def own (c : Context) (catalog : Parent) (x : Schema) : Except CompileError (List Resource) :=
  let properties := Declaration.properties codec x ["grants", "tables", "volumes"]
  withGrants (c.primary (x.parent catalog).id .schema
    (properties ++ [("catalog_name", catalog.reference)]) x.options) "schema" "id" x.grants

theorem expand_ok_iff : x.expand c catalog = .ok rs ↔ ∃ own, x.own c catalog = .ok own ∧
    ∃ tables, x.tables.mapM (Table.expand c catalog (x.parent catalog)) = .ok tables ∧
      ∃ volumes, x.volumes.mapM (Volume.expand c catalog (x.parent catalog)) = .ok volumes ∧
        own ++ tables.flatten ++ volumes.flatten = rs := by
  simp only [expand, own, parent, bind_ok_iff, pure_eq_ok, Except.ok.injEq]

theorem parent_congr (h : x' = { x with tables := x'.tables, volumes := x'.volumes }) :
    x'.parent catalog = x.parent catalog := by
  rw [h]
  rfl

theorem own_congr (h : x' = { x with tables := x'.tables, volumes := x'.volumes }) :
    x'.own c catalog = x.own c catalog := by
  have hp : Declaration.properties codec x' ["grants", "tables", "volumes"] =
      Declaration.properties codec x ["grants", "tables", "volumes"] := by
    rw [h]
    exact Declaration.properties_congr rfl
  simp only [own, hp, parent_congr h]
  rw [h]

end Schema

namespace Catalog

variable {d d' : Catalog}

-- The resource of the catalog with its grants.
def own (c : Context) (d : Catalog) : Except CompileError (List Resource) :=
  if d.name.isEmpty then throw (.invalidDeclaration "catalog" .emptyCatalogName)
  else
    let properties := Declaration.properties codec d ["grants", "schemas"]
    withGrants (c.primary (catalogParent d).id .catalog properties d.options) "catalog" "name" d.grants

theorem expand_ok_iff : d.expand c = .ok rs ↔ ∃ own, d.own c = .ok own ∧
    ∃ schemas, d.schemas.mapM (Schema.expand c (catalogParent d)) = .ok schemas ∧
      own ++ schemas.flatten = rs := by
  simp only [expand, own, catalogParent]
  split <;> simp [bind_ok_iff]

-- Each primary resource of the catalog is made.
theorem mem_of_primary {r : Resource} (h : d.expand c = .ok rs) (hp : Primary c (.catalog d) r) :
    r ∈ rs := by
  obtain ⟨own, ho, schemas, hs, rfl⟩ := expand_ok_iff.mp h
  have hm : ∀ x ∈ d.schemas, ∃ made, x.expand c (catalogParent d) = .ok made ∧
      made ⊆ own ++ schemas.flatten := by
    intro x hx
    obtain ⟨made, hm, he⟩ := exists_of_mapM_ok hs hx
    exact ⟨made, he, fun r hr => mem_append_right _ <| mem_flatten.mpr ⟨made, hm, hr⟩⟩
  cases hp
  case catalog =>
    simp only [Catalog.own] at ho
    split at ho
    case isTrue  => contradiction
    case isFalse => exact mem_append_left _ (withGrants_family (by decide) ho).owner_mem
  case schema x hx =>
    obtain ⟨made, he, hm⟩ := hm x hx
    obtain ⟨own, ho, _, _, _, _, rfl⟩ := Schema.expand_ok_iff.mp he
    have hf : Family _ own := withGrants_family (by decide) ho
    exact hm <| mem_append_left _ <| mem_append_left _ hf.owner_mem
  case table x t ht hx =>
    obtain ⟨made, he, hm⟩ := hm x hx
    obtain ⟨_, _, tables, hs, _, _, rfl⟩ := Schema.expand_ok_iff.mp he
    obtain ⟨own, ho, he⟩ := exists_of_mapM_ok hs ht
    simp only [Table.expand] at he
    split at he
    case isTrue => contradiction
    case isFalse =>
      have hf : Family _ own := withGrants_family (by decide) he
      exact hm <| mem_append_left _ <| mem_append_right _ <| mem_flatten.mpr ⟨own, ho, hf.owner_mem⟩
  case volume x v hv hx =>
    obtain ⟨made, he, hm⟩ := hm x hx
    obtain ⟨_, _, _, _, volumes, hs, rfl⟩ := Schema.expand_ok_iff.mp he
    obtain ⟨own, ho, he⟩ := exists_of_mapM_ok hs hv
    simp only [Volume.expand] at he
    split at he
    case isTrue => contradiction
    case isFalse =>
      have hf : Family _ own := withGrants_family (by decide) he
      exact hm <| mem_append_right _ <| mem_flatten.mpr ⟨own, ho, hf.owner_mem⟩

theorem parent_congr (h : d' = { d with schemas := d'.schemas }) :
    catalogParent d' = catalogParent d := by
  rw [h]
  rfl

theorem own_congr (h : d' = { d with schemas := d'.schemas }) : d'.own c = d.own c := by
  have hp : Declaration.properties codec d' ["grants", "schemas"] =
      Declaration.properties codec d ["grants", "schemas"] := by
    rw [h]
    exact Declaration.properties_congr rfl
  simp only [own, hp, parent_congr h]
  rw [h]

end Catalog

-- Every primary resource is made, but for what a pipeline tells of its nodes.
theorem Declaration.exists_of_primary {d : Declaration} {r : Resource} (h : d.expand c = .ok rs)
    (hp : Primary c d r) : ∃ q ∈ rs, q.id = r.id ∧ q.kind = r.kind ∧ q.provider = r.provider := by
  have of_family {rs : List Resource} (hf : Family r rs) :
      ∃ q ∈ rs, q.id = r.id ∧ q.kind = r.kind ∧ q.provider = r.provider :=
    ⟨r, hf.owner_mem, rfl, rfl, rfl⟩
  cases d
  case catalog d => exact ⟨r, d.mem_of_primary h hp, rfl, rfl, rfl⟩
  case pipeline p =>
    obtain ⟨g, _, h⟩ := bind_ok_iff.mp h
    have hm := Pipeline.expandWith_primary h
    cases hp
    case dltPipeline ho => exact ⟨_, hm, rfl, by rw [Pipeline.primaryKind, ho]; rfl, rfl⟩
    case pipelineJob ho => exact ⟨_, hm, rfl, by rw [Pipeline.primaryKind, ho]; rfl, rfl⟩
    case configFile =>
      obtain ⟨_, hm⟩ := Pipeline.expandWith_configFile h
      exact ⟨_, hm, rfl, rfl, rfl⟩
  all_goals cases hp
  case group | user | servicePrincipal =>
    simp only [expand, Group.expand, User.expand, ServicePrincipal.expand] at h
    split at h <;> cases h
    exact ⟨_, mem_cons_self, rfl, rfl, rfl⟩
  case warehouse =>
    simp only [expand, SqlWarehouse.expand] at h
    split at h
    case h_1 => contradiction
    case h_2 => exact of_family <| withPermissions_family (by decide) h
  case vectorSearchEndpoint =>
    cases h
    exact ⟨_, mem_cons_self, rfl, rfl, rfl⟩
  case notebook      => exact of_family <| Notebook.expand_family .notebook h
  case workspaceFile => exact of_family <| WorkspaceFile.expand_family .workspaceFile h
  case job           => exact of_family <| Job.expand_family h

-- So it is of a stack with the catalog.
theorem Stack.mem_of_primary {s : Stack} {x : Expansion} {d : Catalog} {r : Resource}
    (hx : s.expand = .ok x) (hd : d ∈ s.resources.catalogs)
    (hp : Primary s.context (.catalog d) r) : r ∈ x.resources := by
  have hm : .catalog d ∈ s.resources.declarations := by simp [Sections.declarations, hd]
  obtain ⟨part, he, hs, _⟩ := exists_part hx hm
  exact hs <| d.mem_of_primary (ofDeclaration_ok he) hp

end Lakehouse
