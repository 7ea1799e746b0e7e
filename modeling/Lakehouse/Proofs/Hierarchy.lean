import Lakehouse.Proofs.Nesting
import Lakehouse.Proofs.Visibility
/-!
The hierarchy of resources. What a nested declaration makes names its parents by placeholders, and so
do auxiliary resources name their owners and pipelines their configuration files. The ids that stand
there can be addressed, so each placeholder is found again for what it is, and puts its resource after
the one that it names.
-/
namespace Lakehouse

open List Attempt Expansion

variable {s : Stack} {x : Expansion} {order : List Nat} {g : Graph} {c : Context}
variable {r later earlier owner : Resource} {attr : String}

-- What a resource is told by.
def Resource.label (r : Resource) : String × Kind :=
  (r.id, r.kind)

-- The first resource comes after the second one, which a placeholder among its properties names.
structure Graph.Follows (g : Graph) (later earlier : Resource) : Prop where
  named  : ∃ path attr, (path, ⟨earlier.id, some attr⟩) ∈ Placeholder.scan later.properties
  edge   : g.Leads later.id earlier.id
  placed : [earlier, later] <+ g.resources

namespace Compiled

theorem placed (c : Compiled s x order g) (hl : later ∈ g.resources) (he : earlier ∈ g.resources)
    (h : g.Leads later.id earlier.id) : [earlier, later] <+ g.resources := by
  obtain ⟨pre, post, hg⟩ := append_of_mem hl
  have hm : earlier.id ∈ idsOf pre :=
    c.ordered (idsOf pre) later.id (idsOf post) (by simp [hg, idsOf]) earlier.id h
  obtain ⟨r, hr, hi⟩ := mem_map.mp hm
  have hr' : r ∈ g.resources := hg ▸ mem_append_left _ hr
  cases inj_on_of_nodup_map c.ids_nodup hr' he hi
  rw [hg]
  exact (singleton_sublist.mpr hr).append <| singleton_sublist.mpr mem_cons_self

-- One text among the properties is enough.
theorem follows (c : Compiled s x order g) (hl : later ∈ g.resources) (he : earlier ∈ g.resources)
    (ha : Placeholder.IsAttribute attr)
    (ht : Placeholder.attr earlier.id attr ∈ (Value.object later.properties).texts) :
    g.Follows later earlier := by
  have hw : Placeholder.WellFormed ⟨earlier.id, some attr⟩ :=
    ⟨c.addressable (mem_map_of_mem he), fun _ hp => Option.some.inj hp ▸ ha⟩
  have hq : ⟨earlier.id, some attr⟩ ∈ Placeholder.inText (Placeholder.attr earlier.id attr) :=
    Placeholder.inText_text hw ▸ mem_singleton_self _
  have hm : later.Mentions earlier.id := Resource.mentions_of_mem_texts ht hq
  have hd : g.Leads later.id earlier.id := c.leads_iff.mpr ⟨later, c.perm.mem_iff.mp hl, rfl, hm⟩
  obtain ⟨⟨path, _⟩, hf, rfl⟩ := Placeholder.exists_mem_scan.mpr ⟨_, ht, hq⟩
  exact ⟨⟨path, attr, hf⟩, hd, c.placed hl he hd⟩

end Compiled

-- What a catalog, or a pipeline, places in the graph: resources, each with those that come before it.
inductive Stack.Places (s : Stack) : String × Kind → List (String × Kind) → Prop where
  | schema {d : Catalog} {x : Schema} (hd : d ∈ s.resources.catalogs) (hx : x ∈ d.schemas) :
    Places s ((schemaParent d x).id, .schema) [((catalogParent d).id, .catalog)]
  | table {d : Catalog} {x : Schema} {t : Table} (hd : d ∈ s.resources.catalogs)
    (hx : x ∈ d.schemas) (ht : t ∈ x.tables) :
    Places s (Ident.derive t.resourceName "table" s!"{d.name}.{x.name}.{t.name}", .table)
      [((catalogParent d).id, .catalog), ((schemaParent d x).id, .schema)]
  | volume {d : Catalog} {x : Schema} {v : Volume} (hd : d ∈ s.resources.catalogs)
    (hx : x ∈ d.schemas) (hv : v ∈ x.volumes) :
    Places s (Ident.derive v.resourceName "volume" s!"{d.name}.{x.name}.{v.name}", .volume)
      [((catalogParent d).id, .catalog), ((schemaParent d x).id, .schema)]
  | pipeline {p : Pipeline} (hp : p ∈ s.resources.pipelines) :
    Places s (p.id, p.primaryKind) [(p.configId s.context, .workspaceFile)]

namespace Pipeline

variable {p : Pipeline} {ng : NodeGraph}

theorem mem_texts_configReference :
    p.configReference c ∈ (Value.object (p.primaryProperties c ng)).texts := by
  rw [primaryProperties]
  split
  case h_1 o _ =>
    let configuration := Codec.text.dict.write (p.dltConfiguration c o)
    have hc : p.configReference c ∈ configuration.texts := by
      refine Value.mem_textsOfFields.mpr ⟨("config_filepath", .string _), ?_, mem_singleton_self _⟩
      exact mem_map_of_mem Dict.mem_insert_self
    refine Value.mem_textsOfFields.mpr ⟨("configuration", configuration), ?_, hc⟩
    have hk : "configuration" ≠ "libraries" := by decide
    apply mem_cons_of_mem
    apply Declaration.mem_dropEmpty _ hc
    exact Dict.mem_insert_of_ne Dict.mem_insert_self hk
  case h_2 o _ =>
    have hp : ⟨"config_filepath", p.configReference c⟩ ∈ (p.job c ng o).parameters := by simp [job]
    exact Job.mem_texts_of_parameter hp

end Pipeline

-- An auxiliary resource names its owner.
theorem Expansion.Bound.mem_texts (h : Bound owner r) : r.owner = some owner.id ∧
    ∃ attr, Placeholder.IsAttribute attr ∧
      Placeholder.attr owner.id attr ∈ (Value.object r.properties).texts := by
  have ha : ∀ object ∈ objectFields, Placeholder.IsAttribute object.2 := by decide
  refine ⟨h.boundTo.owner, ?_⟩
  cases h
  case permissions attr _ hf | grants attr _ hf =>
    exact ⟨attr, ha _ hf, mem_cons_self⟩
  case membership =>
    exact ⟨"id", by decide, mem_cons_of_mem _ mem_cons_self⟩
  case userRole | servicePrincipalRole =>
    exact ⟨"id", by decide, mem_cons_self⟩

-- The kinds of resources that stand below others, and those of auxiliary resources.
def Kind.placed : List Kind :=
  [.schema, .table, .volume, .dltPipeline]

def Kind.bound : List Kind :=
  [.grants, .permissions, .groupMember, .userRole, .servicePrincipalRole]

theorem Expansion.Parent.mem_texts {parent : Parent} {key : String} {ps : Properties}
    (h : (key, parent.reference) ∈ ps) :
    Placeholder.attr parent.id "name" ∈ (Value.object ps).texts :=
  Value.mem_textsOfFields.mpr ⟨_, h, mem_singleton_self _⟩

namespace Compiled

variable {d : Catalog}

theorem mem_of_primary (c : Compiled s x order g) (hd : d ∈ s.resources.catalogs)
    (hp : Primary s.context (.catalog d) r) : r ∈ g.resources :=
  c.perm.mem_iff.mpr <| Stack.mem_of_primary c.expand hd hp

-- What names both of its parents comes after both.
theorem follows_parents (c : Compiled s x order g) {y : Schema} (hd : d ∈ s.resources.catalogs)
    (hy : y ∈ d.schemas) (hr : r ∈ g.resources)
    (hp : parentage (catalogParent d) (schemaParent d y) ⊆ r.properties) :
    ∀ l ∈ [((catalogParent d).id, Kind.catalog), ((schemaParent d y).id, .schema)],
      ∃ earlier, earlier.label = l ∧ g.Follows r earlier := by
  have ha : Placeholder.IsAttribute "name" := by decide
  have hc := c.mem_of_primary hd .catalog
  have hs := c.mem_of_primary hd (.schema hy)
  refine forall_mem_cons.mpr ⟨⟨_, by rfl, c.follows hr hc ha ?_⟩,
    forall_mem_singleton.mpr ⟨_, by rfl, c.follows hr hs ha ?_⟩⟩
  · exact Parent.mem_texts <| hp mem_cons_self
  · exact Parent.mem_texts <| hp <| mem_cons_of_mem _ mem_cons_self

theorem places (c : Compiled s x order g) {label : String × Kind} {above : List (String × Kind)}
    (h : s.Places label above) : ∃ r ∈ g.resources, r.label = label ∧
      ∀ l ∈ above, ∃ earlier, earlier.label = l ∧ g.Follows r earlier := by
  cases h
  case schema hd hy =>
    have ha : Placeholder.IsAttribute "name" := by decide
    have hr := c.mem_of_primary hd (.schema hy)
    have hc := c.mem_of_primary hd .catalog
    refine ⟨_, hr, rfl, forall_mem_singleton.mpr ⟨_, by rfl, c.follows hr hc ha ?_⟩⟩
    exact Parent.mem_texts <| mem_append_right _ mem_cons_self
  case table hd hy ht =>
    have hr := c.mem_of_primary hd (.table hy ht)
    exact ⟨_, hr, rfl, c.follows_parents hd hy hr <| subset_append_right ..⟩
  case volume hd hy hv =>
    have hr := c.mem_of_primary hd (.volume hy hv)
    exact ⟨_, hr, rfl, c.follows_parents hd hy hr <| subset_append_right ..⟩
  case pipeline p hp =>
    have ha : Placeholder.IsAttribute "path" := by decide
    obtain ⟨ng, part⟩ := Stack.exists_pipeline_part c.expand hp
    obtain ⟨rs, he, hs⟩ := part.resources
    obtain ⟨_, hf⟩ := Pipeline.expandWith_configFile he
    have hr := c.perm.mem_iff.mpr part.primary_mem
    have hm := c.perm.mem_iff.mpr <| hs hf
    refine ⟨_, hr, rfl, forall_mem_singleton.mpr ⟨_, by rfl, c.follows hr hm ha ?_⟩⟩
    exact p.mem_texts_configReference

end Compiled

namespace Stack

-- What is of such a kind is declared.
theorem Makes.places (m : s.Makes r) (hk : r.kind ∈ Kind.placed) : ∃ above, s.Places r.label above := by
  cases m
  case provider h =>
    rw [(provider_ok h).right.left] at hk
    contradiction
  case bound hb => cases hb <;> contradiction
  case primary hd _ hp =>
    have hc : ∀ {d : Catalog}, .catalog d ∈ s.resources.declarations → d ∈ s.resources.catalogs :=
      fun hd => by simpa [Sections.declarations] using hd
    cases hp
    case schema hy _    => exact ⟨_, .schema (hc hd) hy⟩
    case table hy ht _  => exact ⟨_, .table (hc hd) hy ht⟩
    case volume hy hv _ => exact ⟨_, .volume (hc hd) hy hv⟩
    case dltPipeline p _ _ ho _ =>
      have hp := Places.pipeline (mem_declarations_pipeline.mp hd)
      rw [Pipeline.primaryKind, ho] at hp
      exact ⟨_, hp⟩
    all_goals contradiction

end Stack

-- Whatever is placed comes after what it stands below, and whatever is bound after its owner.
structure Graph.Layered (s : Stack) (g : Graph) : Prop where
  places : ∀ label above, s.Places label above → ∃ r ∈ g.resources, r.label = label ∧
    ∀ l ∈ above, ∃ earlier, earlier.label = l ∧ g.Follows r earlier
  placed : ∀ r ∈ g.resources, r.kind ∈ Kind.placed → ∃ above, s.Places r.label above
  bound  : ∀ r ∈ g.resources, r.kind ∈ Kind.bound →
    ∃ owner, r.owner = some owner.id ∧ g.Follows r owner

theorem Stack.compile_layered (h : s.compile = .ok g) : g.Layered s := by
  obtain ⟨x, order, c⟩ := compile_compiled h
  have hm : ∀ r ∈ g.resources, s.Makes r :=
    fun r hr => makes_of_expand c.expand <| c.perm.mem_iff.mp hr
  exact {
    places := fun _ _ => c.places
    placed := fun r hr => (hm r hr).places
    bound  := by
      intro r hr hk
      cases hm r hr
      case provider h =>
        obtain ⟨_, _, h⟩ := bind_ok_iff.mp h
        cases h
        contradiction
      case primary hp => cases hp <;> contradiction
      case bound hb =>
        obtain ⟨ho, attr, ha, ht⟩ := hb.mem_texts
        obtain ⟨hi, _⟩ := c.mem_of_mentions hr (.inl ho)
        obtain ⟨owner, hm, he⟩ := mem_map.mp hi
        exact ⟨owner, he ▸ ho, c.follows hr hm ha <| he ▸ ht⟩
  }

-- A catalog, a principal and a pipeline, none of them with a plain name.
def namedApart : Stack :=
  let table : Table := { (default : Table) with name := "täble" }
  let schema : Schema := { (default : Schema) with
    name := "a b", resourceName := "S", tables := [table], grants := [⟨"team", ["USE_SCHEMA"]⟩] }
  { (default : Stack) with
    resources := { (default : Sections) with
      catalogs := [{ (default : Catalog) with name := "ünï", schemas := [schema] }]
      users := [{ (default : User) with userName := "u@x", roles := ["a/b"] }]
      pipelines := [{ (default : Pipeline) with name := "p q", orchestrator := .job default }] } }

theorem compile_layered_namedApart :
    ∃ g, namedApart.compile = .ok g ∧ g.Layered namedApart := by
  let x := namedApart.expand.toOption.getD default
  have hx : namedApart.expand = .ok x := eq_ok_of_isSome (by decide +kernel)
  obtain ⟨g, hg⟩ := Stack.compile_isOk_of_bare hx rfl (by decide +kernel) (by decide +kernel)
  exact ⟨g, hg, Stack.compile_layered hg⟩

end Lakehouse
