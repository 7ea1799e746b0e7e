import Lakehouse.Proofs.Hints
import Lakehouse.Proofs.Leftover
import Lakehouse.Proofs.Nesting
import Lakehouse.Stack.Validation
/-!
Bindings to providers. A resource has the provider that its declaration names, or else the default
one, and an auxiliary resource has that of its owner. A configuration leads from every block to a
provider exactly if all that is named is a provider, and no provider goes by another alias.
-/
namespace Lakehouse

open List Attempt Expansion

variable {c : Context} {d : Declaration} {r owner : Resource} {rs : List Resource} {o : Options}
variable {s : Stack} {x : Expansion} {order : List Nat} {g : Graph} {v : Value} {id : String}

-- The provider of what has these options.
def Context.providerOf (c : Context) (o : Options) : Option String :=
  (o.provider.map Placeholder.normalize).or c.defaultProvider

def Schema.declaredOptions (s : Schema) : List Options :=
  s.options :: (s.tables.map (·.options) ++ s.volumes.map (·.options))

namespace Declaration

-- The options of a declaration and of all that is nested in it.
def options : Declaration → List Options
  | .group d => [d.options]
  | .user d => [d.options]
  | .servicePrincipal d => [d.options]
  | .catalog d => d.options :: d.schemas.flatMap Schema.declaredOptions
  | .warehouse d => [d.options]
  | .vectorSearchEndpoint d => [d.options]
  | .notebook d => [d.options]
  | .workspaceFile d => [d.options]
  | .pipeline d => [d.options]
  | .job d => [d.options]

end Declaration

namespace Expansion

theorem Primary.provider_eq (h : Primary c d r) : ∃ o ∈ d.options, r.provider = c.providerOf o := by
  have hn : ∀ {d : Catalog} {s : Schema} {o : Options}, s ∈ d.schemas → o ∈ s.declaredOptions →
      o ∈ (Declaration.catalog d).options :=
    fun hs ho => mem_cons_of_mem _ <| mem_flatMap.mpr ⟨_, hs, ho⟩
  cases h
  case schema hs => exact ⟨_, hn hs mem_cons_self, rfl⟩
  case table hs ht =>
    exact ⟨_, hn hs <| mem_cons_of_mem _ <| mem_append_left _ <| mem_map_of_mem ht, rfl⟩
  case volume hs hv =>
    exact ⟨_, hn hs <| mem_cons_of_mem _ <| mem_append_right _ <| mem_map_of_mem hv, rfl⟩
  all_goals exact ⟨_, mem_cons_self, rfl⟩

end Expansion

-- Whatever has options makes a primary resource with the provider of these options.
theorem Declaration.primary_of_options (ho : o ∈ d.options) :
    ∃ r, Primary c d r ∧ r.provider = c.providerOf o := by
  cases d
  case catalog d =>
    obtain _ | ⟨_, ho⟩ := ho
    · exact ⟨_, .catalog, rfl⟩
    · obtain ⟨s, hs, ho⟩ := mem_flatMap.mp ho
      simp only [Schema.declaredOptions, mem_cons, mem_append, mem_map] at ho
      obtain rfl | ⟨t, ht, rfl⟩ | ⟨v, hv, rfl⟩ := ho
      · exact ⟨_, .schema hs, rfl⟩
      · exact ⟨_, .table hs ht, rfl⟩
      · exact ⟨_, .volume hs hv, rfl⟩
  case pipeline p =>
    cases mem_singleton.mp ho
    cases hr : p.orchestrator
    case dlt => exact ⟨_, .dltPipeline (g := default) hr, rfl⟩
    case job => exact ⟨_, .pipelineJob (g := default) hr, rfl⟩
  all_goals
    cases mem_singleton.mp ho
    exact ⟨_, by constructor, rfl⟩

-- Whatever is declared makes a resource with the provider that it names.
theorem Declaration.carried (h : d.expand c = .ok rs) (ho : o ∈ d.options) :
    ∃ r ∈ rs, r.provider = c.providerOf o := by
  obtain ⟨r, hp, he⟩ := primary_of_options ho
  obtain ⟨q, hq, _, _, hr⟩ := exists_of_primary h hp
  exact ⟨q, hq, hr.trans he⟩

-- The arguments give a provider no other alias than its id.
def KeepsAlias (id : String) (arguments : Properties) : Prop :=
  ∀ v ∈ Dict.get? (Dict.ofEntries arguments) "alias", v.string? = some id

instance {arguments : Properties} : Decidable (KeepsAlias id arguments) :=
  inferInstanceAs (Decidable (∀ v ∈ _, _))

namespace Stack

-- Every provider that is named in the options of a declaration is one of the stack.
def NamesProviders (s : Stack) : Prop :=
  ∀ d ∈ s.resources.declarations, ∀ o ∈ d.options, ∀ t ∈ o.provider,
    Placeholder.normalize t ∈ Dict.keys s.providers

instance : Decidable s.NamesProviders :=
  inferInstanceAs (Decidable (∀ d ∈ _, ∀ o ∈ _, ∀ t ∈ _, _))

theorem defaultProvider_mem (hv : s.violations = []) (h : s.defaultProvider = some id) :
    id ∈ Dict.keys s.providers := by
  cases hd : s.settings.defaultProvider
  case none =>
    rw [defaultProvider, hd, Option.none_or] at h
    exact mem_of_head? h
  case some name =>
    rw [defaultProvider, hd, Option.some_or] at h
    cases h
    simp only [violations, append_eq_nil_iff] at hv
    have hp := (append_eq_nil_iff.mp hv.left.left.left.right).left
    simpa [hd, Option.filter_eq_none_iff, Dict.contains, Dict.keys] using hp

theorem provider_of_expand (hx : s.expand = .ok x) (hr : r ∈ x.resources)
    (hk : r.kind = .provider) : ∃ e ∈ s.providers, provider s.settings e.1 e.2 = .ok r := by
  cases makes_of_expand hx hr
  case provider e he hr => exact ⟨e, he, hr⟩
  case primary hp       => exact absurd hk hp.kind_ne
  case bound hb         => exact absurd hk hb.kind_ne

theorem expand_provider (hx : s.expand = .ok x) {e : String × Provider} (he : e ∈ s.providers) :
    ∃ r ∈ x.resources, provider s.settings e.1 e.2 = .ok r := by
  obtain ⟨providers, hp, h⟩ := bind_ok_iff.mp hx
  obtain ⟨_, _, h⟩ := bind_ok_iff.mp h
  cases h
  obtain ⟨r, hr, h⟩ := exists_of_mapM_ok hp he
  exact ⟨r, mem_append_left _ hr, h⟩

end Stack

namespace Graph

-- There is a provider with this id.
def Provides (g : Graph) (id : String) : Prop :=
  ∃ q ∈ g.resources, q.id = id ∧ q.kind = .provider

-- Every provider that a resource has is one.
def NamesProviders (g : Graph) : Prop :=
  ∀ r ∈ g.resources, ∀ id ∈ r.provider, g.Provides id

instance : Decidable g.NamesProviders :=
  inferInstanceAs (Decidable (∀ r ∈ _, ∀ id ∈ _, ∃ q ∈ _, _))

end Graph

namespace Terraform

def alias? (entry : Value) : Option String :=
  (entry.field? "alias").bind Value.string?

-- Every provider goes by its id, and every block with a provider names one of them by its alias.
structure Provided (g : Graph) (body : Value) : Prop where
  aliases : Forall₂ (fun r e => alias? e = some r.id) (g.resources.filter (·.kind = .provider))
    (providerEntries body)
  leads   : ∀ type id b, block? body type id = some b → ∀ v, b.field? "provider" = some v →
    ∃ a, (∃ e ∈ providerEntries body, alias? e = some a) ∧ v = .string ("databricks." ++ a)

-- The id of the provider stands under `alias` before its arguments are put there.
theorem providerEntry_alias? {e : Value} (h : providerEntry r = .ok e) (hk : r.kind = .provider) :
    alias? e = some r.id ↔ KeepsAlias r.id r.properties := by
  obtain ⟨ps, hps, he⟩ := bind_ok_iff.mp h
  have hpe : ps = r.properties := by
    simpa [Emission.excluded, hk, Dict.eraseAll] using Emission.prepare_ok hps
  cases he
  have hf : (Value.object (Dict.insertAll [("alias", .string r.id)] ps)).field? "alias" =
      (Dict.get? (Dict.ofEntries r.properties) "alias").or (some (.string r.id)) := by
    rw [hpe]
    exact Dict.get?_insertAll
  rw [alias?, KeepsAlias, hf]
  cases Dict.get? (Dict.ofEntries r.properties) "alias" <;> simp [Value.string?]

theorem block?_iff (h : body g = .ok v) (hn : (idsOf g.resources).Nodup) {type : String}
    {b : Value} : block? v type id = some b ↔
      ∃ r ∈ g.resources, r.id = id ∧ typeName? r.kind = some type ∧ block g r = .ok b := by
  obtain ⟨types, hv, hg⟩ := body_blocks h hn
  rw [block?_eq hv, hg.get?_iff hn]

theorem mem_aliases_iff {a : String} (h : Forall₂ (fun r e => alias? e = some r.id)
    (g.resources.filter (·.kind = .provider)) (providerEntries v)) :
    (∃ e ∈ providerEntries v, alias? e = some a) ↔ g.Provides a := by
  rw [← exists_iff_of_forall₂ (P := (·.id = a)) h fun r _ e _ hr => by simp [hr]]
  simp [Graph.Provides, and_assoc, and_comm]

end Terraform

namespace Compiled

open Terraform

theorem address_provider (c : Compiled s x order g) (h : g.Provides id) :
    address g id = "databricks." ++ id := by
  obtain ⟨q, hq, hi, hk⟩ := h
  rw [← hi, address_id c.ids_nodup hq, typeName?_eq_none.mpr hk]
  simp

-- Nothing but a provider has an address under `databricks`.
theorem address_provider_iff (c : Compiled s x order g) (h : id ∈ idsOf g.resources) :
    (∃ a, g.Provides a ∧ address g id = "databricks." ++ a) ↔ g.Provides id := by
  constructor
  case mp =>
    intro ⟨a, ha, he⟩
    exact address_inj (c.addressable h) (he.trans (c.address_provider ha).symm) ▸ ha
  case mpr => exact fun h => ⟨id, h, c.address_provider h⟩

theorem provider_eq_none (c : Compiled s x order g) (hr : r ∈ g.resources)
    (hk : r.kind = .provider) : r.provider = none := by
  obtain ⟨_, _, hp⟩ := Stack.provider_of_expand c.expand (c.perm.mem_iff.mp hr) hk
  exact (provider_ok hp).right.right.right

theorem block_provider (c : Compiled s x order g) (hr : r ∈ g.resources) (hk : r.kind ≠ .provider)
    {b : Value} (h : block g r = .ok b) :
    b.field? "provider" = r.provider.map fun id => .string (address g id) :=
  have hp := Stack.expand_plain c.expand (c.perm.mem_iff.mp hr) hk
  (block_describes h hp <| c.orderingHints_id hr).provider

-- Where providers go by their ids, blocks lead to them as resources do.
theorem leads_iff_namesProviders (c : Compiled s x order g) (hv : body g = .ok v)
    (ha : Forall₂ (fun r e => alias? e = some r.id) (g.resources.filter (·.kind = .provider))
      (providerEntries v)) :
    (∀ type id b, block? v type id = some b → ∀ w, b.field? "provider" = some w →
      ∃ a, (∃ e ∈ providerEntries v, alias? e = some a) ∧ w = .string ("databricks." ++ a)) ↔
    g.NamesProviders := by
  have hi : ∀ r ∈ g.resources, ∀ id ∈ r.provider, id ∈ idsOf g.resources :=
    fun r hr id hi => c.mem_of_mentions hr (.inr <| .inr <| .inl hi) |>.left
  simp only [mem_aliases_iff ha]
  constructor
  case mp =>
    intro h r hr id hp
    have hk : r.kind ≠ .provider := by
      intro hk
      rw [c.provider_eq_none hr hk] at hp
      contradiction
    obtain ⟨type, ht⟩ := Option.ne_none_iff_exists'.mp <| mt typeName?_eq_none.mp hk
    obtain ⟨b, hb, hl⟩ := body_ok hv c.ids_nodup hr ht
    have hw : b.field? "provider" = some (.string (address g id)) := by
      rw [c.block_provider hr hk hb, Option.mem_def.mp hp, Option.map_some]
    obtain ⟨a, ha, he⟩ := h type r.id b hl _ hw
    exact c.address_provider_iff (hi r hr id hp) |>.mp ⟨a, ha, Value.string.inj he⟩
  case mpr =>
    intro h type id b hl w hw
    obtain ⟨r, hr, _, ht, hb⟩ := block?_iff hv c.ids_nodup |>.mp hl
    have hk : r.kind ≠ .provider := fun hk => by simp [hk, typeName?] at ht
    rw [c.block_provider hr hk hb] at hw
    obtain ⟨id, hp, hw⟩ := Option.map_eq_some_iff.mp hw
    have hg := h r hr id hp
    exact ⟨id, hg, by rw [← hw, c.address_provider hg]⟩

theorem provided_iff (c : Compiled s x order g) (hv : body g = .ok v) : Provided g v ↔
    (∀ r ∈ g.resources, r.kind = .provider → KeepsAlias r.id r.properties) ∧
      g.NamesProviders := by
  obtain ⟨entries, hf, he⟩ := providerEntries_eq hv
  have ha : Forall₂ (fun r e => alias? e = some r.id) (g.resources.filter (·.kind = .provider))
      entries ↔ ∀ r ∈ g.resources.filter (·.kind = .provider), KeepsAlias r.id r.properties := by
    refine forall₂_iff_forall hf fun r hr e h => providerEntry_alias? h ?_
    simpa using (mem_filter.mp hr).right
  simp only [mem_filter, decide_eq_true_eq, and_imp] at ha
  rw [← ha, ← he]
  constructor
  case mp  => exact fun h => ⟨h.aliases, c.leads_iff_namesProviders hv h.aliases |>.mp h.leads⟩
  case mpr => exact fun ⟨ha, hb⟩ => ⟨ha, c.leads_iff_namesProviders hv ha |>.mpr hb⟩

theorem mem_providers_iff (c : Compiled s x order g) :
    id ∈ Dict.keys s.providers ↔ g.Provides id := by
  constructor
  case mp =>
    intro h
    obtain ⟨e, he, hi⟩ := mem_map.mp h
    obtain ⟨q, hq, hp⟩ := Stack.expand_provider c.expand he
    obtain ⟨hqi, hk, _⟩ := provider_ok hp
    exact ⟨q, c.perm.mem_iff.mpr hq, hqi.trans hi, hk⟩
  case mpr =>
    intro ⟨q, hq, hi, hk⟩
    obtain ⟨e, he, hp⟩ := Stack.provider_of_expand c.expand (c.perm.mem_iff.mp hq) hk
    exact mem_map.mpr ⟨e, he, (provider_ok hp).left.symm.trans hi⟩

theorem keepsAlias_iff (c : Compiled s x order g) :
    (∀ r ∈ g.resources, r.kind = .provider → KeepsAlias r.id r.properties) ↔
      ∀ e ∈ s.providers, KeepsAlias e.1 e.2.arguments := by
  constructor
  case mp =>
    intro h e he
    obtain ⟨r, hr, hp⟩ := Stack.expand_provider c.expand he
    obtain ⟨hi, hk, ha, _⟩ := provider_ok hp
    exact hi ▸ ha ▸ h r (c.perm.mem_iff.mpr hr) hk
  case mpr =>
    intro h r hr hk
    obtain ⟨e, he, hp⟩ := Stack.provider_of_expand c.expand (c.perm.mem_iff.mp hr) hk
    obtain ⟨hi, _, ha, _⟩ := provider_ok hp
    exact hi ▸ ha ▸ h e he

-- Where the default provider is one of the stack, resources name what the declarations name.
theorem namesProviders_iff (c : Compiled s x order g) (hv : s.violations = []) :
    s.NamesProviders ↔ g.NamesProviders := by
  simp only [Graph.NamesProviders, ← c.mem_providers_iff]
  constructor
  case mp =>
    intro h r hr id hi
    have ho : ∀ d ∈ s.resources.declarations, ∀ o ∈ d.options,
        ∀ id ∈ s.context.providerOf o, id ∈ Dict.keys s.providers := by
      intro d hd o ho id hi
      cases ht : o.provider
      case none =>
        apply Stack.defaultProvider_mem hv
        simpa [Context.providerOf, Stack.context, ht] using hi
      case some t =>
        have he : Placeholder.normalize t = id := by simpa [Context.providerOf, ht] using hi
        exact he ▸ h d hd o ho t ht
    cases Stack.makes_of_expand c.expand (c.perm.mem_iff.mp hr)
    case provider hp =>
      rw [(provider_ok hp).right.right.right] at hi
      contradiction
    case primary d _ hd _ hp =>
      obtain ⟨o, hm, he⟩ := hp.provider_eq
      exact ho d hd o hm id <| he ▸ hi
    case bound d _ hd hp hb =>
      obtain ⟨o, hm, he⟩ := hp.provider_eq
      exact ho d hd o hm id <| he ▸ hb.boundTo.provider ▸ hi
  case mpr =>
    intro h d hd o ho t ht
    obtain ⟨_, he, hs, _⟩ := Stack.exists_part c.expand hd
    obtain ⟨r, hr, hp⟩ := Declaration.carried (ofDeclaration_ok he) ho
    apply h r (c.perm.mem_iff.mpr <| hs hr)
    rw [hp, Context.providerOf, Option.mem_def.mp ht]
    rfl

end Compiled

-- Of a stack that is valid by itself, the configuration leads to providers exactly if the declarations
-- name providers, and no provider has another alias among its arguments.
theorem Stack.emit_provided_iff {d : Document} (hv : s.violations = []) (h : s.compile = .ok g)
    (hd : g.emit .terraform = .ok d) :
    (Terraform.Provided g d.body ↔
      (∀ e ∈ s.providers, KeepsAlias e.1 e.2.arguments) ∧ s.NamesProviders) ∧
    (s.NamesProviders ↔ g.NamesProviders) := by
  obtain ⟨x, order, c⟩ := compile_compiled h
  have hn := c.namesProviders_iff hv
  exact ⟨by rw [c.provided_iff (Graph.emit_ok hd), c.keepsAlias_iff, hn], hn⟩

-- Two providers, of which the first one has these arguments, and two groups, of which the second one
-- names this provider.
def providedGroups (arguments : Properties) (provider : String) : Stack :=
  { (default : Stack) with
    name      := "s"
    providers := [("databricks", ⟨Provider.defaultPlugin, arguments⟩),
      ("spare", ⟨Provider.defaultPlugin, []⟩)]
    resources := { (default : Sections) with
      groups := [
        { (default : Group) with displayName := "a" },
        { (default : Group) with
          displayName := "b"
          options     := { Options.none with provider := some provider } }] } }

def spareGroup : Stack :=
  providedGroups [("host", .string "h")] "$\x7bresources.spare\x7d"

theorem emit_provided_iff_spareGroup : ∃ g d, spareGroup.violations = [] ∧
    spareGroup.compile = .ok g ∧ g.emit .terraform = .ok d ∧ Terraform.Provided g d.body ∧
      g.NamesProviders := by
  let g := spareGroup.compile.toOption.getD default
  let d := (g.emit .terraform).toOption.getD default
  have hv : spareGroup.violations = [] := by decide +kernel
  have hg : spareGroup.compile = .ok g := eq_ok_of_isSome (by decide +kernel)
  have hd : g.emit .terraform = .ok d := eq_ok_of_isSome (by decide +kernel)
  obtain ⟨hp, hn⟩ := Stack.emit_provided_iff hv hg hd
  have hs : spareGroup.NamesProviders := by decide +kernel
  exact ⟨g, d, hv, hg, hd, hp.mpr ⟨by decide +kernel, hs⟩, hn.mp hs⟩

-- A stack that is valid by itself, of which the configuration does not lead to providers.
def Stack.Misleads (s : Stack) : Prop :=
  ∃ g d, s.violations = [] ∧ s.compile = .ok g ∧ g.emit .terraform = .ok d ∧
    ¬Terraform.Provided g d.body

theorem Stack.Misleads.of_compile {s : Stack} {g : Graph} (hv : s.violations = [])
    (hg : s.compile = .ok g) (hd : (g.emit .terraform).toOption.isSome)
    (hn : ¬((∀ r ∈ g.resources, r.kind = .provider → KeepsAlias r.id r.properties) ∧
      g.NamesProviders)) : s.Misleads := by
  have hd := eq_ok_of_isSome hd
  obtain ⟨_, _, c⟩ := compile_compiled hg
  exact ⟨g, _, hv, hg, hd, fun h => hn <| c.provided_iff (Graph.emit_ok hd) |>.mp h⟩

-- The first provider goes by another alias.
def aliasedProvider : Stack :=
  providedGroups [("alias", .string "x")] "spare"

-- What the second group names is the first one.
def groupForProvider : Stack :=
  providedGroups [] "group-a"

theorem misleads_aliased : aliasedProvider.Misleads ∧ groupForProvider.Misleads := by
  have ha := eq_ok_of_isSome (x := aliasedProvider.compile) (by decide +kernel)
  have hg := eq_ok_of_isSome (x := groupForProvider.compile) (by decide +kernel)
  constructor
  case left  => exact .of_compile (by decide +kernel) ha (by decide +kernel) (by decide +kernel)
  case right => exact .of_compile (by decide +kernel) hg (by decide +kernel) (by decide +kernel)

end Lakehouse
