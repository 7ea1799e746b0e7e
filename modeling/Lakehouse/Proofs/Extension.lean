import Lakehouse.Proofs.Compilation
import Lakehouse.Proofs.Greedy
import Lakehouse.Proofs.Nesting
import Mathlib.Data.List.Flatten
/-!
Extensions of a stack. More declarations make more resources between those that were there. These
depend on each other only, so they stay what they were, in the order that they had.
-/
namespace Lakehouse

open List Attempt Expansion

variable {c : Context} {s s' : Stack} {g g' : Graph} {rs rs' : List Resource} {r : Resource}

-- The schema with more tables and volumes.
structure Schema.Extends (s s' : Schema) : Prop where
  same    : s' = { s with tables := s'.tables, volumes := s'.volumes }
  tables  : s.tables <+ s'.tables
  volumes : s.volumes <+ s'.volumes

-- The catalog with more schemas, and with more in its schemas.
structure Catalog.Extends (d d' : Catalog) : Prop where
  same    : d' = { d with schemas := d'.schemas }
  schemas : SublistForall₂ Schema.Extends d.schemas d'.schemas

-- The sections with more declarations.
structure Sections.Extends (x x' : Sections) : Prop where
  groups                : x.groups <+ x'.groups
  users                 : x.users <+ x'.users
  servicePrincipals     : x.servicePrincipals <+ x'.servicePrincipals
  catalogs              : SublistForall₂ Catalog.Extends x.catalogs x'.catalogs
  warehouses            : x.warehouses <+ x'.warehouses
  vectorSearchEndpoints : x.vectorSearchEndpoints <+ x'.vectorSearchEndpoints
  notebooks             : x.notebooks <+ x'.notebooks
  workspaceFiles        : x.workspaceFiles <+ x'.workspaceFiles
  pipelines             : x.pipelines <+ x'.pipelines
  jobs                  : x.jobs <+ x'.jobs

-- The stack with more providers and declarations.
structure Stack.Extends (s s' : Stack) : Prop where
  settings        : s'.settings = s.settings
  defaultProvider : s'.defaultProvider = s.defaultProvider
  providers       : s.providers <+ s'.providers
  resources       : s.resources.Extends s'.resources

theorem sublistForall₂_append {α : Type} {R : α → α → Prop} {xs xs' ys ys' : List α}
    (hx : SublistForall₂ R xs xs') (hy : SublistForall₂ R ys ys') :
    SublistForall₂ R (xs ++ ys) (xs' ++ ys') := by
  have ⟨l, hl, hs⟩ := sublistForall₂_iff.mp hx
  have ⟨m, hm, ht⟩ := sublistForall₂_iff.mp hy
  exact sublistForall₂_iff.mpr ⟨l ++ m, rel_append hl hm, hs.append ht⟩

theorem flatMap_sublist {α β : Type} {f : α → List β} {xs xs' : List α}
    (h : SublistForall₂ (fun x x' => f x <+ f x') xs xs') : xs.flatMap f <+ xs'.flatMap f := by
  induction h
  case nil             => exact nil_sublist _
  case cons hs _ ih    => exact hs.append ih
  case cons_right _ ih => exact ih.trans <| sublist_append_right ..

theorem flatten_sublist {α : Type} {xs xs' : List (List α)} (h : SublistForall₂ (· <+ ·) xs xs') :
    xs.flatten <+ xs'.flatten := by
  simpa using flatMap_sublist (f := id) h

theorem Schema.Extends.expand {x x' : Schema} {catalog : Parent} (e : x.Extends x')
    (h : x.expand c catalog = .ok rs) (h' : x'.expand c catalog = .ok rs') : rs <+ rs' := by
  have ⟨own, ho, ts, ht, vs, hv, hr⟩ := expand_ok_iff.mp h
  have ⟨own', ho', ts', ht', vs', hv', hr'⟩ := expand_ok_iff.mp h'
  rw [own_congr e.same] at ho'
  rw [parent_congr e.same] at ht' hv'
  cases ho.symm.trans ho'
  have hst := mapM_sublist e.tables ht ht'
  have hsv := mapM_sublist e.volumes hv hv'
  exact hr ▸ hr' ▸ (hst.flatten.append_left own |>.append hsv.flatten)

theorem Catalog.Extends.expand {d d' : Catalog} (e : d.Extends d')
    (h : d.expand c = .ok rs) (h' : d'.expand c = .ok rs') : rs <+ rs' := by
  have ⟨own, ho, ss, hs, hr⟩ := expand_ok_iff.mp h
  have ⟨own', ho', ss', hs', hr'⟩ := expand_ok_iff.mp h'
  rw [own_congr e.same] at ho'
  rw [parent_congr e.same] at hs'
  cases ho.symm.trans ho'
  have hss := mapM_sublistForall₂ (fun _ _ _ _ e h h' => e.expand h h') e.schemas hs hs'
  exact hr ▸ hr' ▸ (flatten_sublist hss).append_left own

inductive Declaration.Extends : Declaration → Declaration → Prop
  | refl (d : Declaration) : Extends d d
  | catalog {d d' : Catalog} (e : d.Extends d') : Extends (.catalog d) (.catalog d')

instance : Std.Refl Declaration.Extends :=
  ⟨.refl⟩

theorem Sections.Extends.declarations {x x' : Sections} (e : x.Extends x') :
    SublistForall₂ Declaration.Extends x.declarations x'.declarations := by
  have hs : ∀ {α : Type} {xs xs' : List α} (f : α → Declaration), xs <+ xs' →
      SublistForall₂ Declaration.Extends (xs.map f) (xs'.map f) :=
    fun f h => (h.map f).sublistForall₂
  have hc : SublistForall₂ Declaration.Extends
      (x.catalogs.map .catalog) (x'.catalogs.map .catalog) := by
    have ⟨l, hl, hs⟩ := sublistForall₂_iff.mp e.catalogs
    refine sublistForall₂_iff.mpr ⟨l.map .catalog, ?_, hs.map _⟩
    simpa using hl.imp fun _ _ => .catalog
  refine sublistForall₂_append ?_ (hs .job e.jobs)
  refine sublistForall₂_append ?_ (hs .pipeline e.pipelines)
  refine sublistForall₂_append ?_ (hs .workspaceFile e.workspaceFiles)
  refine sublistForall₂_append ?_ (hs .notebook e.notebooks)
  refine sublistForall₂_append ?_ (hs .vectorSearchEndpoint e.vectorSearchEndpoints)
  refine sublistForall₂_append ?_ (hs .warehouse e.warehouses)
  refine sublistForall₂_append ?_ hc
  refine sublistForall₂_append ?_ (hs .servicePrincipal e.servicePrincipals)
  exact sublistForall₂_append (hs .group e.groups) (hs .user e.users)

theorem Declaration.Extends.resources {d d' : Declaration} {x x' : Expansion} (e : d.Extends d')
    (h : ofDeclaration c d = .ok x) (h' : ofDeclaration c d' = .ok x') :
    x.resources <+ x'.resources := by
  cases e
  case refl =>
    cases h.symm.trans h'
    exact .refl _
  case catalog e => exact e.expand (ofDeclaration_ok h) (ofDeclaration_ok h')

theorem Stack.Extends.expand {x x' : Expansion} (e : s.Extends s') (h : s.expand = .ok x)
    (h' : s'.expand = .ok x') : x.resources <+ x'.resources := by
  have ⟨providers, hp, h⟩ := bind_ok_iff.mp h
  have ⟨parts, hd, hx⟩ := bind_ok_iff.mp h
  have ⟨providers', hp', h'⟩ := bind_ok_iff.mp h'
  have ⟨parts', hd', hx'⟩ := bind_ok_iff.mp h'
  cases hx
  cases hx'
  have hc : s'.context = s.context := by simp [context, e.settings, e.defaultProvider]
  rw [e.settings] at hp'
  rw [hc] at hd'
  refine (mapM_sublist e.providers hp hp').append <| flatMap_sublist ?_
  exact mapM_sublistForall₂ (fun _ _ _ _ e h h' => e.resources h h') e.resources.declarations hd hd'

namespace Compiled

variable {x x' : Expansion} {order order' : List Nat}

-- The resources of a graph come in the greedy order.
theorem greedy (c : Compiled s x order g) :
    Order.Greedy (idsOf x.resources) (Depends x.resources) [] (idsOf g.resources) := by
  have ho := c.sort
  rw [Resolution.length_idsOf] at ho
  rw [c.idsOf_eq, Resolution.ids_eq]
  exact (Resolution.names c.nodup c.sound).sort_greedy ho

theorem depends_mem (c : Compiled s x order g) {a b : String} (h : Depends x.resources a b) :
    b ∈ idsOf x.resources := by
  have ⟨r, hr, _, hm⟩ := h
  have ⟨l, hl, ht⟩ := Resource.mentions_iff.mp hm
  exact ht ▸ (c.sound r hr l hl).left

-- What depends on what in the part of an expansion.
theorem depends_iff (c' : Compiled s' x' order' g') (hs : x.resources <+ x'.resources) {a b : String}
    (ha : a ∈ idsOf x.resources) : Depends x'.resources a b ↔ Depends x.resources a b := by
  constructor
  case mpr => exact fun ⟨r, hr, h⟩ => ⟨r, hs.subset hr, h⟩
  case mp =>
    intro ⟨r, hr, hi, hm⟩
    have ⟨q, hq, he⟩ := mem_map.mp ha
    have hqr : q = r := inj_on_of_nodup_map c'.nodup (hs.subset hq) hr (he.trans hi.symm)
    exact ⟨q, hq, he, hqr ▸ hm⟩

theorem idsOf_eq_filter (c : Compiled s x order g) (c' : Compiled s' x' order' g')
    (hs : x.resources <+ x'.resources) :
    (idsOf g'.resources).filter (· ∈ idsOf x.resources) = idsOf g.resources := by
  have hf := c'.greedy.filter (hs.map _) c'.nodup (fun _ ha _ => c'.depends_iff hs ha)
    fun _ _ _ h => c.depends_mem h
  exact hf.unique c.greedy

end Compiled

namespace Stack.Extends

-- What was there stays as it was, and in order.
theorem compile_stable (e : s.Extends s') (h : s.compile = .ok g) (h' : s'.compile = .ok g') :
    g'.resources.filter (·.id ∈ idsOf g.resources) = g.resources ∧
      g'.edges.filter (·.dependent ∈ idsOf g.resources) = g.edges := by
  have ⟨x, order, c⟩ := compile_compiled h
  have ⟨x', order', c'⟩ := compile_compiled h'
  have hs := e.expand c.expand c'.expand
  simp only [c.mem_idsOf_iff]
  constructor
  case left =>
    apply eq_of_map_eq (f := Resource.id)
    · intro q hq r hr
      have hq' := c'.perm.mem_iff.mp (mem_filter.mp hq).left
      have hr' := hs.subset (c.perm.mem_iff.mp hr)
      exact inj_on_of_nodup_map c'.nodup hq' hr'
    · exact (filter_map ..).symm.trans <| c.idsOf_eq_filter c' hs
  case right =>
    rw [c'.edges, c.edges, filter_flatMap_of (q := (·.id ∈ idsOf x.resources))]
    · have hf : x'.resources.filter (·.id ∈ idsOf x.resources) = x.resources :=
        filter_key_eq hs c'.nodup
      rw [hf]
    · exact fun r _ e he => by rw [Resource.dependent_of_mem_edges he]

end Stack.Extends

-- A user of the group `b`, beside these groups and a catalog with these schemas.
def catalogStack (providers : Dict Provider) (groups : List Group) (schemas : List Schema) : Stack :=
  { (default : Stack) with
    providers
    resources := { (default : Sections) with
      groups
      users := [{ (default : User) with
        userName := "u"
        groupIds := ["$\x7bresources.group-b.id\x7d"] }]
      catalogs := [{ (default : Catalog) with name := "c", schemas }] } }

def fewDeclarations : Stack :=
  catalogStack [("databricks", { plugin := "databricks", arguments := [] })]
    [{ (default : Group) with displayName := "b" }] [{ (default : Schema) with name := "x" }]

-- Each addition stands before what was there, the provider apart.
def moreDeclarations : Stack :=
  catalogStack
    [("databricks", { plugin := "databricks", arguments := [] }),
     ("spare", { plugin := "databricks", arguments := [] })]
    [{ (default : Group) with displayName := "a" }, { (default : Group) with displayName := "b" }]
    [{ (default : Schema) with name := "w" }, { (default : Schema) with name := "x" }]

theorem compile_stable_moreDeclarations : ∃ g g', fewDeclarations.compile = .ok g ∧
    moreDeclarations.compile = .ok g' ∧ fewDeclarations.Extends moreDeclarations ∧
      g.resources.length + 3 = g'.resources.length ∧
        g'.resources.filter (·.id ∈ idsOf g.resources) = g.resources ∧
          g'.edges.filter (·.dependent ∈ idsOf g.resources) = g.edges := by
  let g := fewDeclarations.compile.toOption.getD default
  let g' := moreDeclarations.compile.toOption.getD default
  have hg : fewDeclarations.compile = .ok g := eq_ok_of_isSome (by decide +kernel)
  have hg' : moreDeclarations.compile = .ok g' := eq_ok_of_isSome (by decide +kernel)
  have he : fewDeclarations.Extends moreDeclarations := {
    settings        := rfl
    defaultProvider := rfl
    providers       := .cons_cons _ (nil_sublist _)
    resources       := {
      groups                := .cons _ (.refl _)
      users                 := .refl _
      servicePrincipals     := .refl _
      catalogs              := .cons ⟨rfl, .cons_right <| .cons ⟨rfl, .refl _, .refl _⟩ .nil⟩ .nil
      warehouses            := .refl _
      vectorSearchEndpoints := .refl _
      notebooks             := .refl _
      workspaceFiles        := .refl _
      pipelines             := .refl _
      jobs                  := .refl _ } }
  exact ⟨g, g', hg, hg', he, by decide +kernel, he.compile_stable hg hg'⟩

end Lakehouse
