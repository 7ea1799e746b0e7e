import Lakehouse.Proofs.Compilation
import Lakehouse.Proofs.Nesting
import Mathlib.Data.List.Perm.Basic

namespace Lakehouse

open List Attempt Expansion Relation

variable {c : Context} {s s' : Stack} {g g' : Graph} {rs rs' : List Resource} {x x' : Expansion}

-- The schema with its tables and its volumes in another order.
structure Schema.Reorders (s s' : Schema) : Prop where
  same    : s' = { s with tables := s'.tables, volumes := s'.volumes }
  tables  : s.tables ~ s'.tables
  volumes : s.volumes ~ s'.volumes

-- The catalog with its schemas in another order, and what is in them.
structure Catalog.Reorders (d d' : Catalog) : Prop where
  same    : d' = { d with schemas := d'.schemas }
  schemas : Comp (Forall₂ Schema.Reorders) Perm d.schemas d'.schemas

-- Each section in an order of its own.
structure Sections.Reorders (x x' : Sections) : Prop where
  groups                : x.groups ~ x'.groups
  users                 : x.users ~ x'.users
  servicePrincipals     : x.servicePrincipals ~ x'.servicePrincipals
  catalogs              : Comp (Forall₂ Catalog.Reorders) Perm x.catalogs x'.catalogs
  warehouses            : x.warehouses ~ x'.warehouses
  vectorSearchEndpoints : x.vectorSearchEndpoints ~ x'.vectorSearchEndpoints
  notebooks             : x.notebooks ~ x'.notebooks
  workspaceFiles        : x.workspaceFiles ~ x'.workspaceFiles
  pipelines             : x.pipelines ~ x'.pipelines
  jobs                  : x.jobs ~ x'.jobs

structure Stack.Reorders (s s' : Stack) : Prop where
  settings  : s'.settings = s.settings
  providers : s'.providers = s.providers
  resources : s.resources.Reorders s'.resources

section Lists

variable {α β : Type} {R : α → α → Prop} {xs xs' ys ys' : List α}

theorem reorders_symm (hs : ∀ x y, R x y → R y x) (h : Comp (Forall₂ R) Perm xs xs') :
    Comp (Forall₂ R) Perm xs' xs := by
  have ⟨l, hl, hp⟩ := h
  exact perm_comp_forall₂ hp.symm <| hl.flip.imp fun _ _ h => hs _ _ h

theorem reorders_append (hx : Comp (Forall₂ R) Perm xs xs') (hy : Comp (Forall₂ R) Perm ys ys') :
    Comp (Forall₂ R) Perm (xs ++ ys) (xs' ++ ys') := by
  have ⟨l, hl, hp⟩ := hx
  have ⟨m, hm, hq⟩ := hy
  exact ⟨l ++ m, rel_append hl hm, hp.append hq⟩

theorem flatMap_reorders {f : α → List β} (h : Comp (Forall₂ fun x y => f x ~ f y) Perm xs xs') :
    xs.flatMap f ~ xs'.flatMap f := by
  have ⟨l, hl, hp⟩ := h
  refine .trans ?_ (hp.flatMap_right f)
  clear h hp
  induction hl
  case nil          => exact .nil
  case cons hf _ ih => exact hf.append ih

theorem mapM_perm {ε : Type} {f : α → Except ε β} {zs : List β} (hx : xs ~ xs')
    (h : xs.mapM f = .ok zs) : ∃ zs', xs'.mapM f = .ok zs' ∧ zs ~ zs' := by
  have ⟨zs', hz, hp⟩ := perm_comp_forall₂ hx.symm (mapM_ok_iff.mp h)
  exact ⟨zs', mapM_ok_iff.mpr hz, hp.symm⟩

theorem mapM_reorders {ε : Type} {Q : β → β → Prop} {f : α → Except ε β} {zs : List β}
    (hf : ∀ x x' z, R x x' → f x = .ok z → ∃ z', f x' = .ok z' ∧ Q z z')
    (hx : Comp (Forall₂ R) Perm xs xs') (h : xs.mapM f = .ok zs) :
    ∃ zs', xs'.mapM f = .ok zs' ∧ Comp (Forall₂ Q) Perm zs zs' := by
  have ⟨l, hl, hp⟩ := hx
  have ⟨ms, hm, hq⟩ := mapM_forall₂ hf hl h
  have ⟨zs', hz, hp'⟩ := mapM_perm hp hm
  exact ⟨zs', hz, ms, hq, hp'⟩

end Lists

theorem Schema.Reorders.symm {x x' : Schema} (e : x.Reorders x') : x'.Reorders x where
  same    := by rw [e.same]
  tables  := e.tables.symm
  volumes := e.volumes.symm

theorem Catalog.Reorders.symm {d d' : Catalog} (e : d.Reorders d') : d'.Reorders d where
  same    := by rw [e.same]
  schemas := reorders_symm (fun _ _ => Schema.Reorders.symm) e.schemas

theorem Stack.Reorders.symm (e : s.Reorders s') : s'.Reorders s where
  settings  := e.settings.symm
  providers := e.providers.symm
  resources := {
    groups                := e.resources.groups.symm
    users                 := e.resources.users.symm
    servicePrincipals     := e.resources.servicePrincipals.symm
    catalogs              := reorders_symm (fun _ _ => Catalog.Reorders.symm) e.resources.catalogs
    warehouses            := e.resources.warehouses.symm
    vectorSearchEndpoints := e.resources.vectorSearchEndpoints.symm
    notebooks             := e.resources.notebooks.symm
    workspaceFiles        := e.resources.workspaceFiles.symm
    pipelines             := e.resources.pipelines.symm
    jobs                  := e.resources.jobs.symm }

theorem Schema.Reorders.expand {x x' : Schema} {catalog : Parent} (e : x.Reorders x')
    (h : x.expand c catalog = .ok rs) : ∃ rs', x'.expand c catalog = .ok rs' ∧ rs ~ rs' := by
  have ⟨own, ho, ts, ht, vs, hv, hr⟩ := expand_ok_iff.mp h
  have ⟨ts', ht', hpt⟩ := mapM_perm e.tables ht
  have ⟨vs', hv', hpv⟩ := mapM_perm e.volumes hv
  rw [← own_congr e.same] at ho
  rw [← parent_congr e.same] at ht' hv'
  refine ⟨_, expand_ok_iff.mpr ⟨own, ho, ts', ht', vs', hv', rfl⟩, ?_⟩
  exact hr ▸ (hpt.flatten.append_left own |>.append hpv.flatten)

theorem Catalog.Reorders.expand {d d' : Catalog} (e : d.Reorders d') (h : d.expand c = .ok rs) :
    ∃ rs', d'.expand c = .ok rs' ∧ rs ~ rs' := by
  have ⟨own, ho, ss, hs, hr⟩ := expand_ok_iff.mp h
  have ⟨ss', hs', hps⟩ := mapM_reorders (Q := Perm) (fun _ _ _ e h => e.expand h) e.schemas hs
  rw [← own_congr e.same] at ho
  rw [← parent_congr e.same] at hs'
  refine ⟨_, expand_ok_iff.mpr ⟨own, ho, ss', hs', rfl⟩, ?_⟩
  have hf : ss.flatten ~ ss'.flatten := by simpa using flatMap_reorders (f := id) hps
  exact hr ▸ hf.append_left own

inductive Declaration.Reorders : Declaration → Declaration → Prop
  | refl (d : Declaration) : Reorders d d
  | catalog {d d' : Catalog} (e : d.Reorders d') : Reorders (.catalog d) (.catalog d')

theorem Sections.Reorders.declarations {x x' : Sections} (e : x.Reorders x') :
    Comp (Forall₂ Declaration.Reorders) Perm x.declarations x'.declarations := by
  have hs : ∀ {α : Type} {xs xs' : List α} (f : α → Declaration), xs ~ xs' →
      Comp (Forall₂ Declaration.Reorders) Perm (xs.map f) (xs'.map f) :=
    fun f h => ⟨_, forall₂_same.mpr fun d _ => .refl d, h.map f⟩
  have hc : Comp (Forall₂ Declaration.Reorders) Perm
      (x.catalogs.map .catalog) (x'.catalogs.map .catalog) := by
    have ⟨l, hl, hp⟩ := e.catalogs
    refine ⟨l.map .catalog, ?_, hp.map _⟩
    simpa using hl.imp fun _ _ => .catalog
  refine reorders_append ?_ (hs .job e.jobs)
  refine reorders_append ?_ (hs .pipeline e.pipelines)
  refine reorders_append ?_ (hs .workspaceFile e.workspaceFiles)
  refine reorders_append ?_ (hs .notebook e.notebooks)
  refine reorders_append ?_ (hs .vectorSearchEndpoint e.vectorSearchEndpoints)
  refine reorders_append ?_ (hs .warehouse e.warehouses)
  refine reorders_append ?_ hc
  refine reorders_append ?_ (hs .servicePrincipal e.servicePrincipals)
  exact reorders_append (hs .group e.groups) (hs .user e.users)

-- The same resources and node graphs in another order.
structure Expansion.Reorders (x x' : Expansion) : Prop where
  resources : x.resources ~ x'.resources
  pipelines : x.pipelines ~ x'.pipelines

theorem Declaration.Reorders.ofDeclaration {d d' : Declaration} (e : d.Reorders d')
    (h : ofDeclaration c d = .ok x) : ∃ x', ofDeclaration c d' = .ok x' ∧ x.Reorders x' := by
  cases e
  case refl => exact ⟨x, h, .refl _, .refl _⟩
  case catalog e =>
    simp only [Expansion.ofDeclaration, bind_ok_iff] at h ⊢
    obtain ⟨rs, hr, y, hy, _, ha, hx⟩ := h
    cases hy
    cases hx
    obtain ⟨rs', hr', hp⟩ := e.expand hr
    have ha' : rs'.forM (fun r => checkAddressable r.id) = .ok () :=
      forM_ok_iff.mpr fun r h => forM_ok_iff.mp ha r <| hp.mem_iff.mpr h
    exact ⟨_, ⟨rs', hr', ⟨rs', []⟩, rfl, (), ha', rfl⟩, hp, .refl _⟩

theorem Stack.Reorders.expand (e : s.Reorders s') (h : s.expand = .ok x) :
    ∃ x', s'.expand = .ok x' ∧ x.Reorders x' := by
  have ⟨providers, hp, h⟩ := bind_ok_iff.mp h
  have ⟨parts, hd, hx⟩ := bind_ok_iff.mp h
  cases hx
  have hc : s'.context = s.context := by simp [context, defaultProvider, e.settings, e.providers]
  have ⟨parts', hd', l, hl, hq⟩ := mapM_reorders (fun _ _ _ e h => e.ofDeclaration h)
    e.resources.declarations hd
  rw [← e.settings, ← e.providers] at hp
  rw [← hc] at hd'
  refine ⟨_, bind_ok_iff.mpr ⟨providers, hp, bind_ok_iff.mpr ⟨parts', hd', rfl⟩⟩, ?_, ?_⟩
  · refine Perm.append_left providers <| flatMap_reorders ⟨l, hl.imp fun _ _ h => h.resources, hq⟩
  · exact flatMap_reorders ⟨l, hl.imp fun _ _ h => h.pipelines, hq⟩

section Resources

variable {rs rs' : List Resource}

theorem depends_perm (h : rs ~ rs') : Depends rs = Depends rs' := by
  funext a b
  simp only [Depends, h.mem_iff]

theorem allSound_perm (h : rs ~ rs') : Resolution.AllSound rs ↔ Resolution.AllSound rs' := by
  simp only [Resolution.AllSound, Link.Sound, idsOf, h.mem_iff, (h.map _).mem_iff]

end Resources

theorem Stack.Reorders.compile_isOk (e : s.Reorders s') (h : ∃ g, s.compile = .ok g) :
    ∃ g', s'.compile = .ok g' := by
  have ⟨x, hx, hn, hs, ha⟩ := compile_isOk_iff.mp h
  have ⟨x', hx', p⟩ := e.expand hx
  refine compile_isOk_iff.mpr ⟨x', hx', (p.resources.map _).nodup_iff.mp hn, ?_, ?_⟩
  · exact allSound_perm p.resources |>.mp hs
  · exact depends_perm p.resources ▸ ha

theorem Stack.Reorders.resources_perm (e : s.Reorders s') (h : s.compile = .ok g)
    (h' : s'.compile = .ok g') : g.resources ~ g'.resources ∧ g.pipelines ~ g'.pipelines := by
  have ⟨x, _, c⟩ := compile_compiled h
  have ⟨x', _, c'⟩ := compile_compiled h'
  have ⟨y, hy, p⟩ := e.expand c.expand
  cases hy.symm.trans c'.expand
  exact ⟨c.perm.trans <| p.resources.trans c'.perm.symm, c.pipelines ▸ c'.pipelines ▸ p.pipelines⟩

-- What is provisioned in the same order is the same.
theorem Stack.Reorders.resources_eq (e : s.Reorders s') (h : s.compile = .ok g)
    (h' : s'.compile = .ok g') (hi : idsOf g.resources = idsOf g'.resources) :
    g.resources = g'.resources := by
  have ⟨_, _, c⟩ := compile_compiled h
  have ⟨hp, _⟩ := e.resources_perm h h'
  refine eq_of_map_eq (fun r hr q hq he => ?_) hi
  exact inj_on_of_nodup_map c.ids_nodup hr (hp.mem_iff.mpr hq) he

-- The order of the declarations is of no account but to the order of what is made of them.
theorem Stack.Reorders.compile_same (e : s.Reorders s') :
    ((∃ g, s.compile = .ok g) ↔ ∃ g', s'.compile = .ok g') ∧
      ∀ g g', s.compile = .ok g → s'.compile = .ok g' →
        g.resources ~ g'.resources ∧ g.edges ~ g'.edges ∧ g.pipelines ~ g'.pipelines := by
  refine ⟨⟨e.compile_isOk, e.symm.compile_isOk⟩, fun g g' h h' => ?_⟩
  have ⟨_, _, c⟩ := compile_compiled h
  have ⟨_, _, c'⟩ := compile_compiled h'
  have ⟨hr, hp⟩ := e.resources_perm h h'
  exact ⟨hr, c.edges_perm c' hr, hp⟩

-- Groups of which the first one is to come after the second one, and schemas that hold tables.
def groupsAndSchemas (groups : List Group) (schemas : List Schema) : Stack :=
  { (default : Stack) with
    providers := [("databricks", ⟨Provider.defaultPlugin, []⟩)]
    resources := { (default : Sections) with
      groups
      catalogs := [{ (default : Catalog) with name := "c", schemas }] } }

def laterGroup : Group :=
  { (default : Group) with
    displayName := "a", options := { Options.none with dependsOn := ["group-b"] } }

def earlierGroup : Group :=
  { (default : Group) with displayName := "b" }

def tablesOf (schema : String) (tables : List String) : Schema :=
  { (default : Schema) with
    name := schema, tables := tables.map fun name => { (default : Table) with name } }

def declaredStack : Stack :=
  groupsAndSchemas [laterGroup, earlierGroup] [tablesOf "x" ["t", "u"], tablesOf "y" []]

def reorderedStack : Stack :=
  groupsAndSchemas [earlierGroup, laterGroup] [tablesOf "y" [], tablesOf "x" ["u", "t"]]

theorem compile_same_reorderedStack : declaredStack.Reorders reorderedStack ∧
    ∃ g g', declaredStack.compile = .ok g ∧ reorderedStack.compile = .ok g' ∧
      idsOf g.resources ≠ idsOf g'.resources ∧
        g.resources ~ g'.resources ∧ g.edges ~ g'.edges ∧ g.pipelines ~ g'.pipelines := by
  let g := declaredStack.compile.toOption.getD default
  let g' := reorderedStack.compile.toOption.getD default
  have hg : declaredStack.compile = .ok g := eq_ok_of_isSome (by decide +kernel)
  have hg' : reorderedStack.compile = .ok g' := eq_ok_of_isSome (by decide +kernel)
  have hs : (tablesOf "x" ["t", "u"]).Reorders (tablesOf "x" ["u", "t"]) := ⟨rfl, .swap .., .refl _⟩
  have hc : Comp (Forall₂ Schema.Reorders) Perm [tablesOf "x" ["t", "u"], tablesOf "y" []]
      [tablesOf "y" [], tablesOf "x" ["u", "t"]] :=
    ⟨_, .cons hs <| .cons ⟨rfl, .refl _, .refl _⟩ .nil, .swap ..⟩
  have he : declaredStack.Reorders reorderedStack := {
    settings  := rfl
    providers := rfl
    resources := {
      groups                := .swap ..
      users                 := .refl _
      servicePrincipals     := .refl _
      catalogs              := ⟨_, .cons ⟨rfl, hc⟩ .nil, .refl _⟩
      warehouses            := .refl _
      vectorSearchEndpoints := .refl _
      notebooks             := .refl _
      workspaceFiles        := .refl _
      pipelines             := .refl _
      jobs                  := .refl _ } }
  exact ⟨he, g, g', hg, hg', by decide +kernel, he.compile_same.right g g' hg hg'⟩

end Lakehouse
