import Lakehouse.Graph
import Lakehouse.Proofs.Resolution
/-!
Compilation. A graph has the resources of the expansion, each after all that it mentions; a stack
that expands is refused for a repeated id, for a link that leads nowhere, or for a circuit, and for
nothing else.
-/
namespace Lakehouse

open List Attempt

variable {s : Stack} {g : Graph} {rs pre : List Resource} {r : Resource}

theorem checkAddressable_ok {id : String} (h : Expansion.checkAddressable id = .ok ()) :
    Ident.isAddressable id := by
  simp only [Expansion.checkAddressable] at h
  split at h
  case isTrue ha => exact ha
  case isFalse   => contradiction

namespace Expansion

theorem provider_addressable {settings : Settings} {name : String} {p : Provider}
    (h : provider settings name p = .ok r) : Ident.isAddressable r.id := by
  have ⟨_, ha, hr⟩ := bind_ok_iff.mp h
  cases hr
  exact checkAddressable_ok ha

theorem checked_addressable {x y : Expansion}
    (h : (do x.resources.forM fun r => checkAddressable r.id; return x) = .ok y)
    (hr : r ∈ y.resources) : Ident.isAddressable r.id := by
  have ⟨_, hf, hx⟩ := bind_ok_iff.mp h
  cases hx
  exact checkAddressable_ok <| forM_ok_iff.mp hf r hr

theorem ofDeclaration_addressable {c : Context} {d : Declaration} {x : Expansion}
    (h : ofDeclaration c d = .ok x) (hr : r ∈ x.resources) : Ident.isAddressable r.id := by
  cases d <;> simp only [ofDeclaration, bind_ok_iff] at h
  case pipeline =>
    have ⟨_, _, _, _, _, _, _, hf, hx⟩ := h
    exact checked_addressable (bind_ok_iff.mpr ⟨_, hf, hx⟩) hr
  all_goals
    have ⟨_, _, _, _, _, hf, hx⟩ := h
    exact checked_addressable (bind_ok_iff.mpr ⟨_, hf, hx⟩) hr

end Expansion

-- Whatever is expanded can be addressed.
theorem Stack.expand_addressable {x : Expansion} (h : s.expand = .ok x) (hr : r ∈ x.resources) :
    Ident.isAddressable r.id := by
  have ⟨providers, hp, h⟩ := bind_ok_iff.mp h
  have ⟨parts, hd, hx⟩ := bind_ok_iff.mp h
  cases hx
  cases mem_append.mp hr
  case inl hr =>
    have ⟨_, _, h⟩ := exists_of_mem_mapM hp hr
    exact Expansion.provider_addressable h
  case inr hr =>
    have ⟨part, hm, hr⟩ := mem_flatMap.mp hr
    have ⟨_, _, h⟩ := exists_of_mem_mapM hd hm
    exact Expansion.ofDeclaration_addressable h hr

-- A resource with the id of an earlier one, where no resource before it repeats an id.
structure FirstRepeat (rs : List Resource) (first second : Resource) : Prop where
  same    : first.id = second.id
  earlier : ∃ before after, rs = before ++ second :: after ∧ (idsOf before).Nodup ∧ first ∈ before

theorem FirstRepeat.not_nodup {first second : Resource} (h : FirstRepeat rs first second) :
    ¬(idsOf rs).Nodup := by
  have ⟨before, after, he, _, hf⟩ := h.earlier
  intro hn
  have hd : second.id ∉ idsOf before := by
    rw [he, idsOf, map_append, map_cons, nodup_append] at hn
    exact fun hm => hn.right.right _ hm _ mem_cons_self rfl
  exact hd <| h.same ▸ mem_map_of_mem hf

-- The kinds of resources by their ids, the last one in front.
def seenKinds (rs : List Resource) : Dict Kind :=
  (rs.map fun r => (r.id, r.kind)).reverse

theorem seenKinds_append_singleton : seenKinds (pre ++ [r]) = (r.id, r.kind) :: seenKinds pre := by
  simp [seenKinds]

theorem seenKinds_get?_eq_none {id : String} (h : (seenKinds rs).get? id = none) :
    id ∉ idsOf rs := by
  simp only [Dict.get?, seenKinds, lookup_eq_none_iff, mem_reverse] at h
  intro hm
  have ⟨r, hr, he⟩ := mem_map.mp hm
  simpa [he] using h _ (mem_map_of_mem hr)

theorem seenKinds_get?_eq_some {id : String} {kind : Kind}
    (h : (seenKinds rs).get? id = some kind) : ∃ r ∈ rs, r.id = id ∧ r.kind = kind := by
  have ⟨_, _, he, _⟩ := lookup_eq_some_iff.mp h
  have hm : (id, kind) ∈ seenKinds rs := by simp [he]
  simpa [seenKinds] using hm

theorem nodup_append_singleton (hn : (idsOf pre).Nodup) (hr : r.id ∉ idsOf pre) :
    (idsOf (pre ++ [r])).Nodup := by
  rw [idsOf, map_append]
  exact hn.append (nodup_singleton _) (by simpa using hr)

-- In these, the resources in `pre` have been seen.
theorem checkUnique_ok (hn : (idsOf pre).Nodup) (h : checkUnique (seenKinds pre) rs = .ok ()) :
    (idsOf (pre ++ rs)).Nodup := by
  induction rs generalizing pre
  case nil => simpa using hn
  case cons r rs ih =>
    simp only [checkUnique] at h
    split at h
    case h_1 => contradiction
    case h_2 hg =>
      rw [append_cons]
      apply ih <| nodup_append_singleton hn (seenKinds_get?_eq_none hg)
      rwa [seenKinds_append_singleton]

theorem checkUnique_error {error : CompileError} (hn : (idsOf pre).Nodup)
    (h : checkUnique (seenKinds pre) rs = .error error) : ∃ first second,
      FirstRepeat (pre ++ rs) first second ∧
        error = .duplicateResource second.id first.kind second.kind := by
  induction rs generalizing pre
  case nil => contradiction
  case cons r rs ih =>
    simp only [checkUnique] at h
    split at h
    case h_1 hg =>
      have ⟨first, hf, hi, hk⟩ := seenKinds_get?_eq_some hg
      exact ⟨first, r, ⟨hi, pre, rs, rfl, hn, hf⟩, by simpa [hk] using h.symm⟩
    case h_2 hg =>
      rw [append_cons]
      apply ih <| nodup_append_singleton hn (seenKinds_get?_eq_none hg)
      rwa [seenKinds_append_singleton]

theorem nodup_of_checkUnique (h : checkUnique [] rs = .ok ()) : (idsOf rs).Nodup :=
  @checkUnique_ok _ [] nodup_nil h

theorem checkUnique_of_nodup (hn : (idsOf rs).Nodup) : checkUnique [] rs = .ok () := by
  cases h : checkUnique [] rs
  case ok => rfl
  case error e =>
    have ⟨_, _, hf, _⟩ := @checkUnique_error _ [] _ nodup_nil h
    exact hf.not_nodup hn |>.elim

theorem checkUnique_of_not_nodup (hn : ¬(idsOf rs).Nodup) : ∃ first second,
    FirstRepeat rs first second ∧
      checkUnique [] rs = .error (.duplicateResource second.id first.kind second.kind) := by
  cases h : checkUnique [] rs
  case ok => exact hn (nodup_of_checkUnique h) |>.elim
  case error e =>
    have ⟨first, second, hf, he⟩ := @checkUnique_error _ [] _ nodup_nil h
    exact ⟨first, second, hf, he ▸ rfl⟩

-- How a graph comes from the expansion of its stack.
structure Compiled (s : Stack) (x : Expansion) (order : List Nat) (g : Graph) : Prop where
  expand    : s.expand = .ok x
  nodup     : (idsOf x.resources).Nodup
  sound     : Resolution.AllSound x.resources
  sort      : Order.sort x.resources.length (Resolution.pairs x.resources) = .ok order
  resources : g.resources = order.filterMap (x.resources[·]?)
  edges     : g.edges = x.resources.flatMap Resource.edges
  pipelines : g.pipelines = x.pipelines

theorem Stack.compile_compiled (h : s.compile = .ok g) : ∃ x order, Compiled s x order g := by
  have ⟨x, hx, h⟩ := bind_ok_iff.mp h
  have ⟨_, hu, h⟩ := bind_ok_iff.mp h
  have ⟨res, hr, hg⟩ := bind_ok_iff.mp h
  have hn : (idsOf x.resources).Nodup := nodup_of_checkUnique hu
  have ⟨hs, he, ho⟩ := Resolution.ofResources_ok hn hr
  cases hg
  exact ⟨x, res.order, hx, hn, hs, ho, rfl, he, rfl⟩

theorem Stack.compile_isOk_iff : (∃ g, s.compile = .ok g) ↔ ∃ x, s.expand = .ok x ∧
    (idsOf x.resources).Nodup ∧ Resolution.AllSound x.resources ∧ Acyclic (Depends x.resources) := by
  constructor
  case mp =>
    intro ⟨_, h⟩
    have ⟨x, order, c⟩ := compile_compiled h
    refine ⟨x, c.expand, c.nodup, c.sound, ?_⟩
    have hn := Resolution.names c.nodup c.sound
    exact hn.sort_isOk_iff.mp ⟨order, Resolution.length_idsOf ▸ c.sort⟩
  case mpr =>
    intro ⟨x, h, hn, hs, ha⟩
    have ⟨_, hr⟩ := Resolution.ofResources_acyclic hn hs ha
    simp [compile, h, checkUnique_of_nodup hn, hr]

-- For a stack to compile, nothing of its resources counts but their ids and their links.
theorem Stack.compile_isOk_of_links {x : Expansion} (hx : s.expand = .ok x)
    (hn : (idsOf x.resources).Nodup)
    (hl : Forall₂ (fun r r' => r'.id = r.id ∧ r'.links = r.links) rs x.resources)
    (hr : (Resolution.ofResources rs).toOption.isSome) : ∃ g, s.compile = .ok g := by
  cases h : Resolution.ofResources rs
  case ok    => simp [compile, hx, checkUnique_of_nodup hn, Resolution.ofResources_congr hl, h]
  case error => simp [h, Except.toOption] at hr

-- One edge leads from the first id to the second one.
def Graph.Leads (g : Graph) (a b : String) : Prop :=
  ∃ e ∈ g.edges, e.dependent = a ∧ e.dependency = b

namespace Compiled

variable {x : Expansion} {order : List Nat}

theorem perm (c : Compiled s x order g) : g.resources ~ x.resources :=
  c.resources ▸ Order.sort_perm c.sort

theorem ids_nodup (c : Compiled s x order g) : (idsOf g.resources).Nodup :=
  (c.perm.map _).nodup_iff.mpr c.nodup

theorem mem_idsOf_iff (c : Compiled s x order g) {id : String} :
    id ∈ idsOf g.resources ↔ id ∈ idsOf x.resources :=
  c.perm.map _ |>.mem_iff

theorem idsOf_eq (c : Compiled s x order g) :
    idsOf g.resources = Resolution.ids x.resources order := by
  simp [Resolution.ids, c.resources, idsOf, map_filterMap]

theorem mem_edges_iff (c : Compiled s x order g) {e : Edge} :
    e ∈ g.edges ↔ ∃ r ∈ g.resources, e ∈ r.edges := by
  simp [c.edges, c.perm.mem_iff]

-- The resources alone say what the edges are.
theorem edges_perm {s' : Stack} {x' : Expansion} {order' : List Nat} {g' : Graph}
    (c : Compiled s x order g) (c' : Compiled s' x' order' g') (h : g.resources ~ g'.resources) :
    g.edges ~ g'.edges := by
  have hx : x.resources ~ x'.resources := c.perm.symm.trans <| h.trans c'.perm
  exact c.edges ▸ c'.edges ▸ hx.flatMap_right _

theorem leads_iff (c : Compiled s x order g) {a b : String} :
    g.Leads a b ↔ Depends x.resources a b := by
  simp only [Graph.Leads, Depends, c.mem_edges_iff, c.perm.mem_iff, ← Resource.exists_edge_iff]
  constructor
  case mp =>
    intro ⟨e, ⟨r, hr, he⟩, ha, hb⟩
    exact ⟨r, hr, Resource.dependent_of_mem_edges he ▸ ha, e, he, hb⟩
  case mpr =>
    intro ⟨r, hr, ha, e, he, hb⟩
    exact ⟨e, ⟨r, hr, he⟩, Resource.dependent_of_mem_edges he ▸ ha, hb⟩

theorem addressable (c : Compiled s x order g) {id : String} (h : id ∈ idsOf g.resources) :
    Ident.isAddressable id := by
  have ⟨r, hr, hi⟩ := mem_map.mp h
  exact hi ▸ Stack.expand_addressable c.expand (c.perm.mem_iff.mp hr)

theorem mem_of_mentions (c : Compiled s x order g) {id : String} (hr : r ∈ g.resources)
    (hm : r.Mentions id) : id ∈ idsOf g.resources ∧ id ≠ r.id := by
  have ⟨l, hl, ht⟩ := Resource.mentions_iff.mp hm
  have ⟨hs, hd⟩ := c.sound r (c.perm.mem_iff.mp hr) l hl
  exact ht ▸ ⟨c.mem_idsOf_iff.mpr hs, hd⟩

theorem ordered (c : Compiled s x order g) : Ordered g.Leads (idsOf g.resources) := by
  have ho := Resolution.ordered_ids c.nodup c.sound c.sort
  rw [← c.idsOf_eq] at ho
  exact fun pre a post he b h => ho pre a post he b (c.leads_iff.mp h)

end Compiled

open Relation

-- What holds of every graph that a stack compiles to.
structure Graph.Sound (s : Stack) (g : Graph) : Prop where
  resources   : ∃ x, s.expand = .ok x ∧ g.resources ~ x.resources
  nodup       : (idsOf g.resources).Nodup
  addressable : ∀ r ∈ g.resources, Ident.isAddressable r.id
  joined      : ∀ e ∈ g.edges, e.dependent ≠ e.dependency ∧
    e.dependent ∈ idsOf g.resources ∧ e.dependency ∈ idsOf g.resources
  ordered     : ∀ e ∈ g.edges,
    (idsOf g.resources).idxOf e.dependency < (idsOf g.resources).idxOf e.dependent
  linked      : ∀ r ∈ g.resources, ∀ id, r.Mentions id →
    id ∈ idsOf g.resources ∧ g.Leads r.id id
  acyclic     : Acyclic g.Leads
  owners      : ∀ r ∈ g.resources, ∀ owner, r.owner = some owner → ¬TransGen g.Leads owner r.id

theorem Stack.compile_sound (h : s.compile = .ok g) : g.Sound s := by
  have ⟨x, order, c⟩ := compile_compiled h
  have ha : ∀ a b, g.Leads a b → a ∈ idsOf g.resources := by
    intro a b hl
    have ⟨r, hr, he, _⟩ := c.leads_iff.mp hl
    exact he ▸ mem_map_of_mem (c.perm.mem_iff.mpr hr)
  have hl : ∀ r ∈ g.resources, ∀ id, r.Mentions id → g.Leads r.id id :=
    fun r hr id hm => c.leads_iff.mpr ⟨r, c.perm.mem_iff.mp hr, rfl, hm⟩
  exact {
    resources   := ⟨x, c.expand, c.perm⟩
    nodup       := c.ids_nodup
    addressable := fun r hr => c.addressable <| mem_map_of_mem hr
    joined      := by
      intro e he
      have ⟨r, hr, her⟩ := c.mem_edges_iff.mp he
      have hd := Resource.dependent_of_mem_edges her
      have ⟨hm, hne⟩ := c.mem_of_mentions hr <| Resource.exists_edge_iff.mp ⟨e, her, rfl⟩
      exact ⟨hd ▸ hne.symm, hd ▸ mem_map_of_mem hr, hm⟩
    ordered     := fun e he => c.ordered.idxOf_lt (ha _ _ ⟨e, he, rfl, rfl⟩) ⟨e, he, rfl, rfl⟩
    linked      := fun r hr id hm => ⟨c.mem_of_mentions hr hm |>.left, hl r hr id hm⟩
    acyclic     := c.ordered.acyclic ha
    owners      := fun r hr owner ho ht =>
      c.ordered.acyclic ha r.id <| .head (hl r hr owner <| .inl ho) ht
  }

-- Two groups of which the first one is to come after the second one.
def dependentGroups : Stack :=
  let group (name : String) (dependsOn : List String) : Group :=
    { (default : Group) with displayName := name, options := { Options.none with dependsOn } }
  { (default : Stack) with
    providers := [("databricks", ⟨Provider.defaultPlugin, []⟩)]
    resources := { (default : Sections) with groups := [group "a" ["group-b"], group "b" []] } }

theorem compile_sound_dependentGroups :
    ∃ g, dependentGroups.compile = .ok g ∧ g.Sound dependentGroups :=
  ⟨_, rfl, Stack.compile_sound rfl⟩

-- A stack that expands either compiles, or is refused for the first reason that there is.
theorem Stack.compile_of_expand {x : Expansion} (h : s.expand = .ok x) :
    (¬(idsOf x.resources).Nodup →
      ∃ first second, FirstRepeat x.resources first second ∧
        s.compile = .error (.duplicateResource second.id first.kind second.kind)) ∧
    ((idsOf x.resources).Nodup → ¬Resolution.AllSound x.resources →
      ∃ r l, FirstUnsound x.resources r l ∧ s.compile = .error (
        if l.target = r.id then .cyclicDependency .resources [r.id]
        else .unresolvedReference r.id l.path l.target)) ∧
    ((idsOf x.resources).Nodup → Resolution.AllSound x.resources →
      ¬Acyclic (Depends x.resources) →
      ∃ cycle walk, cycle <+ idsOf x.resources ∧ Circuit (Depends x.resources) walk ∧
        cycle ~ walk ∧ s.compile = .error (.cyclicDependency .resources cycle)) ∧
    ((idsOf x.resources).Nodup → Resolution.AllSound x.resources → Acyclic (Depends x.resources) →
      ∃ g, s.compile = .ok g) := by
  refine ⟨fun hn => ?repeated, fun hn hs => ?unsound, fun hn hs ha => ?cyclic, fun hn hs ha => ?ok⟩
  case repeated =>
    obtain ⟨first, second, hf, hu⟩ := checkUnique_of_not_nodup hn
    exact ⟨first, second, hf, by simp [compile, h, hu]⟩
  case unsound =>
    obtain ⟨r, l, hf, he⟩ := Resolution.ofResources_unsound hn hs
    exact ⟨r, l, hf, by simp [compile, h, checkUnique_of_nodup hn, he, Link.refusal]⟩
  case cyclic =>
    obtain ⟨cycle, walk, hc, hw, hp, he⟩ := Resolution.ofResources_cyclic hn hs ha
    exact ⟨cycle, walk, hc, hw, hp, by simp [compile, h, checkUnique_of_nodup hn, he]⟩
  case ok =>
    obtain ⟨res, hr⟩ := Resolution.ofResources_acyclic hn hs ha
    simp [compile, h, checkUnique_of_nodup hn, hr]

-- Two groups that are to come after each other, and one that waits for them.
def mutualGroups : Stack :=
  let group (name dependency : String) : Group :=
    { (default : Group) with
      displayName := name
      options := { Options.none with dependsOn := [dependency] } }
  { (default : Stack) with
    resources := { (default : Sections) with
      groups := [group "a" "group-b", group "b" "group-a", group "c" "group-a"] } }

theorem compile_of_expand_mutualGroups : ∃ x cycle walk, mutualGroups.expand = .ok x ∧
    cycle <+ idsOf x.resources ∧ Circuit (Depends x.resources) walk ∧ cycle ~ walk ∧
      mutualGroups.compile = .error (.cyclicDependency .resources cycle) := by
  let x := mutualGroups.expand.toOption.getD default
  have hx : mutualGroups.expand = .ok x := rfl
  have hab : Depends x.resources "group-a" "group-b" := by decide +kernel
  have hba : Depends x.resources "group-b" "group-a" := by decide +kernel
  have ha : ¬Acyclic (Depends x.resources) := fun ha => ha _ <| .head hab <| .single hba
  have ⟨_, _, hc, _⟩ := Stack.compile_of_expand hx
  have ⟨cycle, walk, h⟩ := hc (by decide +kernel) (by decide +kernel) ha
  exact ⟨x, cycle, walk, hx, h⟩

end Lakehouse
