import Lakehouse.Proofs.Resolution
/-!
Edges. A resource has one edge to each other resource that it mentions, in the order in which it first
mentions them and for the reason that it first gives; a resolution has the edges of one resource after
the other, and no others.
-/
namespace Lakehouse

open List

variable {rs : List Resource} {r : Resource} {res : Resolution}

namespace Resource

-- The resources that are mentioned, each as often as it is and with the reason: the owner, what is
-- named explicitly, the provider, and then what the properties refer to.
def stated (r : Resource) : List (String × Origin) :=
  r.owner.toList.map (·, .owner) ++ r.dependsOn.map (·, .explicit) ++
    r.provider.toList.map (·, .provider) ++
    (Placeholder.scan r.properties).map fun (path, p) => (p.resource, .reference path)

-- The edges of a resource are those that it states.
structure States (r : Resource) (edges : List Edge) : Prop where
  dependent : ∀ e ∈ edges, e.dependent = r.id
  mentioned : ∀ id, (∃ e ∈ edges, e.dependency = id) ↔ r.Mentions id
  once      : (edges.map Edge.dependency).Nodup
  first     : ∀ e ∈ edges, ∃ before after, r.stated = before ++ (e.dependency, e.origin) :: after ∧
    ∀ s ∈ before, s.1 ≠ e.dependency
  ordered   : edges.Pairwise fun e e' =>
    (r.stated.map Prod.fst).idxOf e.dependency < (r.stated.map Prod.fst).idxOf e'.dependency

theorem stated_eq : r.stated = r.links.map fun l => (l.target, l.origin) := by
  have he : r.explicitLinks.map (fun l => (l.target, l.origin)) = r.dependsOn.map (·, .explicit) := by
    have hz : r.dependsOn.zipIdx.map Prod.fst = r.dependsOn := zipIdx_map_fst ..
    rw [explicitLinks, map_map, ← hz, map_map]
    simp [Function.comp_def]
  simp [stated, links, he, ownerLinks, providerLinks, referenceLinks, Function.comp_def]

theorem states_edges : r.States r.edges where
  dependent := fun _ => dependent_of_mem_edges
  mentioned := fun _ => exists_edge_iff
  once      := by
    rw [edges, map_map]
    exact distinctBy_nodup
  first     := by
    intro e he
    obtain ⟨l, hl, rfl⟩ := mem_map.mp he
    obtain ⟨_, before, after, hlinks, hb⟩ := find?_eq_some_iff_append.mp <| find?_of_mem_distinctBy hl
    refine ⟨before.map fun l => (l.target, l.origin), after.map fun l => (l.target, l.origin), ?_, ?_⟩
    · rw [stated_eq, hlinks, map_append, map_cons]
    · simpa using hb
  ordered   := by
    have ht : r.stated.map Prod.fst = r.links.map Link.target := by
      rw [stated_eq, map_map]
      rfl
    rw [edges, pairwise_map, ht]
    exact distinctBy_ordered

end Resource

namespace Resolution

-- The edges of a resolution are those that the resources state.
structure Exact (rs : List Resource) (res : Resolution) : Prop where
  grouped : ∃ groups, Forall₂ Resource.States rs groups ∧ res.edges = groups.flatten
  joined  : ∀ a b, (∃ e ∈ res.edges, e.dependent = a ∧ e.dependency = b) ↔ Depends rs a b
  once    : (res.edges.map fun e => (e.dependent, e.dependency)).Nodup

theorem edges_exact (hn : (idsOf rs).Nodup) (h : ofResources rs = .ok res) : Exact rs res := by
  obtain ⟨_, he, _⟩ := ofResources_ok hn h
  refine ⟨⟨rs.map Resource.edges, ?_, he.trans flatMap_def⟩, fun a b => ?_, ?_⟩
  · exact forall₂_map_right_iff.mpr <| forall₂_same.mpr fun r _ => r.states_edges
  · simp only [he, mem_flatMap, Depends, ← Resource.exists_edge_iff]
    constructor
    case mp =>
      rintro ⟨e, ⟨r, hr, he⟩, rfl, hb⟩
      exact ⟨r, hr, (Resource.dependent_of_mem_edges he).symm, e, he, hb⟩
    case mpr =>
      rintro ⟨r, hr, rfl, e, he, hb⟩
      exact ⟨e, ⟨r, hr, he⟩, Resource.dependent_of_mem_edges he, hb⟩
  · rw [he, map_flatMap, nodup_flatMap]
    constructor
    · intro r _
      refine .of_map Prod.snd ?_
      rw [map_map]
      exact r.states_edges.once
    · refine (pairwise_map.mp hn).imp fun {r q} hne => ?_
      intro pair hr hq
      obtain ⟨e, he, rfl⟩ := mem_map.mp hr
      obtain ⟨e', he', heq⟩ := mem_map.mp hq
      have hd : e'.dependent = e.dependent := congrArg Prod.fst heq
      rw [Resource.dependent_of_mem_edges he, Resource.dependent_of_mem_edges he'] at hd
      exact hne hd.symm

-- The first resource mentions each of the others more than once, or for more than one reason.
def overlappingLinks : List Resource :=
  let resource (id : String) : Resource := { (default : Resource) with id }
  [{ resource "member" with
      owner      := some "user"
      dependsOn  := ["group", "user", "group"]
      provider   := some "databricks"
      properties := [
        ("name", .string "$\x7bresources.user.name\x7d in $\x7bresources.job.name\x7d"),
        ("tasks", .array [.string "$\x7bresources.job.id\x7d"])] },
   resource "job", resource "databricks", { resource "group" with provider := some "databricks" },
   { resource "user" with dependsOn := ["group"] }]

theorem edges_exact_overlappingLinks : (idsOf overlappingLinks).Nodup ∧
    ∃ res, ofResources overlappingLinks = .ok res ∧ res.order = [1, 2, 3, 4, 0] ∧
      res.edges = [
        ⟨"member", "user", .owner⟩, ⟨"member", "group", .explicit⟩,
        ⟨"member", "databricks", .provider⟩, ⟨"member", "job", .reference "name"⟩,
        ⟨"group", "databricks", .provider⟩, ⟨"user", "group", .explicit⟩] ∧
      Exact overlappingLinks res := by
  have hn : (idsOf overlappingLinks).Nodup := by decide
  exact ⟨hn, _, rfl, rfl, rfl, edges_exact hn rfl⟩

end Resolution

end Lakehouse
