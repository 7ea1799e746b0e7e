import Lakehouse.Proofs.Edges
import Lakehouse.Proofs.Greedy
import Lakehouse.Proofs.Reordering
/-!
Settled resources. What is in order stays in it: the greedy order of a list in which everything follows
its dependencies is the list itself. So resources that are put in order and resolved again keep their
places and have the same edges.
-/
namespace Lakehouse

open List

namespace Order

section

variable {α : Type} {depends : α → α → Prop} {names done pre post : List α} {a : α}

-- In a list that is in order, the first name that is ready is always the next one.
theorem Greedy.of_ordered (ho : Ordered depends names) (hn : names.Nodup)
    (h : names = done.reverse ++ post) : Greedy names depends done post := by
  induction post generalizing done
  case nil => exact .nil fun a ha => by simpa [h] using ha
  case cons a post ih =>
    have hd : a ∉ done := by
      rw [h] at hn
      exact fun hm => disjoint_of_nodup_append hn (by simpa using hm) mem_cons_self
    have hf : First (Ready depends done) (done.reverse ++ a :: post) a := by
      refine First.iff_append.mpr ⟨_, _, rfl, fun b hb hr => hr.left (by simpa using hb), hd, ?_⟩
      exact fun b hb => by simpa using ho _ _ _ h b hb
    exact .cons (h ▸ hf) (ih (by simpa using h))

end

section

variable {n : Nat} {r : Nat → Nat → Prop} {pairs : List Pair} {order : List Nat}

theorem ordered_range (h : ∀ i j, r i j → j < i) : Ordered r (range n) := by
  intro pre i post he j hj
  have hp : (pre ++ i :: post).Pairwise (· < ·) := he ▸ pairwise_lt_range
  have hi : i < n := mem_range.mp <| he ▸ by simp
  have hm : j ∈ pre ++ i :: post := he ▸ mem_range.mpr ((h i j hj).trans hi)
  obtain hm | hm := mem_append.mp hm
  · exact hm
  · have ⟨_, hp, _⟩ := pairwise_append.mp hp
    have hle : i ≤ j := by
      obtain rfl | hm := mem_cons.mp hm
      · exact Nat.le_refl _
      · exact ((pairwise_cons.mp hp).left j hm).le
    exact (h i j hj).not_ge hle |>.elim

-- Places that follow earlier ones only stay as they are.
theorem sort_eq_range (hp : ∀ i j, Follows pairs i j → j < i) (h : sort n pairs = .ok order) :
    order = range n :=
  (sort_greedy h).unique <| .of_ordered (ordered_range hp) nodup_range rfl

end

end Order

namespace Resolution

variable {rs : List Resource} {order : List Nat}

-- The resources are in order as they are, and these are their edges.
def Settled (rs : List Resource) (edges : List Edge) : Prop :=
  ∃ res, ofResources rs = .ok res ∧ res.order = range rs.length ∧
    res.order.filterMap (rs[·]?) = rs ∧ res.edges ~ edges

theorem follows_lt (hn : (idsOf rs).Nodup) (hs : AllSound rs) (ho : Ordered (Depends rs) (idsOf rs))
    {i j : Nat} (h : Order.Follows (pairs rs) i j) : j < i := by
  have n := names hn hs
  obtain ⟨a, b, ha, hb, hab⟩ := n.follows i j h
  have hlt := ho.idxOf_lt (mem_of_getElem? ha) hab
  rwa [n.idxOf_eq ha, n.idxOf_eq hb] at hlt

theorem settled_of_ordered (hn : (idsOf rs).Nodup) (hs : AllSound rs)
    (ho : Ordered (Depends rs) (idsOf rs)) : Settled rs (rs.flatMap Resource.edges) := by
  have hm : ∀ a b, Depends rs a b → a ∈ idsOf rs := fun a b ⟨r, hr, ha, _⟩ => ha ▸ mem_map_of_mem hr
  obtain ⟨res, hr⟩ := ofResources_acyclic hn hs (ho.acyclic hm)
  obtain ⟨_, he, hso⟩ := ofResources_ok hn hr
  have horder := Order.sort_eq_range (fun _ _ => follows_lt hn hs ho) hso
  exact ⟨res, hr, horder, horder ▸ Order.filterMap_range_getElem? rs, he ▸ .refl _⟩

theorem settled_of_sort (hn : (idsOf rs).Nodup) (hs : AllSound rs)
    (h : Order.sort rs.length (pairs rs) = .ok order) :
    Settled (order.filterMap (rs[·]?)) (rs.flatMap Resource.edges) := by
  have hp : order.filterMap (rs[·]?) ~ rs := Order.sort_perm h
  have hi : idsOf (order.filterMap (rs[·]?)) = ids rs order := by
    rw [idsOf, map_filterMap, ids]
  have ho : Ordered (Depends (order.filterMap (rs[·]?))) (idsOf (order.filterMap (rs[·]?))) := by
    rw [depends_perm hp, hi]
    exact ordered_ids hn hs h
  have hn' : (idsOf (order.filterMap (rs[·]?))).Nodup := (hp.map _).nodup_iff.mpr hn
  obtain ⟨res, hr, horder, hf, he⟩ := settled_of_ordered hn' (allSound_perm hp |>.mpr hs) ho
  exact ⟨res, hr, horder, hf, he.trans (hp.flatMap_right _)⟩

-- Resolving once more what is resolved changes nothing, and neither does resolving what is compiled.
theorem ofResources_settled :
    (∀ rs res, (idsOf rs).Nodup → ofResources rs = .ok res →
      Settled (res.order.filterMap (rs[·]?)) res.edges) ∧
    ∀ (s : Stack) g, s.compile = .ok g → Settled g.resources g.edges := by
  constructor
  case left =>
    intro rs res hn h
    obtain ⟨hs, he, ho⟩ := ofResources_ok hn h
    exact he ▸ settled_of_sort hn hs ho
  case right =>
    intro s g h
    obtain ⟨x, order, c⟩ := Stack.compile_compiled h
    exact c.resources ▸ c.edges ▸ settled_of_sort c.nodup c.sound c.sort

theorem ofResources_settled_overlappingLinks : (idsOf overlappingLinks).Nodup ∧
    (∃ res, ofResources overlappingLinks = .ok res ∧ res.order = [1, 2, 3, 4, 0] ∧
      Settled (res.order.filterMap (overlappingLinks[·]?)) res.edges) ∧
    ∃ g, dependentGroups.compile = .ok g ∧ Settled g.resources g.edges := by
  have hn : (idsOf overlappingLinks).Nodup := by decide
  exact ⟨hn, ⟨_, rfl, rfl, ofResources_settled.left _ _ hn rfl⟩, _, rfl,
    ofResources_settled.right dependentGroups _ rfl⟩

end Resolution

end Lakehouse
