import Lakehouse.Dependency
import Lakehouse.Proofs.Attempt
import Lakehouse.Proofs.Distinct
import Lakehouse.Proofs.NamedOrder
/-!
Resolution of links. Where ids are distinct and every link leads to another resource, the edges are
those that the resources state, and their order is the stable one; otherwise the first link that
leads nowhere, or back to its own resource, is refused.
-/
namespace Lakehouse

open List Attempt

variable {rs : List Resource} {r : Resource} {l : Link} {i j k : Nat} {id a b : String} {e : Edge}

def idsOf (rs : List Resource) : List String :=
  rs.map (·.id)

namespace Resource

-- The resource says something about the one with this id.
def Mentions (r : Resource) (id : String) : Prop :=
  r.owner = some id ∨ id ∈ r.dependsOn ∨ r.provider = some id ∨
    ∃ found ∈ Placeholder.scan r.properties, found.2.resource = id

instance {id : String} : Decidable (r.Mentions id) :=
  inferInstanceAs (Decidable (_ ∨ _ ∨ _ ∨ _))

theorem mentions_iff : r.Mentions id ↔ ∃ l ∈ r.links, l.target = id := by
  have hd : id ∈ r.dependsOn ↔ ∃ l ∈ r.explicitLinks, l.target = id := by
    simp [explicitLinks, mem_iff_getElem?]
  simp only [Mentions, links, mem_append, or_and_right, exists_or, or_assoc, hd]
  simp [ownerLinks, providerLinks, referenceLinks]

-- One edge to each resource that is mentioned, for the first that is said about it.
def edges (r : Resource) : List Edge :=
  (distinctBy (·.target) r.links).map fun l => ⟨r.id, l.target, l.origin⟩

theorem dependent_of_mem_edges (h : e ∈ r.edges) : e.dependent = r.id := by
  have ⟨l, _, he⟩ := mem_map.mp h
  rw [← he]

theorem exists_edge_iff : (∃ e ∈ r.edges, e.dependency = id) ↔ r.Mentions id := by
  rw [mentions_iff, edges]
  simp only [mem_map, exists_exists_and_eq_and]
  constructor
  case mp  => exact fun ⟨l, h, ht⟩ => ⟨l, distinctBy_sublist.subset h, ht⟩
  case mpr =>
    intro ⟨l, h, ht⟩
    have ⟨k, hk, he⟩ : ∃ k ∈ distinctBy Link.target r.links, k.target = l.target :=
      exists_mem_distinctBy h
    exact ⟨k, hk, he.trans ht⟩

end Resource

-- The place of a resource is the place of its id.
theorem idxOf_id (hn : (idsOf rs).Nodup) (h : rs[i]? = some r) : (idsOf rs).idxOf r.id = i :=
  idxOf_key hn h

-- One resource has to come after the other one.
def Depends (rs : List Resource) (a b : String) : Prop :=
  ∃ r ∈ rs, r.id = a ∧ r.Mentions b

instance : Decidable (Depends rs a b) :=
  inferInstanceAs (Decidable (∃ r ∈ rs, _))

namespace Link

-- The link leads to another resource.
def Sound (rs : List Resource) (r : Resource) (l : Link) : Prop :=
  l.target ∈ idsOf rs ∧ l.target ≠ r.id

instance : Decidable (l.Sound rs r) :=
  inferInstanceAs (Decidable (_ ∧ _))

-- What is said of a link that does not.
def refusal (r : Resource) (l : Link) : CompileError :=
  if l.target = r.id then .cyclicDependency .resources [r.id]
  else .unresolvedReference r.id l.path l.target

end Link

-- The first link of a list of resources that does not lead to another one of them.
structure FirstUnsound (rs : List Resource) (r : Resource) (l : Link) : Prop where
  unsound : ¬l.Sound rs r
  first   : ∃ before after, rs = before ++ r :: after ∧ ∀ q ∈ before, ∀ k ∈ q.links, k.Sound rs q
  leading : ∃ earlier later, r.links = earlier ++ l :: later ∧ ∀ k ∈ earlier, k.Sound rs r

namespace Resolution

theorem position?_eq (hn : (idsOf rs).Nodup) :
    position? rs id = if id ∈ idsOf rs then some ((idsOf rs).idxOf id) else none := by
  cases hl : (rs.zipIdx.filter (·.1.id == id)).getLast?
  case none =>
    have hm : id ∉ idsOf rs := by
      simp only [getLast?_eq_none_iff, filter_eq_nil_iff, beq_iff_eq] at hl
      intro hm
      have ⟨r, hr, he⟩ := mem_map.mp hm
      have ⟨i, hi⟩ := mem_iff_getElem?.mp hr
      exact hl (r, i) (mk_mem_zipIdx_iff_getElem?.mpr hi) he
    simp [position?, hl, hm]
  case some found =>
    have ⟨hm, hf⟩ := mem_filter.mp <| mem_of_getLast? hl
    have hr := mk_mem_zipIdx_iff_getElem?.mp hm
    have he : found.1.id = id := by simpa using hf
    have hi : id ∈ idsOf rs := he ▸ mem_map_of_mem (mem_of_getElem? hr)
    rw [position?, hl, if_pos hi, ← he, idxOf_id hn hr]
    rfl

theorem target_eq (hn : (idsOf rs).Nodup) (hr : rs[i]? = some r) :
    target rs r i l =
      if l.Sound rs r then .ok (l, (idsOf rs).idxOf l.target) else .error (l.refusal r) := by
  have hm : r.id ∈ idsOf rs := mem_map_of_mem <| mem_of_getElem? hr
  have hi := idxOf_id hn hr
  have hs : (idsOf rs).idxOf l.target = i ↔ l.target = r.id := by
    rw [← hi, eq_comm, idxOf_inj hm, eq_comm]
  simp only [target, position?_eq hn, Link.Sound, Link.refusal]
  by_cases ht : l.target ∈ idsOf rs
  case pos =>
    simp only [ht, if_true, hs, true_and]
    by_cases he : l.target = r.id <;> simp [he]
  case neg =>
    have he : l.target ≠ r.id := fun he => ht (he ▸ hm)
    simp [ht, he]

-- The links of the `i`th resource with their targets, the first one to each target.
def outgoing (resources : List Resource) (r : Resource) (i : Nat) :
    Except CompileError (List (Link × Nat)) := do
  let found ← r.links.mapM (target resources r i)
  .ok (distinctBy (·.2) found)

theorem outgoing_ok (hn : (idsOf rs).Nodup) (hr : rs[i]? = some r)
    (hs : ∀ l ∈ r.links, l.Sound rs r) :
    outgoing rs r i =
      .ok ((distinctBy (·.target) r.links).map fun l => (l, (idsOf rs).idxOf l.target)) := by
  have ht : r.links.mapM (target rs r i) =
      .ok (r.links.map fun l => (l, (idsOf rs).idxOf l.target)) :=
    mapM_eq_map fun l hl => by simp [target_eq hn hr, hs l hl]
  have hd : distinctBy (fun l => (idsOf rs).idxOf l.target) r.links =
      distinctBy Link.target r.links :=
    distinctBy_congr fun k hk l _ => idxOf_inj (hs k hk).left
  simp [outgoing, ht, distinctBy_map, Function.comp_def, hd]

theorem outgoing_error {error : CompileError} (hn : (idsOf rs).Nodup) (hr : rs[i]? = some r)
    (h : outgoing rs r i = .error error) :
    ∃ earlier l later, r.links = earlier ++ l :: later ∧ (∀ k ∈ earlier, k.Sound rs r) ∧
      ¬l.Sound rs r ∧ error = l.refusal r := by
  simp only [outgoing, bind_error_iff, reduceCtorEq, and_false, exists_false, or_false] at h
  have ⟨earlier, l, later, hl, he, hf⟩ := mapM_error_iff.mp h
  refine ⟨earlier, l, later, hl, fun k hk => ?_, ?_⟩
  · have ⟨_, h⟩ := he k hk
    rw [target_eq hn hr] at h
    by_contra hs
    simp [hs] at h
  · rw [target_eq hn hr] at hf
    split at hf
    case isTrue => contradiction
    case isFalse hs => exact ⟨hs, by simpa using hf.symm⟩

theorem outgoing_isOk_iff (hn : (idsOf rs).Nodup) (hr : rs[i]? = some r) :
    (∃ out, outgoing rs r i = .ok out) ↔ ∀ l ∈ r.links, l.Sound rs r := by
  constructor
  case mp =>
    intro ⟨out, h⟩ l hl
    have ⟨found, hm, _⟩ := bind_ok_iff.mp h
    have ⟨_, ht⟩ := mapM_isOk_iff.mp ⟨found, hm⟩ l hl
    rw [target_eq hn hr] at ht
    by_contra hs
    simp [hs] at ht
  case mpr => exact fun hs => ⟨_, outgoing_ok hn hr hs⟩

-- The pairs by which the resources are put in order.
def pairs (rs : List Resource) : List Order.Pair :=
  rs.zipIdx.flatMap fun (r, i) => r.edges.map fun e => (i, (idsOf rs).idxOf e.dependency)

theorem follows_pairs : Order.Follows (pairs rs) i j ↔
    ∃ r id, rs[i]? = some r ∧ r.Mentions id ∧ (idsOf rs).idxOf id = j := by
  simp only [Order.Follows, pairs, mem_flatMap, mem_map, Prod.mk.injEq, Prod.exists,
    mk_mem_zipIdx_iff_getElem?, ← Resource.exists_edge_iff]
  constructor
  case mp =>
    rintro ⟨r, k, hr, e, he, hk, hj⟩
    exact ⟨r, e.dependency, hk ▸ hr, ⟨e, he, rfl⟩, hj⟩
  case mpr =>
    rintro ⟨r, id, hr, ⟨e, he, hi⟩, hj⟩
    exact ⟨r, i, hr, e, he, rfl, hi ▸ hj⟩

-- Every link leads to another resource.
def AllSound (rs : List Resource) : Prop :=
  ∀ r ∈ rs, ∀ l ∈ r.links, l.Sound rs r

instance : Decidable (AllSound rs) :=
  inferInstanceAs (Decidable (∀ r ∈ rs, _))

-- The edges of a resource that is resolved, and the pairs by which it is put in order.
def edgesOf (found : Resource × Nat × List (Link × Nat)) : List Edge :=
  found.2.2.map fun out => ⟨found.1.id, out.1.target, out.1.origin⟩

def pairsOf (found : Resource × Nat × List (Link × Nat)) : List Order.Pair :=
  found.2.2.map fun out => (found.2.1, out.2)

-- The targets in `seen` are those that the `i`th resource has an edge to.
theorem add_found {found : List (Link × Nat)} {f : Followed} {seen : List Nat}
    (hs : ∀ j, j ∈ seen ↔ (i, j) ∈ f.pairs) :
    found.foldl (·.add r i) f = {
      edges := f.edges ++ edgesOf (r, i, distinctFrom (·.2) seen found)
      pairs := f.pairs ++ pairsOf (r, i, distinctFrom (·.2) seen found) } := by
  induction found generalizing f seen
  case nil => simp [edgesOf, pairsOf, distinctFrom]
  case cons out found ih =>
    obtain ⟨l, j⟩ := out
    simp only [foldl_cons, Followed.add, distinctFrom, contains_iff_mem, hs j]
    split
    case isTrue => exact ih hs
    case isFalse =>
      have hs' : ∀ k, k ∈ j :: seen ↔ (i, k) ∈ f.pairs ++ [(i, j)] := by
        simp [hs, or_comm]
      rw [ih hs']
      simp [edgesOf, pairsOf]

-- Of the links of a resource, the first one to each target.
def keep (found : Resource × Nat × List (Link × Nat)) : Resource × Nat × List (Link × Nat) :=
  (found.1, found.2.1, distinctBy (·.2) found.2.2)

-- No place from the `k`th on has an edge yet.
theorem add_all {found : List (Resource × Nat × List (Link × Nat))} {f : Followed}
    (hf : ∀ pair ∈ f.pairs, pair.1 < k) (hk : found.map (·.2.1) = range' k found.length) :
    found.foldl (fun f x => x.2.2.foldl (·.add x.1 x.2.1) f) f = {
      edges := f.edges ++ (found.map keep).flatMap edgesOf
      pairs := f.pairs ++ (found.map keep).flatMap pairsOf } := by
  induction found generalizing f k
  case nil => simp
  case cons x found ih =>
    simp only [map_cons, length_cons, range'_succ, cons.injEq] at hk
    obtain ⟨rfl, hk⟩ := hk
    have hs : ∀ j, j ∈ ([] : List Nat) ↔ (x.2.1, j) ∈ f.pairs := by
      simpa using fun j hj => Nat.lt_irrefl _ (hf _ hj)
    rw [foldl_cons, add_found hs, ih ?_ hk]
    · simp [keep, distinctBy]
    · intro pair hp
      obtain hp | hp := mem_append.mp hp
      · exact (hf pair hp).trans (Nat.lt_succ_self _)
      · obtain ⟨_, _, rfl⟩ := mem_map.mp hp
        exact Nat.lt_succ_self _

-- The links of the `i`th resource, each with its target.
def targets (rs : List Resource) (x : Resource × Nat) :
    Except CompileError (Resource × Nat × List (Link × Nat)) := do
  .ok (x.1, x.2, ← x.1.links.mapM (target rs x.1 x.2))

-- First the targets of all links are found, then the edges are made.
theorem follow_all :
    rs.zipIdx.foldlM (fun f (r, i) => r.links.foldlM (follow rs r i) f) { edges := [], pairs := [] } =
      (do
        let found ← rs.zipIdx.mapM (targets rs)
        .ok (found.foldl (fun f x => x.2.2.foldl (·.add x.1 x.2.1) f)
          { edges := [], pairs := [] })) := by
  rw [← foldlM_eq_mapM]
  congr 1
  funext f (r, i)
  have hl : r.links.foldlM (follow rs r i) f =
      (do let found ← r.links.mapM (target rs r i); .ok (found.foldl (·.add r i) f)) :=
    foldlM_eq_mapM
  simp only [hl, targets]
  cases r.links.mapM (target rs r i) <;> rfl

-- The edges come resource by resource.
theorem ofResources_eq : ofResources rs = (do
    let found ← rs.zipIdx.mapM fun x => do .ok (x.1, x.2, ← outgoing rs x.1 x.2)
    match Order.sort rs.length (found.flatMap pairsOf) with
      | .ok order    => .ok { edges := found.flatMap edgesOf, order }
      | .error cycle => .error (.cyclicDependency .resources (ids rs cycle))) := by
  have ho : rs.zipIdx.mapM (fun x => do .ok (x.1, x.2, ← outgoing rs x.1 x.2)) =
      (do let found ← rs.zipIdx.mapM (targets rs); .ok (found.map keep)) := by
    rw [← mapM_bind_ok]
    congr 1
    funext x
    simp only [targets, outgoing]
    cases x.1.links.mapM (target rs x.1 x.2) <;> rfl
  rw [ofResources, follow_all, ho]
  cases hf : rs.zipIdx.mapM (targets rs)
  case error e => rfl
  case ok found =>
    have hr := mapM_ok_iff.mp hf
    have hk : found.map (·.2.1) = range' 0 found.length := by
      have hx : ∀ x y, targets rs x = .ok y → y.2.1 = x.2 := by
        intro x y h
        obtain ⟨_, _, hy⟩ := bind_ok_iff.mp h
        cases hy
        rfl
      rw [forall₂_map_eq hx hr, zipIdx_map_snd, ← hr.length_eq, length_zipIdx]
    simp only [ok_bind, add_all (f := { edges := [], pairs := [] }) (forall_mem_nil _) hk]
    rfl

theorem ofResources_sound (hn : (idsOf rs).Nodup) (hs : AllSound rs) :
    ofResources rs = match Order.sort rs.length (pairs rs) with
      | .ok order    => .ok { edges := rs.flatMap Resource.edges, order }
      | .error cycle => .error (.cyclicDependency .resources (ids rs cycle)) := by
  have ho : rs.zipIdx.mapM (fun x => do .ok (x.1, x.2, ← outgoing rs x.1 x.2)) = .ok (rs.zipIdx.map
      fun (r, i) => (r, i, (distinctBy (·.target) r.links).map fun l =>
        (l, (idsOf rs).idxOf l.target))) := by
    apply mapM_eq_map
    intro (r, i) h
    have hr := mk_mem_zipIdx_iff_getElem?.mp h
    simp [outgoing_ok hn hr <| hs r <| mem_of_getElem? hr]
  have he : rs.flatMap Resource.edges = rs.zipIdx.flatMap fun found => found.1.edges := by
    rw [← flatMap_map Prod.fst, zipIdx_map_fst]
  simp only [ofResources_eq, ho, ok_bind, he, pairs, Resource.edges, flatMap_map, edgesOf, pairsOf,
    List.map_map]
  rfl

theorem ofResources_unsound (hn : (idsOf rs).Nodup) (hs : ¬AllSound rs) :
    ∃ r l, FirstUnsound rs r l ∧ ofResources rs = .error (l.refusal r) := by
  cases hm : rs.zipIdx.mapM (fun x => do .ok (x.1, x.2, ← outgoing rs x.1 x.2))
  case ok found =>
    refine hs (fun r hr => ?_) |>.elim
    have ⟨i, hi⟩ := mem_iff_getElem?.mp hr
    have ⟨_, _, h⟩ := exists_of_mapM_ok hm (mk_mem_zipIdx_iff_getElem?.mpr hi)
    have ⟨out, ho, _⟩ := bind_ok_iff.mp h
    exact outgoing_isOk_iff hn hi |>.mp ⟨out, ho⟩
  case error error =>
    have ⟨pre, (r, i), post, hz, hp, hf⟩ := mapM_error_iff.mp hm
    have hi : ∀ q k, (q, k) ∈ pre ++ (r, i) :: post → rs[k]? = some q :=
      fun q k hq => mk_mem_zipIdx_iff_getElem?.mp (hz ▸ hq)
    have hrs : rs = pre.map Prod.fst ++ r :: post.map Prod.fst := by
      rw [← zipIdx_map_fst 0 rs, hz, map_append, map_cons]
    simp only [bind_error_iff, reduceCtorEq, and_false, exists_false, or_false] at hf
    have ⟨earlier, l, later, hl, he, hu, hr⟩ := outgoing_error hn (hi r i (by simp)) hf
    refine ⟨r, l, ⟨hu, ⟨_, _, hrs, fun q hq => ?_⟩, ⟨_, _, hl, he⟩⟩, ?_⟩
    · have ⟨(q, k), hm, hq⟩ := mem_map.mp hq
      subst hq
      have ⟨_, ho⟩ := hp _ hm
      have ⟨out, ho, _⟩ := bind_ok_iff.mp ho
      exact outgoing_isOk_iff hn (hi q k (by simp [hm])) |>.mp ⟨out, ho⟩
    · rw [ofResources_eq, hm, ← hr]
      rfl

-- Places follow each other as their ids depend on each other.
theorem names (hn : (idsOf rs).Nodup) (hs : AllSound rs) :
    Order.Names (idsOf rs) (Depends rs) (pairs rs) where
  nodup   := hn
  follows := by
    intro i j h
    have ⟨r, id, hr, hm, hj⟩ := follows_pairs.mp h
    have ⟨l, hl, ht⟩ := Resource.mentions_iff.mp hm
    have hid : id ∈ idsOf rs := ht ▸ (hs r (mem_of_getElem? hr) l hl).left
    refine ⟨r.id, id, by simp [idsOf, hr], ?_, r, mem_of_getElem? hr, rfl, hm⟩
    rw [← hj, getElem?_idxOf hid]
  depends := by
    intro a b ⟨r, hr, ha, hm⟩
    have ⟨l, hl, ht⟩ := Resource.mentions_iff.mp hm
    have ⟨i, hi⟩ := mem_iff_getElem?.mp hr
    refine ⟨ha ▸ mem_map_of_mem hr, ht ▸ (hs r hr l hl).left, follows_pairs.mpr ⟨r, b, ?_, hm, rfl⟩⟩
    rw [← ha, idxOf_id hn hi, hi]

-- Ids at a place.
theorem ids_eq (indices : List Nat) : ids rs indices = indices.filterMap ((idsOf rs)[·]?) := by
  simp [ids, idsOf]

theorem length_idsOf : rs.length = (idsOf rs).length := by
  simp [idsOf]

theorem ordered_ids {order : List Nat} (hn : (idsOf rs).Nodup) (hs : AllSound rs)
    (h : Order.sort rs.length (pairs rs) = .ok order) : Ordered (Depends rs) (ids rs order) := by
  rw [length_idsOf] at h
  exact ids_eq order ▸ (names hn hs |>.sort_ok h).right

theorem circuit_ids {cycle : List Nat} (hn : (idsOf rs).Nodup) (hs : AllSound rs)
    (h : Order.sort rs.length (pairs rs) = .error cycle) :
    ids rs cycle <+ idsOf rs ∧ ∃ walk, Circuit (Depends rs) walk ∧ ids rs cycle ~ walk := by
  rw [length_idsOf] at h
  exact ids_eq cycle ▸ (names hn hs).sort_error h

theorem ofResources_ok {res : Resolution} (hn : (idsOf rs).Nodup) (h : ofResources rs = .ok res) :
    AllSound rs ∧ res.edges = rs.flatMap Resource.edges ∧
      Order.sort rs.length (pairs rs) = .ok res.order := by
  by_cases hs : AllSound rs
  case neg =>
    have ⟨r, l, _, he⟩ := ofResources_unsound hn hs
    simp [h] at he
  case pos =>
    rw [ofResources_sound hn hs] at h
    cases ho : Order.sort rs.length (pairs rs) <;> simp only [ho, reduceCtorEq] at h
    cases h
    exact ⟨hs, rfl, rfl⟩

theorem ofResources_acyclic (hn : (idsOf rs).Nodup) (hs : AllSound rs) (ha : Acyclic (Depends rs)) :
    ∃ res, ofResources rs = .ok res := by
  have ⟨order, ho⟩ := (names hn hs).sort_isOk_iff.mpr ha
  rw [← length_idsOf] at ho
  exact ⟨_, by rw [ofResources_sound hn hs, ho]⟩

theorem ofResources_cyclic (hn : (idsOf rs).Nodup) (hs : AllSound rs)
    (ha : ¬Acyclic (Depends rs)) : ∃ cycle walk, cycle <+ idsOf rs ∧ Circuit (Depends rs) walk ∧
      cycle ~ walk ∧ ofResources rs = .error (.cyclicDependency .resources cycle) := by
  rw [ofResources_sound hn hs]
  cases ho : Order.sort rs.length (pairs rs)
  case ok order =>
    rw [length_idsOf] at ho
    exact ha ((names hn hs).sort_isOk_iff.mp ⟨order, ho⟩) |>.elim
  case error cycle =>
    have ⟨hc, walk, hw, hp⟩ := circuit_ids hn hs ho
    exact ⟨_, walk, hc, hw, hp, rfl⟩

theorem position?_ids : position? rs id = ((idsOf rs).zipIdx.filter (·.1 == id)).getLast?.map (·.2) := by
  rw [position?, idsOf, zipIdx_map, filter_map, getLast?_map, Option.map_map]
  rfl

-- Nothing of the resources counts but their ids and what they say about others.
theorem ofResources_congr {rs' : List Resource}
    (h : Forall₂ (fun r r' => r'.id = r.id ∧ r'.links = r.links) rs rs') :
    ofResources rs' = ofResources rs := by
  have hi : idsOf rs' = idsOf rs := forall₂_map_eq (fun _ _ h => h.left) h
  have hx : ids rs' = ids rs := by
    funext indices
    rw [ids_eq, ids_eq, hi]
  have ho : ∀ r r' i, r'.id = r.id → r'.links = r.links → outgoing rs' r' i = outgoing rs r i := by
    intro r r' i hr hl
    have ht : target rs' r' i = target rs r i := by
      funext l
      rw [target, target, position?_ids, position?_ids, hi, hr]
    rw [outgoing, outgoing, hl, ht]
  rw [ofResources_eq, ofResources_eq, hx, h.length_eq]
  refine (Alike.bind (R := Forall₂ fun x x' => x'.1.id = x.1.id ∧ x'.2 = x.2) ?found
    fun found found' hr => ?_).eq
  case found =>
    refine Alike.mapM <| (forall₂_zipIdx h 0).imp fun x x' hx => ?_
    rw [hx.right, ho x.1 x'.1 x.2 hx.left.left hx.left.right]
    exact Alike.bind_same fun _ => .ok ⟨hx.left.left, rfl⟩
  have he : found'.map edgesOf = found.map edgesOf :=
    forall₂_map_eq (fun x x' hx => by rw [edgesOf, edgesOf, hx.left, hx.right]) hr
  have hp : found'.map pairsOf = found.map pairsOf :=
    forall₂_map_eq (fun x x' hx => by rw [pairsOf, pairsOf, hx.right]) hr
  rw [flatMap_def, flatMap_def, flatMap_def, flatMap_def, he, hp]
  exact .refl (fun _ => rfl) _

end Resolution

end Lakehouse
