import Lakehouse.Proofs.Circuit
import Lakehouse.Proofs.Progress
import Mathlib.Data.List.Perm.Subperm
/-!
The stable order. Placing one index after the other keeps the counts right, and ends when nothing is
ready any more. Hence `sort` finds an order in which every index follows its dependencies, or else the
indices of a circuit.
-/
namespace Lakehouse.Order

open List

variable {n fuel i j : Nat} {pairs : List Pair} {done order placed path walk : List Nat}
variable {p q : Progress}

def InRange (n : Nat) (pairs : List Pair) : Prop :=
  ∀ i j, Follows pairs i j → i < n ∧ j < n

-- The indices that are placed one after the other when those in `done` are there already.
inductive Placed (n : Nat) (pairs : List Pair) : List Nat → List Nat → Prop
  | nil {done : List Nat} : Placed n pairs done []
  | cons {done order : List Nat} {i : Nat} (lt : i < n) (unplaced : i ∉ done)
      (follows : ∀ j, Follows pairs i j → j ∈ done) :
      Placed n pairs (i :: done) order → Placed n pairs done (i :: order)

namespace Placed

theorem not_mem_done (p : Placed n pairs done order) (h : i ∈ order) : i ∉ done := by
  induction p
  case nil => contradiction
  case cons k order _ hk _ _ ih =>
    cases h
    case head   => exact hk
    case tail h => exact fun hd => ih h (mem_cons_of_mem _ hd)

theorem nodup (p : Placed n pairs done order) : order.Nodup := by
  induction p
  case nil => exact nodup_nil
  case cons p ih => exact nodup_cons.mpr ⟨fun h => p.not_mem_done h mem_cons_self, ih⟩

theorem lt (p : Placed n pairs done order) (h : i ∈ order) : i < n := by
  induction p
  case nil => contradiction
  case cons hk _ _ _ ih =>
    cases h
    case head   => exact hk
    case tail h => exact ih h

theorem subset_range (p : Placed n pairs done order) : order ⊆ List.range n :=
  fun _ h => mem_range.mpr <| p.lt h

-- A dependency of what is placed is placed before it.
theorem mem_of_follows {pre post : List Nat} (p : Placed n pairs done order)
    (h : order = pre ++ i :: post) (hj : Follows pairs i j) : j ∈ pre ∨ j ∈ done := by
  induction p generalizing pre
  case nil => simp at h
  case cons k order _ _ hk _ ih =>
    cases pre
    case nil =>
      simp only [nil_append, cons.injEq] at h
      exact .inr <| hk j (h.left ▸ hj)
    case cons head pre =>
      simp only [cons_append, cons.injEq] at h
      cases ih h.right
      case inl hm => exact .inl <| mem_cons_of_mem _ hm
      case inr hm =>
        cases hm
        case head    => exact .inl <| h.left ▸ mem_cons_self
        case tail hm => exact .inr hm

theorem ordered (p : Placed n pairs [] order) : Ordered (Follows pairs) order :=
  fun _ _ _ h _ hj => p.mem_of_follows h hj |>.resolve_right not_mem_nil

theorem perm_range (p : Placed n pairs done order) (h : n ≤ order.length) :
    order ~ List.range n :=
  (subperm_of_subset p.nodup p.subset_range).perm_of_length_le (by simpa using h)

end Placed

-- The placing has come to the point where the indices in `done` are placed.
structure Reached (n : Nat) (pairs : List Pair) (done : List Nat) (p : Progress) : Prop where
  nodup    : done.Nodup
  lt       : ∀ i ∈ done, i < n
  settled  : Settled pairs done
  accounts : p.Accounts n done fun i => (unmet pairs done i).length

-- The indices are placed in turn, each the lowest one that is ready, until there is none.
inductive Run (pairs : List Pair) : Progress → List Nat → Progress → Prop
  | done {p : Progress} (none : p.ready = []) : Run pairs p [] p
  | next {p q r : Progress} {i : Nat} {rest order : List Nat} (lowest : p.ready = i :: rest)
      (meets : Progress.Meets { p with ready := rest } (dependents pairs i) q) :
      Run pairs q order r → Run pairs p (i :: order) r

namespace Reached

theorem initial : Reached n pairs [] (.initial n pairs) where
  nodup    := nodup_nil
  lt       := forall_mem_nil _
  settled  := forall_mem_nil _
  accounts := Progress.initial_accounts

theorem of_ready (r : Reached n pairs done p) (h : i ∈ p.ready) :
    i < n ∧ i ∉ done ∧ ∀ j, Follows pairs i j → j ∈ done := by
  have ⟨hi, hd, hz⟩ := r.accounts.mem_ready i |>.mp h
  exact ⟨hi, hd, unmet_eq_nil.mp <| length_eq_zero_iff.mp hz⟩

theorem next {rest : List Nat} (r : Reached n pairs done p) (h : p.ready = i :: rest) :
    Reached n pairs (i :: done)
      ((dependents pairs i).foldl Progress.meet { p with ready := rest }) := by
  have ⟨hi, hd, hf⟩ := r.of_ready (h ▸ mem_cons_self)
  exact {
    nodup    := nodup_cons.mpr ⟨hd, r.nodup⟩
    lt       := forall_mem_cons.mpr ⟨hi, r.lt⟩
    settled  := r.settled.cons hf
    accounts := r.accounts.next r.settled h |>.left
  }

theorem length_lt (r : Reached n pairs done p) (h : i ∈ p.ready) : done.length < n := by
  have ⟨hi, hd, _⟩ := r.of_ready h
  have hs : i :: done ⊆ range n :=
    cons_subset.mpr ⟨mem_range.mpr hi, fun k hk => mem_range.mpr (r.lt k hk)⟩
  have hl := (subperm_of_subset (nodup_cons.mpr ⟨hd, r.nodup⟩) hs).length_le
  rw [length_range] at hl
  exact Nat.lt_of_succ_le hl

-- Where nothing is ready, a dependency that is not placed can always be followed.
theorem exists_follows (r : Reached n pairs done p) (h : p.ready = []) (hi : i < n) (hd : i ∉ done) :
    ∃ j, Follows pairs i j ∧ j ∉ done := by
  have hn : unmet pairs done i ≠ [] := by
    intro hu
    have hm := r.accounts.mem_ready i |>.mpr ⟨hi, hd, by simp [hu]⟩
    simp [h] at hm
  have ⟨j, hj⟩ := exists_mem_of_ne_nil _ hn
  exact ⟨j, mem_unmet.mp hj⟩

-- What a whole run of `place` amounts to, if there is fuel for all that is not placed.
theorem place (r : Reached n pairs done p) (hf : n ≤ done.length + fuel) :
    ∃ q, Reached n pairs ((Order.place pairs fuel p).reverse ++ done) q ∧ q.ready = [] ∧
      Placed n pairs done (Order.place pairs fuel p) ∧
      (InRange n pairs → Run pairs p (Order.place pairs fuel p) q) := by
  induction fuel generalizing done p
  case zero =>
    have hr : p.ready = [] :=
      eq_nil_iff_forall_not_mem.mpr fun _ hi => (r.length_lt hi).not_ge hf
    exact ⟨p, r, hr, .nil, fun _ => .done hr⟩
  case succ fuel ih =>
    simp only [Order.place]
    split
    case h_1 hr => exact ⟨p, r, hr, .nil, fun _ => .done hr⟩
    case h_2 i rest hr =>
      have ⟨hi, hd, hfo⟩ := r.of_ready (hr ▸ mem_cons_self)
      have ⟨q, rq, hq, hp, hrun⟩ := ih (r.next hr) (by simp only [length_cons]; omega)
      refine ⟨q, by simpa using rq, hq, .cons hi hd hfo hp, fun h => .next hr ?_ (hrun h)⟩
      refine r.accounts.next r.settled hr |>.right fun k hk => ?_
      exact h k i (mem_dependents.mp hk) |>.left

end Reached

-- The walk over dependencies that are not placed, to the lowest one each time, until one comes again.
-- What is left of it is the part from there on.
inductive Walk (pairs : List Pair) (placed : List Nat) : Nat → List Nat → List Nat → Prop
  | meets {i : Nat} {path : List Nat} (mem : i ∈ path) :
      Walk pairs placed i path (path.reverse.dropWhile (· != i))
  | next {i j : Nat} {path walk : List Nat} (unmet : i ∉ path) (lowest : next? pairs placed i = some j) :
      Walk pairs placed j (i :: path) walk → Walk pairs placed i path walk

-- The walk from where it meets itself again.
theorem circuit_of_walk (hc : (walk ++ [i]).IsChain (Follows pairs)) (hn : walk.Nodup)
    (hi : i ∈ walk) : Circuit (Follows pairs) (walk.dropWhile (· != i)) := by
  have ⟨pre, post, hw, hp⟩ := eq_append_cons_of_mem hi
  have hd : walk.dropWhile (· != i) = i :: post := by
    rw [hw, dropWhile_append_of_pos (by grind), dropWhile_cons_of_neg (by simp)]
  rw [hd]
  exact {
    ne_nil := by simp
    nodup  := hn.sublist <| hw ▸ sublist_append_right ..
    closed := hc.suffix <| by simp [hw]
  }

theorem next?_eq_some (hs : ∃ j, Follows pairs i j ∧ j ∉ placed) :
    ∃ j, next? pairs placed i = some j ∧ Follows pairs i j ∧ j ∉ placed := by
  have he : next? pairs placed i = (unmet pairs placed i).min? := by simp [next?, unmet]
  obtain ⟨k, hk⟩ := hs
  have hm := mem_unmet.mpr hk
  cases hj : (unmet pairs placed i).min?
  case none => simp [min?_eq_none_iff.mp hj] at hm
  case some j => exact ⟨j, he.trans hj, mem_unmet.mp <| min?_mem hj⟩

-- The length of the walk and the fuel that is left bound the number of the indices.
theorem chase_walk (hp : InRange n pairs)
    (hs : ∀ i < n, i ∉ placed → ∃ j, Follows pairs i j ∧ j ∉ placed)
    (hc : (path.reverse ++ [i]).IsChain (Follows pairs)) (hn : path.Nodup)
    (hw : ∀ k ∈ i :: path, k < n ∧ k ∉ placed) (hf : n < fuel + path.length) :
    ∃ walk, Walk pairs placed i path walk ∧ Circuit (Follows pairs) walk ∧
      chase pairs placed fuel i path = walk.mergeSort := by
  induction fuel generalizing i path
  case zero =>
    have hr : path ⊆ range n := fun k hk => mem_range.mpr <| hw k (mem_cons_of_mem _ hk) |>.left
    have hl := (subperm_of_subset hn hr).length_le
    simp only [length_range] at hl
    omega
  case succ fuel ih =>
    simp only [chase]
    split
    case isTrue hm =>
      have hm : i ∈ path := by simpa using hm
      exact ⟨_, .meets hm, circuit_of_walk hc (nodup_reverse.mpr hn) (mem_reverse.mpr hm), rfl⟩
    case isFalse hm =>
      have hm : i ∉ path := by simpa using hm
      have ⟨hi, hd⟩ := hw i mem_cons_self
      have ⟨j, hj, hfo, hjd⟩ := next?_eq_some (hs i hi hd)
      have hc' : ((i :: path).reverse ++ [j]).IsChain (Follows pairs) := by
        rw [reverse_cons, isChain_append]
        exact ⟨hc, .singleton j, by simpa using hfo⟩
      have hw' := forall_mem_cons.mpr ⟨⟨(hp i j hfo).right, hjd⟩, hw⟩
      have ⟨walk, hwalk, hcirc, he⟩ := ih hc' (nodup_cons.mpr ⟨hm, hn⟩) hw' <| by
        simp only [length_cons]
        omega
      simp only [hj]
      exact ⟨walk, .next hm hj hwalk, hcirc, he⟩

-- What comes of the main loop.
theorem place_initial (n : Nat) (pairs : List Pair) :
    ∃ q, Reached n pairs (place pairs n (.initial n pairs)).reverse q ∧ q.ready = [] ∧
      Placed n pairs [] (place pairs n (.initial n pairs)) ∧
      (InRange n pairs → Run pairs (.initial n pairs) (place pairs n (.initial n pairs)) q) := by
  simpa using Reached.initial.place (Nat.zero_add n).ge

theorem sort_ok (h : sort n pairs = .ok order) :
    order ~ List.range n ∧ Ordered (Follows pairs) order := by
  have ⟨_, _, _, hp, _⟩ := place_initial n pairs
  simp only [sort] at h
  split at h
  case isTrue hl =>
    cases h
    exact ⟨hp.perm_range hl.ge, hp.ordered⟩
  case isFalse => contradiction

theorem mergeSort_pairwise_lt (h : walk.Nodup) : walk.mergeSort.Pairwise (· < ·) := by
  have hn : walk.mergeSort.Nodup := (mergeSort_perm ..).nodup_iff.mpr h
  have hl : walk.mergeSort.Pairwise (fun a b => decide (a ≤ b) = true) :=
    pairwise_mergeSort (by simpa using fun _ _ _ => Nat.le_trans) (by simpa using Nat.le_total) walk
  exact hl.and hn |>.imp fun ⟨hle, hne⟩ => Nat.lt_of_le_of_ne (by simpa using hle) hne

-- The walk that names a cycle starts at the lowest index that is not placed.
theorem sort_error_walk {cycle : List Nat} (hp : InRange n pairs) (h : sort n pairs = .error cycle) :
    ∃ first walk, (range n).find? (· ∉ Order.place pairs n (.initial n pairs)) = some first ∧
      Walk pairs (Order.place pairs n (.initial n pairs)) first [] walk ∧
      Circuit (Follows pairs) walk ∧ cycle = walk.mergeSort := by
  have ⟨q, rq, hq, hpl, _⟩ := place_initial n pairs
  simp only [sort] at h
  split at h
  case isTrue => contradiction
  case isFalse hl =>
    cases h
    generalize Order.place pairs n (.initial n pairs) = placed at *
    have hs : ∀ i < n, i ∉ placed → ∃ j, Follows pairs i j ∧ j ∉ placed :=
      fun i hi hd => by simpa using rq.exists_follows hq hi (by simpa using hd)
    cases hf : (range n).find? (· ∉ placed)
    case none =>
      have hr : range n ⊆ placed := fun i hi => by simpa using find?_eq_none.mp hf i hi
      have hle := (subperm_of_subset nodup_range hr).length_le
      have hge := (subperm_of_subset hpl.nodup hpl.subset_range).length_le
      simp only [length_range] at hle hge
      omega
    case some first =>
      have hn : first < n := mem_range.mp <| mem_of_find?_eq_some hf
      have hd : first ∉ placed := by simpa using find?_some hf
      have hfirst : ((range n).find? (!placed.contains ·)).getD 0 = first := by
        simpa using congrArg (·.getD 0) hf
      have ⟨walk, hw, hc, he⟩ := chase_walk hp hs (.singleton first) nodup_nil
        (by simpa using And.intro hn hd) (Nat.lt_succ_self n)
      refine ⟨first, walk, rfl, hw, hc, ?_⟩
      rw [Order.cycle, hfirst, he]

theorem sort_error {cycle : List Nat} (hp : InRange n pairs) (h : sort n pairs = .error cycle) :
    cycle.Pairwise (· < ·) ∧ ∃ walk, Circuit (Follows pairs) walk ∧ cycle ~ walk := by
  have ⟨_, walk, _, _, hc, he⟩ := sort_error_walk hp h
  exact ⟨he ▸ mergeSort_pairwise_lt hc.nodup, walk, hc, he ▸ mergeSort_perm ..⟩

end Lakehouse.Order
