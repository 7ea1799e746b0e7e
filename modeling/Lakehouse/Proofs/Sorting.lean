import Lakehouse.Proofs.Greedy
import Mathlib.Data.Set.Defs
/-!
What sorting comes to. The main loop ends, and nothing is met that is not waited for. If nothing
depends on itself then the order is the least of all that put an index after its dependencies; otherwise
the walk from the first index that is not placed ends where it meets itself, with a circuit.
-/
namespace Lakehouse.Order

open List

variable {P : Nat → Prop} {n i j : Nat} {pairs : List Pair} {xs done order other : List Nat}

instance : Decidable (InRange n pairs) :=
  decidable_of_iff (∀ pair ∈ pairs, pair.1 < n ∧ pair.2 < n) Prod.forall

-- The orders of all indices in which each stands after its dependencies.
def orders (n : Nat) (pairs : List Pair) : Set (List Nat) :=
  {xs | xs ~ range n ∧ Ordered (Follows pairs) xs}

theorem First.le (f : First P xs i) (hx : xs.Pairwise (· < ·)) (hj : j ∈ xs) (h : P j) : i ≤ j := by
  induction f
  case head =>
    have ⟨hlt, _⟩ := pairwise_cons.mp hx
    obtain rfl | hj := mem_cons.mp hj
    · exact Nat.le_refl _
    · exact (hlt j hj).le
  case tail hk _ ih =>
    have ⟨_, hx⟩ := pairwise_cons.mp hx
    obtain rfl | hj := mem_cons.mp hj
    · exact hk h |>.elim
    · exact ih hx hj

-- An order of all indices, after the part of it that is placed.
theorem Placed.of_mem_orders (h : done.reverse ++ other ∈ orders n pairs) :
    Placed n pairs done other := by
  induction other generalizing done
  case nil => exact .nil
  case cons i other ih =>
    have ⟨hp, ho⟩ := h
    have hi : i < n := mem_range.mp <| hp.mem_iff.mp <| by simp
    have hn := hp.nodup_iff.mpr nodup_range
    have hd : i ∉ done := fun hm => disjoint_of_nodup_append hn (by simpa using hm) mem_cons_self
    refine .cons hi hd (fun j hj => mem_reverse.mp <| ho _ _ _ rfl j hj) <| ih ?_
    simpa using h

-- What can be placed next is never below the first that is ready, so another order differs from the
-- greedy one first where it has something higher.
theorem Greedy.least (g : Greedy (range n) (Follows pairs) done order) (p : Placed n pairs done other)
    (h : ∀ i < n, i ∈ other ∨ i ∈ done) : order = other ∨ List.Lex (· < ·) order other := by
  induction g generalizing other
  case nil =>
    cases other
    case nil  => exact .inl rfl
    case cons => exact .inr .nil
  case cons done order i first g ih =>
    cases p
    case nil =>
      have hi := h i (mem_range.mp first.mem)
      simp [first.holds.left] at hi
    case cons other j hj hd hf p =>
      have hle : i ≤ j := first.le pairwise_lt_range (mem_range.mpr hj) ⟨hd, hf⟩
      obtain hlt | rfl := hle.lt_or_eq
      case inl => exact .inr <| .rel hlt
      case inr =>
        have ho := ih p fun k hk => by simpa [or_assoc, or_left_comm] using h k hk
        exact ho.imp (congrArg _) .cons

theorem sort_least (h : sort n pairs = .ok order) :
    order ∈ orders n pairs ∧
      ∀ other ∈ orders n pairs, order = other ∨ List.Lex (· < ·) order other := by
  refine ⟨sort_ok h, fun other ho => ?_⟩
  refine (sort_greedy h).least (.of_mem_orders (by simpa using ho)) fun i hi => .inl ?_
  exact ho.left.mem_iff.mpr <| mem_range.mpr hi

theorem sort_isOk_iff (h : InRange n pairs) :
    (∃ order, sort n pairs = .ok order) ↔ Acyclic (Follows pairs) := by
  constructor
  case mp =>
    intro ⟨order, hs⟩
    have ⟨hp, ho⟩ := sort_ok hs
    exact ho.acyclic fun i j hf => hp.mem_iff.mpr <| mem_range.mpr (h i j hf).left
  case mpr =>
    intro ha
    cases hs : sort n pairs
    case ok order => exact ⟨order, rfl⟩
    case error cycle =>
      have ⟨_, _, hc, _⟩ := sort_error h hs
      exact hc.not_acyclic ha |>.elim

-- The main loop ends, meets nothing that is not waited for, and takes no index twice. What it takes is
-- the order, which there is for the acyclic relations alone, and it is the least of all orders.
structure Stable (n : Nat) (pairs : List Pair) : Prop where
  run    : ∃ placed final, Run pairs (.initial n pairs) placed final ∧ placed.Nodup ∧
    ∀ order, sort n pairs = .ok order → order = placed
  isOk   : (∃ order, sort n pairs = .ok order) ↔ Acyclic (Follows pairs)
  orders : ∀ order, sort n pairs = .ok order →
    order ~ range n ∧ ∀ pre i post, order = pre ++ i :: post → ∀ j, (i, j) ∈ pairs → j ∈ pre
  least  : ∀ order, sort n pairs = .ok order →
    ∀ other ∈ Order.orders n pairs, order = other ∨ List.Lex (· < ·) order other

theorem sort_stable (h : InRange n pairs) : Stable n pairs := by
  have ⟨final, _, _, hp, hr⟩ := place_initial n pairs
  exact {
    run    := by
      refine ⟨_, final, hr h, hp.nodup, fun order ho => ?_⟩
      simp only [sort] at ho
      split at ho
      case isTrue  => exact (Except.ok.inj ho).symm
      case isFalse => contradiction
    isOk   := sort_isOk_iff h
    orders := fun _ => sort_ok
    least  := fun _ ho => (sort_least ho).right
  }

-- Something that comes after two others, of which one is named twice, and before none.
def diamond : List Pair :=
  [(0, 1), (0, 2), (1, 3), (0, 1), (2, 3)]

theorem sort_stable_diamond : InRange 4 diamond ∧ Stable 4 diamond ∧
    sort 4 diamond = .ok [3, 1, 2, 0] :=
  ⟨by decide, sort_stable (by decide), by decide⟩

-- The cycle that is named is what is left of a walk from the first index that is not placed, and its
-- elements are those of a circuit.
theorem sort_error_circuit {cycle : List Nat} (h : InRange n pairs) (he : sort n pairs = .error cycle) :
    ∃ placed final first walk, Run pairs (.initial n pairs) placed final ∧
      (range n).find? (· ∉ placed) = some first ∧ Walk pairs placed first [] walk ∧
      cycle = walk.mergeSort ∧ cycle ≠ [] ∧ cycle.Pairwise (· < ·) ∧
      Circuit (Follows pairs) walk ∧ ∀ i, i ∈ cycle ↔ i ∈ walk := by
  have ⟨final, _, _, _, hr⟩ := place_initial n pairs
  have ⟨first, walk, hf, hw, hc, hs⟩ := sort_error_walk h he
  have hp : cycle ~ walk := hs ▸ mergeSort_perm ..
  have hl : cycle.Pairwise (· < ·) := hs ▸ mergeSort_pairwise_lt hc.nodup
  have hn : cycle ≠ [] := fun h => hc.ne_nil <| perm_nil.mp (h ▸ hp).symm
  exact ⟨_, final, first, walk, hr h, hf, hw, hs, hn, hl, hc, fun _ => hp.mem_iff⟩

-- A circuit, with something that leads to it and something that it leads to.
def passage : List Pair :=
  [(0, 1), (1, 3), (1, 2), (2, 1), (1, 2)]

theorem sort_error_circuit_passage : InRange 4 passage ∧ sort 4 passage = .error [1, 2] ∧
    ∃ walk, Circuit (Follows passage) walk ∧ ∀ i, i ∈ [1, 2] ↔ i ∈ walk := by
  have hr : InRange 4 passage := by decide
  have hs : [1, 2].mergeSort = [1, 2] := mergeSort_of_pairwise (by decide)
  have he : sort 4 passage = .error [1, 2].mergeSort := rfl
  rw [hs] at he
  obtain ⟨_, _, _, walk, _, _, _, _, _, _, hc, hm⟩ := sort_error_circuit hr he
  exact ⟨hr, he, walk, hc, hm⟩

end Lakehouse.Order
