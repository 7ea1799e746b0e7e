import Lakehouse.Proofs.Order
import Mathlib.Data.List.Sort

namespace Lakehouse.Order

open List

variable {α : Type} [DecidableEq α] {names : List α} {depends : α → α → Prop}
variable {pairs : List Pair} {order : List Nat} {i j : Nat}

-- Every name has one place, and the pairs are the dependencies of the names by their places.
structure Names (names : List α) (depends : α → α → Prop) (pairs : List Pair) : Prop where
  nodup   : names.Nodup
  follows : ∀ i j, Follows pairs i j →
    ∃ a b, names[i]? = some a ∧ names[j]? = some b ∧ depends a b
  depends : ∀ a b, depends a b →
    a ∈ names ∧ b ∈ names ∧ Follows pairs (names.idxOf a) (names.idxOf b)

omit [DecidableEq α] in
theorem filterMap_range_getElem? (xs : List α) :
    (range xs.length).filterMap (xs[·]?) = xs := by
  induction xs
  case nil => rfl
  case cons x xs ih => simpa [range_succ_eq_map, filterMap_map, Function.comp_def] using ih

omit [DecidableEq α] in
theorem sort_perm {xs : List α} (h : sort xs.length pairs = .ok order) :
    order.filterMap (xs[·]?) ~ xs := by
  have hf := (sort_ok h).left.filterMap (xs[·]?)
  rwa [filterMap_range_getElem?] at hf

namespace Names

theorem idxOf_eq (n : Names names depends pairs) {a : α} (h : names[i]? = some a) :
    names.idxOf a = i := by
  have ⟨hi, he⟩ := List.getElem?_eq_some_iff.mp h
  exact he ▸ n.nodup.idxOf_getElem i hi

theorem inRange (n : Names names depends pairs) : InRange names.length pairs := by
  intro i j h
  have ⟨a, b, ha, hb, _⟩ := n.follows i j h
  exact ⟨List.getElem?_eq_some_iff.mp ha |>.choose, List.getElem?_eq_some_iff.mp hb |>.choose⟩

theorem sort_ok (n : Names names depends pairs) (h : sort names.length pairs = .ok order) :
    order.filterMap (names[·]?) ~ names ∧ Ordered depends (order.filterMap (names[·]?)) := by
  refine ⟨sort_perm h, (Order.sort_ok h).right.filterMap ?_⟩
  intro i _ a hi b hd
  have ⟨_, hb, hf⟩ := n.depends a b hd
  rw [n.idxOf_eq hi] at hf
  exact ⟨_, hf, getElem?_idxOf hb⟩

theorem sort_error {cycle : List Nat} (n : Names names depends pairs)
    (h : sort names.length pairs = .error cycle) :
    cycle.filterMap (names[·]?) <+ names ∧
      ∃ walk, Circuit depends walk ∧ cycle.filterMap (names[·]?) ~ walk := by
  have ⟨ha, walk, hc, hw⟩ := Order.sort_error n.inRange h
  have hl : ∀ i ∈ walk, i < names.length := by
    intro i hi
    have ⟨j, hj⟩ := hc.exists_next hi
    exact n.inRange i j hj |>.left
  constructor
  case left =>
    have hr : cycle <+ range names.length := by
      apply sublist_of_subperm_of_pairwise (r := (· < ·)) ?_ ha pairwise_lt_range
      apply subperm_of_subset <| hw.nodup_iff.mpr hc.nodup
      exact fun i hi => mem_range.mpr <| hl i <| hw.mem_iff.mp hi
    have hf := hr.filterMap (names[·]?)
    rwa [filterMap_range_getElem?] at hf
  case right =>
    refine ⟨_, hc.filterMap ?_ n.follows, hw.filterMap _⟩
    exact fun i hi _ _ => (getElem?_inj (hl i hi) n.nodup).mp

theorem sort_isOk_iff (n : Names names depends pairs) :
    (∃ order, sort names.length pairs = .ok order) ↔ Acyclic depends := by
  constructor
  case mp =>
    intro ⟨order, h⟩
    have ⟨hp, ho⟩ := n.sort_ok h
    exact ho.acyclic fun a b hd => hp.mem_iff.mpr (n.depends a b hd).left
  case mpr =>
    intro ha
    cases h : sort names.length pairs
    case ok order => exact ⟨order, rfl⟩
    case error cycle =>
      have ⟨_, _, hc, _⟩ := n.sort_error h
      exact hc.not_acyclic ha |>.elim

end Names

end Lakehouse.Order
