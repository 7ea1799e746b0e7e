import Lakehouse.Proofs.NamedOrder
/-!
Greedy orders. The stable order takes, again and again, the first of those that are ready. Hence it
is determined by what depends on what, and those that depend on nothing else than each other keep
the order that they would have without the rest.
-/
namespace Lakehouse.Order

open List

variable {α β : Type} {P Q : α → Prop} {xs ys names : List α} {a b : α}

-- The first element of the list with the property.
inductive First (P : α → Prop) : List α → α → Prop
  | head {xs : List α} {a : α} (holds : P a) : First P (a :: xs) a
  | tail {xs : List α} {a b : α} (fails : ¬P b) : First P xs a → First P (b :: xs) a

namespace First

theorem holds (f : First P xs a) : P a := by
  induction f
  case head h    => exact h
  case tail _ ih => exact ih

theorem mem (f : First P xs a) : a ∈ xs := by
  induction f
  case head      => exact mem_cons_self
  case tail _ ih => exact mem_cons_of_mem _ ih

theorem iff_append : First P xs a ↔
    ∃ pre post, xs = pre ++ a :: post ∧ (∀ b ∈ pre, ¬P b) ∧ P a := by
  constructor
  case mp =>
    intro f
    induction f
    case head h => exact ⟨[], _, rfl, by simp, h⟩
    case tail hb _ ih =>
      have ⟨pre, post, he, hp, ha⟩ := ih
      exact ⟨_ :: pre, post, by simp [he], forall_mem_cons.mpr ⟨hb, hp⟩, ha⟩
  case mpr =>
    intro ⟨pre, post, he, hp, ha⟩
    subst he
    induction pre
    case nil => exact .head ha
    case cons b pre ih =>
      have ⟨hb, hp⟩ := forall_mem_cons.mp hp
      exact .tail hb (ih hp)

theorem unique (f : First P xs a) (g : First P xs b) : a = b := by
  induction f
  case head h =>
    cases g
    case head      => rfl
    case tail hn _ => exact hn h |>.elim
  case tail hn _ ih =>
    cases g
    case head h => exact hn h |>.elim
    case tail g => exact ih g

theorem of_find? {p : α → Bool} (hp : ∀ b, p b ↔ P b) (h : xs.find? p = some a) :
    First P xs a := by
  induction xs
  case nil => contradiction
  case cons x xs ih =>
    rw [find?_cons] at h
    split at h
    case h_1 hx =>
      cases h
      exact .head (hp _ |>.mp hx)
    case h_2 hx => exact .tail (by simp [← hp, hx]) (ih h)

theorem of_lowest {R : Nat → Prop} {n i : Nat} (hi : i < n) (hr : R i) (hl : ∀ j < i, ¬R j) :
    First R (range n) i := by
  classical
  refine of_find? (p := fun k => decide (R k)) (fun _ => decide_eq_true_iff) ?_
  exact find?_range_eq_some.mpr ⟨by simpa using hr, mem_range.mpr hi, by simpa using hl⟩

-- What comes first in a list comes first in the part of it that it belongs to.
theorem sublist (f : First P ys a) (hs : xs <+ ys) (hn : ys.Nodup) (ha : a ∈ xs)
    (h : ∀ b ∈ xs, P b ↔ Q b) : First Q xs a := by
  induction hs
  case slnil => contradiction
  case cons y hs ih =>
    have ⟨hy, hn⟩ := nodup_cons.mp hn
    cases f
    case head   => exact hy (hs.subset ha) |>.elim
    case tail f => exact ih f hn ha h
  case cons_cons y hs ih =>
    have ⟨_, hn⟩ := nodup_cons.mp hn
    have ⟨hq, h⟩ := forall_mem_cons.mp h
    cases f
    case head hp => exact .head <| hq.mp hp
    case tail hp f =>
      have hne : a ≠ y := fun he => hp <| he ▸ f.holds
      exact .tail (hq.not.mp hp) <| ih f hn (mem_of_ne_of_mem hne ha) h

theorem of_map {f : β → α} {xs : List β} (h : First P (xs.map f) a) :
    ∃ x, f x = a ∧ First (P ∘ f) xs x := by
  induction xs
  case nil => cases h
  case cons x xs ih =>
    cases h
    case head hp => exact ⟨x, rfl, .head hp⟩
    case tail hp h =>
      have ⟨y, hy, hf⟩ := ih h
      exact ⟨y, hy, .tail hp hf⟩

-- The first place with a property is that of the first element with it.
theorem of_range {R : Nat → Prop} {i : Nat} (f : First R (range xs.length) i)
    (h : ∀ k x, xs[k]? = some x → (R k ↔ Q x)) : ∃ x, xs[i]? = some x ∧ First Q xs x := by
  induction xs generalizing R i
  case nil => cases f
  case cons x xs ih =>
    rw [length_cons, range_succ_eq_map] at f
    cases f
    case head hp => exact ⟨x, rfl, .head <| h 0 x rfl |>.mp hp⟩
    case tail hp f =>
      have ⟨k, hk, f⟩ := f.of_map
      have ⟨y, hy, hf⟩ := ih f fun k y hy => h (k + 1) y hy
      exact ⟨y, hk ▸ hy, .tail (h 0 x rfl |>.not.mp hp) hf⟩

end First

section

variable {depends : α → α → Prop} {done order other : List α}

-- The name is not placed yet, and all that it depends on is.
def Ready (depends : α → α → Prop) (done : List α) (a : α) : Prop :=
  a ∉ done ∧ ∀ b, depends a b → b ∈ done

-- In turn the first name that is ready is placed, until all are.
inductive Greedy (names : List α) (depends : α → α → Prop) : List α → List α → Prop
  | nil {done : List α} (all : ∀ a ∈ names, a ∈ done) : Greedy names depends done []
  | cons {done order : List α} {a : α} (first : First (Ready depends done) names a) :
      Greedy names depends (a :: done) order → Greedy names depends done (a :: order)

namespace Greedy

theorem unique (g : Greedy names depends done order) (h : Greedy names depends done other) :
    order = other := by
  induction g generalizing other
  case nil all =>
    cases h
    case nil          => rfl
    case cons first _ => exact first.holds.left (all _ first.mem) |>.elim
  case cons first _ ih =>
    cases h
    case nil all => exact first.holds.left (all _ first.mem) |>.elim
    case cons first' h =>
      cases first.unique first'
      rw [ih h]

-- Names that depend on each other only are placed as if there were no others.
theorem filter [DecidableEq α] {more : α → α → Prop} (g : Greedy ys more done order) (hs : xs <+ ys)
    (hn : ys.Nodup) (hd : ∀ a ∈ xs, ∀ b, more a b ↔ depends a b)
    (hc : ∀ a ∈ xs, ∀ b, depends a b → b ∈ xs) :
    Greedy xs depends (done.filter (· ∈ xs)) (order.filter (· ∈ xs)) := by
  induction g
  case nil all => exact .nil fun a ha => mem_filter.mpr ⟨all a (hs.subset ha), by simpa using ha⟩
  case cons done order a first g ih =>
    by_cases ha : a ∈ xs
    case neg => simpa [filter_cons, ha] using ih
    case pos =>
      simp only [filter_cons, ha, decide_true, if_true] at ih ⊢
      refine .cons (first.sublist hs hn ha fun b hb => ?_) ih
      simp only [Ready, mem_filter, hb, decide_true, and_true, hd b hb]
      refine and_congr_right fun _ => forall₂_congr fun c hbc => ?_
      simp [hc b hb c hbc]

end Greedy

end

section

variable {n fuel i : Nat} {pairs : List Pair} {done order rest : List Nat} {p : Progress}

theorem Reached.ready_iff (r : Reached n pairs done p) :
    i ∈ p.ready ↔ i < n ∧ Ready (Follows pairs) done i := by
  rw [r.accounts.mem_ready, length_eq_zero_iff, unmet_eq_nil, Ready]

theorem Reached.first (r : Reached n pairs done p) (h : p.ready = i :: rest) :
    First (Ready (Follows pairs) done) (range n) i := by
  have ⟨hlt, _⟩ := pairwise_cons.mp (h ▸ r.accounts.ascending)
  have ⟨hn, hi⟩ := r.ready_iff.mp (h ▸ mem_cons_self)
  refine .of_lowest hn hi fun j hj hr => ?_
  have hm : j ∈ i :: rest := h ▸ r.ready_iff.mpr ⟨hj.trans hn, hr⟩
  exact hj.not_gt <| hlt j <| mem_of_ne_of_mem hj.ne hm

-- A run of `place` after which all is placed.
theorem Reached.greedy (r : Reached n pairs done p)
    (h : ∀ i < n, i ∈ Order.place pairs fuel p ∨ i ∈ done) :
    Greedy (range n) (Follows pairs) done (Order.place pairs fuel p) := by
  induction fuel generalizing done p
  case zero => exact .nil fun i hi => by simpa [Order.place] using h i (mem_range.mp hi)
  case succ fuel ih =>
    simp only [Order.place] at h ⊢
    split
    case h_1 hr => exact .nil fun i hi => by simpa [hr] using h i (mem_range.mp hi)
    case h_2 i rest hr =>
      simp only [hr] at h
      refine .cons (r.first hr) <| ih (r.next hr) fun k hk => ?_
      simpa [or_assoc, or_left_comm] using h k hk

theorem sort_greedy (h : sort n pairs = .ok order) :
    Greedy (range n) (Follows pairs) [] order := by
  have hp := (sort_ok h).left
  simp only [sort] at h
  split at h
  case isTrue =>
    cases h
    exact Reached.initial.greedy fun i hi => .inl <| hp.mem_iff.mpr <| mem_range.mpr hi
  case isFalse => contradiction

end

namespace Names

variable [DecidableEq α] {depends : α → α → Prop} {pairs : List Pair} {done order : List Nat}

theorem ready_iff (n : Names names depends pairs) {i : Nat} (h : names[i]? = some a) :
    Ready (Follows pairs) done i ↔ Ready depends (done.filterMap (names[·]?)) a := by
  have hm : ∀ {k b}, names[k]? = some b → (k ∈ done ↔ b ∈ done.filterMap (names[·]?)) := by
    intro k b hb
    rw [mem_filterMap]
    constructor
    case mp  => exact fun hk => ⟨k, hk, hb⟩
    case mpr => exact fun ⟨j, hj, he⟩ => (n.idxOf_eq hb).symm.trans (n.idxOf_eq he) ▸ hj
  refine and_congr (hm h).not ?_
  constructor
  case mp =>
    intro hd b hb
    have ⟨_, hm', hf⟩ := n.depends a b hb
    rw [n.idxOf_eq h] at hf
    exact hm (getElem?_idxOf hm') |>.mp (hd _ hf)
  case mpr =>
    intro hd j hj
    have ⟨a', b, ha, hb, hab⟩ := n.follows i j hj
    cases h.symm.trans ha
    exact hm hb |>.mpr (hd b hab)

-- An order of places is an order of the names.
theorem greedy (n : Names names depends pairs)
    (g : Greedy (range names.length) (Follows pairs) done order) :
    Greedy names depends (done.filterMap (names[·]?)) (order.filterMap (names[·]?)) := by
  induction g
  case nil all =>
    refine .nil fun a ha => mem_filterMap.mpr ?_
    have ⟨k, hk⟩ := mem_iff_getElem?.mp ha
    have ⟨hl, _⟩ := List.getElem?_eq_some_iff.mp hk
    exact ⟨k, all k (mem_range.mpr hl), hk⟩
  case cons first _ ih =>
    have ⟨a, ha, hf⟩ := first.of_range fun k b hb => n.ready_iff hb
    simp only [filterMap_cons, ha] at ih ⊢
    exact .cons hf ih

theorem sort_greedy (n : Names names depends pairs) (h : sort names.length pairs = .ok order) :
    Greedy names depends [] (order.filterMap (names[·]?)) :=
  n.greedy (Order.sort_greedy h)

end Names

end Lakehouse.Order
