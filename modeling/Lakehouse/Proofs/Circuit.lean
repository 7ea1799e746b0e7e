import Mathlib.Data.List.Chain
import Mathlib.Data.List.Nodup
import Mathlib.Logic.Relation

namespace Lakehouse

open Relation

variable {α β : Type} {r : α → α → Prop} {s : β → β → Prop} {xs walk : List α} {x y : α}

-- The vertices of a walk that ends where it starts and meets none twice.
structure Circuit (r : α → α → Prop) (walk : List α) : Prop where
  ne_nil : walk ≠ []
  nodup  : walk.Nodup
  closed : (walk ++ walk.head?.toList).IsChain r

-- Nothing is reached from itself.
def Acyclic (r : α → α → Prop) : Prop :=
  ∀ x, ¬TransGen r x x

-- Whatever an element depends on stands before it.
def Ordered (r : α → α → Prop) (xs : List α) : Prop :=
  ∀ pre x post, xs = pre ++ x :: post → ∀ y, r x y → y ∈ pre

namespace Circuit

theorem not_acyclic (c : Circuit r walk) : ¬Acyclic r := by
  intro ha
  cases walk
  case nil => exact c.ne_nil rfl
  case cons x rest =>
    have h : (x :: (rest ++ [x])).IsChain (TransGen r) := c.closed.imp fun _ _ => .single
    exact ha x <| h.rel_cons (by simp)

theorem exists_next (c : Circuit r walk) (h : x ∈ walk) : ∃ y, r x y := by
  have ⟨pre, post, he⟩ := List.append_of_mem h
  have hc := c.closed
  have ⟨y, rest, hy⟩ : ∃ y rest, post ++ walk.head?.toList = y :: rest := by
    cases post <;> cases walk <;> simp at he ⊢
  rw [he, List.append_assoc, List.cons_append, ← he, hy] at hc
  exact ⟨y, List.isChain_cons_cons.mp hc.right_of_append |>.left⟩

-- What never goes up can only come back to where it is.
theorem eq_singleton {rank : α → Nat} (c : Circuit r walk) (h : ∀ x y, r x y → rank y ≤ rank x)
    (hi : ∀ x ∈ walk, ∀ y ∈ walk, rank x = rank y → x = y) : ∃ x, walk = [x] ∧ r x x := by
  let R x y := rank y ≤ rank x
  have hr : (walk ++ walk.head?.toList).IsChain R := c.closed.imp h
  have : IsTrans α R := ⟨fun _ _ _ hxy hyz => hyz.trans hxy⟩
  cases walk
  case nil => exact c.ne_nil rfl |>.elim
  case cons x rest =>
    cases rest
    case nil => exact ⟨x, rfl, List.isChain_cons_cons.mp c.closed |>.left⟩
    case cons y rest =>
      have ⟨hxy, hr⟩ := List.isChain_cons_cons.mp hr
      have hyx : rank x ≤ rank y := List.IsChain.rel_cons (R := R) hr (by simp)
      have he : x = y := hi x (by simp) y (by simp) (hyx.antisymm hxy)
      exact (List.nodup_cons.mp c.nodup).left (he ▸ List.mem_cons_self) |>.elim

theorem map {f : α → β} (c : Circuit r walk) (hf : ∀ x ∈ walk, ∀ y ∈ walk, f x = f y → x = y)
    (h : ∀ x ∈ walk, ∀ y ∈ walk, r x y → s (f x) (f y)) : Circuit s (walk.map f) where
  ne_nil := by simp [c.ne_nil]
  nodup  := List.Nodup.map_on hf c.nodup
  closed := by
    have hm : ∀ x ∈ walk ++ walk.head?.toList, x ∈ walk := by
      simp only [List.mem_append, Option.mem_toList]
      exact fun _ h => h.elim id List.mem_of_mem_head?
    have hc := c.closed.imp_of_mem_imp fun x y hx hy => h x (hm x hx) y (hm y hy)
    have he : walk.map f ++ (walk.map f).head?.toList = (walk ++ walk.head?.toList).map f := by
      cases walk <;> simp
    rw [he, List.isChain_map]
    exact hc

theorem filterMap {f : α → Option β} (c : Circuit r walk)
    (hf : ∀ x ∈ walk, ∀ y ∈ walk, f x = f y → x = y)
    (h : ∀ x y, r x y → ∃ a b, f x = some a ∧ f y = some b ∧ s a b) :
    Circuit s (walk.filterMap f) := by
  have hs : ∀ x ∈ walk, ∃ a, f x = some a := by
    intro x hx
    have ⟨y, hy⟩ := c.exists_next hx
    have ⟨a, _, ha, _⟩ := h x y hy
    exact ⟨a, ha⟩
  have ⟨x, hx⟩ := List.exists_mem_of_ne_nil _ c.ne_nil
  have ⟨a, _⟩ := hs x hx
  let g x := (f x).getD a
  have hg : ∀ x ∈ walk, f x = some (g x) := by
    intro x hx
    have ⟨b, hb⟩ := hs x hx
    simp [g, hb]
  have he : walk.filterMap f = walk.map g := by
    rw [← List.filterMap_eq_map]
    exact List.filterMap_congr fun x hx => by simp [hg x hx]
  rw [he]
  apply c.map
  · exact fun x hx y hy hxy => hf x hx y hy <| by rw [hg x hx, hg y hy, hxy]
  · intro x hx y hy hxy
    have ⟨a, b, ha, hb, hs⟩ := h x y hxy
    simpa [g, ha, hb] using hs

end Circuit

open List in
-- The names of a circuit, in the order in which all names come.
def Encircles (depends : String → String → Prop) (names cycle : List String) : Prop :=
  cycle <+ names ∧ ∃ walk, Circuit depends walk ∧ cycle ~ walk

theorem Encircles.not_acyclic {depends : String → String → Prop} {names cycle : List String}
    (h : Encircles depends names cycle) : ¬Acyclic depends :=
  have ⟨_, _, hw, _⟩ := h
  hw.not_acyclic

namespace Ordered

theorem mem (o : Ordered r xs) (hx : x ∈ xs) (h : r x y) : y ∈ xs := by
  have ⟨pre, post, he⟩ := List.append_of_mem hx
  exact he ▸ List.mem_append_left _ (o pre x post he y h)

theorem idxOf_lt [BEq α] [LawfulBEq α] (o : Ordered r xs) (hx : x ∈ xs) (h : r x y) :
    xs.idxOf y < xs.idxOf x := by
  have ⟨pre, post, he, hn⟩ := List.eq_append_cons_of_mem hx
  have hy := o pre x post he y h
  rw [he, List.idxOf_append_of_mem hy, List.idxOf_append_of_notMem hn, List.idxOf_cons_self]
  exact List.idxOf_lt_length_of_mem hy

theorem idxOf_lt_of_reaches [BEq α] [LawfulBEq α] (o : Ordered r xs) (hm : ∀ x y, r x y → x ∈ xs)
    (h : TransGen r x y) : xs.idxOf y < xs.idxOf x := by
  induction h
  case single h      => exact o.idxOf_lt (hm _ _ h) h
  case tail h ih     => exact o.idxOf_lt (hm _ _ h) h |>.trans ih

theorem acyclic [DecidableEq α] (o : Ordered r xs) (hm : ∀ x y, r x y → x ∈ xs) : Acyclic r :=
  fun _ h => Nat.lt_irrefl _ <| o.idxOf_lt_of_reaches hm h

theorem filterMap {f : α → Option β} (o : Ordered r xs)
    (h : ∀ x ∈ xs, ∀ b, f x = some b → ∀ c, s b c → ∃ y, r x y ∧ f y = some c) :
    Ordered s (xs.filterMap f) := by
  intro pre b post he c hc
  have ⟨pre', rest, hxs, hp, hr⟩ := List.filterMap_eq_append_iff.mp he
  have ⟨skipped, x, post', hr', hs, hb, _⟩ := List.filterMap_eq_cons_iff.mp hr
  have ⟨y, hy, hf⟩ := h x (by simp [hxs, hr']) b hb c hc
  have hm : y ∈ pre' ++ skipped := o (pre' ++ skipped) x post' (by simp [hxs, hr']) y hy
  have hn : skipped.filterMap f = [] := List.filterMap_eq_nil_iff.mpr hs
  rw [← hp, ← List.append_nil (List.filterMap f pre'), ← hn, ← List.filterMap_append]
  exact List.mem_filterMap.mpr ⟨y, hm, hf⟩

end Ordered

end Lakehouse
