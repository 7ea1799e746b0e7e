import Lakehouse.Dependency.Order
import Mathlib.Data.List.Count
import Mathlib.Data.List.Range
/-!
The counts by which indices are placed. They always say how many dependencies of an index are not
placed, each as often as it is stated, and those are ready which are not placed and wait for nothing.
Meeting one dependency keeps this up, and so does the placing of an index.
-/
namespace Lakehouse.Order

open List

variable {n i j k : Nat} {pairs : List Pair} {done ks : List Nat} {due : Nat → Nat} {p : Progress}

def Follows (pairs : List Pair) (i j : Nat) : Prop :=
  (i, j) ∈ pairs

theorem mem_dependencies : j ∈ dependencies pairs i ↔ Follows pairs i j := by
  simp only [dependencies, Follows, mem_filterMap]
  constructor
  case mp =>
    intro ⟨⟨after, before⟩, hm, h⟩
    by_cases he : after = i <;> simp_all
  case mpr => exact fun h => ⟨_, h, by simp⟩

theorem count_dependents : (dependents pairs j).count i = (dependencies pairs i).count j := by
  induction pairs
  case nil => rfl
  case cons pair pairs ih =>
    simp only [dependents, dependencies, filterMap_cons, beq_iff_eq] at ih ⊢
    by_cases hj : pair.2 = j <;> by_cases hi : pair.1 = i <;> simp [hi, hj, ih]

theorem mem_dependents : i ∈ dependents pairs j ↔ Follows pairs i j := by
  rw [← mem_dependencies, ← count_pos_iff, count_dependents, count_pos_iff]

-- The dependencies of an index that are not placed.
def unmet (pairs : List Pair) (done : List Nat) (i : Nat) : List Nat :=
  (dependencies pairs i).filter (· ∉ done)

theorem mem_unmet : j ∈ unmet pairs done i ↔ Follows pairs i j ∧ j ∉ done := by
  simp [unmet, mem_dependencies]

theorem unmet_eq_nil : unmet pairs done i = [] ↔ ∀ j, Follows pairs i j → j ∈ done := by
  simp only [eq_nil_iff_forall_not_mem, mem_unmet, not_and, not_not]

-- Once an index is placed, what depends on it waits for it no longer.
theorem length_unmet_cons (hi : i ∉ done) :
    (unmet pairs (i :: done) k).length + (dependents pairs i).count k =
      (unmet pairs done k).length := by
  rw [count_dependents, unmet, unmet, ← countP_eq_length_filter, ← countP_eq_length_filter, count]
  induction dependencies pairs k
  case nil => rfl
  case cons j js ih =>
    simp only [countP_cons, ← ih]
    by_cases hj : j = i
    case pos => simp [hj, hi, Nat.add_assoc]
    case neg => simp [hj, Nat.add_right_comm]

-- What is placed follows nothing else than what is placed.
def Settled (pairs : List Pair) (done : List Nat) : Prop :=
  ∀ i ∈ done, ∀ j, Follows pairs i j → j ∈ done

theorem Settled.cons (h : Settled pairs done) (hi : ∀ j, Follows pairs i j → j ∈ done) :
    Settled pairs (i :: done) :=
  forall_mem_cons.mpr ⟨fun j hj => mem_cons_of_mem _ (hi j hj),
    fun k hk j hj => mem_cons_of_mem _ (h k hk j hj)⟩

namespace Progress

theorem mem_insert {ready : List Nat} : j ∈ insert i ready ↔ j = i ∨ j ∈ ready := by
  induction ready
  case nil => simp [insert]
  case cons k ready ih =>
    simp only [insert]
    split
    case isTrue => simp
    case isFalse =>
      split
      case isTrue he => simp [he]
      case isFalse => simp [ih, or_left_comm]

theorem insert_ascending {ready : List Nat} (h : ready.Pairwise (· < ·)) :
    (insert i ready).Pairwise (· < ·) := by
  induction ready
  case nil => simp [insert]
  case cons k ready ih =>
    have ⟨hk, hr⟩ := pairwise_cons.mp h
    simp only [insert]
    split
    case isTrue hlt =>
      refine pairwise_cons.mpr ⟨forall_mem_cons.mpr ⟨hlt, fun j hj => ?_⟩, h⟩
      exact hlt.trans (hk j hj)
    case isFalse hge =>
      split
      case isTrue => exact h
      case isFalse hne =>
        refine pairwise_cons.mpr ⟨fun j hj => ?_, ih hr⟩
        obtain hj | hj := mem_insert.mp hj
        · omega
        · exact hk j hj

theorem modify_counts {f : Nat → Nat} : ((range n).map due).modify k f =
    (range n).map fun i => if k = i then f (due i) else due i := by
  apply ext_getElem?
  intro i
  rw [getElem?_modify]
  by_cases hi : i < n
  case pos => by_cases hk : k = i <;> simp [getElem?_range hi, hk]
  case neg => simp [Nat.le_of_not_lt hi]

-- What is due for an index once the first of several is met, against the rest of them.
theorem count_le_met (h : (k :: ks).count i ≤ due i) :
    ks.count i ≤ if k = i then due i - 1 else due i := by
  rw [count_cons] at h
  by_cases hk : k = i
  case pos =>
    rw [if_pos hk]
    simp only [hk, beq_self_eq_true, if_true] at h
    omega
  case neg => simpa [hk] using h

theorem met_sub_count : (if k = i then due i - 1 else due i) - ks.count i =
    due i - (k :: ks).count i := by
  rw [count_cons]
  by_cases hk : k = i
  case pos =>
    simp only [hk, beq_self_eq_true, if_true]
    omega
  case neg => simp [hk]

-- Dependencies are met one after the other, each by an index that waits for one.
inductive Meets : Progress → List Nat → Progress → Prop
  | nil {p : Progress} : Meets p [] p
  | cons {p q : Progress} {k d : Nat} {ks : List Nat} (waits : p.counts[k]? = some (d + 1)) :
      Meets (p.meet k) ks q → Meets p (k :: ks) q

-- Each index counts what is due for it, and those are ready for which nothing is due any more.
structure Accounts (p : Progress) (n : Nat) (done : List Nat) (due : Nat → Nat) : Prop where
  counts    : p.counts = (range n).map due
  ascending : p.ready.Pairwise (· < ·)
  mem_ready : ∀ i, i ∈ p.ready ↔ i < n ∧ i ∉ done ∧ due i = 0

namespace Accounts

theorem count_eq (a : p.Accounts n done due) (hi : i < n) : p.counts[i]? = some (due i) := by
  simp [a.counts, getElem?_range hi]

-- Meeting a dependency takes one from what is due for an index that waits.
theorem meet (a : p.Accounts n done due) (hk : k < n → k ∉ done ∧ 0 < due k) :
    (p.meet k).Accounts n done fun i => if k = i then due i - 1 else due i := by
  have hc : p.counts.modify k (· - 1) = (range n).map fun i => if k = i then due i - 1 else due i :=
    a.counts ▸ modify_counts
  have hz : (p.counts.modify k (· - 1))[k]? == some 0 ↔ k < n ∧ due k - 1 = 0 := by
    rw [hc]
    by_cases hk : k < n <;> simp [hk]
  constructor
  case counts => exact hc
  case ascending =>
    simp only [Progress.meet]
    split
    case isTrue  => exact insert_ascending a.ascending
    case isFalse => exact a.ascending
  case mem_ready =>
    intro i
    have hp : k < n → 0 < due k := fun hn => hk hn |>.right
    simp only [Progress.meet, hz]
    split
    case isTrue h =>
      rw [mem_insert, a.mem_ready]
      by_cases hi : k = i
      case pos => simpa [← hi, h] using hk h.left |>.left
      case neg => simp [hi, Ne.symm hi]
    case isFalse h =>
      rw [a.mem_ready]
      by_cases hi : k = i
      case pos =>
        simp only [← hi, if_true]
        omega
      case neg => simp [hi]

-- Meeting several of them takes as many as there are.
theorem foldl_meet (a : p.Accounts n done due) (hk : ∀ k ∈ ks, k < n → k ∉ done)
    (hd : ∀ k < n, ks.count k ≤ due k) :
    ((ks.foldl Progress.meet p).Accounts n done fun i => due i - ks.count i) ∧
      ((∀ k ∈ ks, k < n) → Meets p ks (ks.foldl Progress.meet p)) := by
  induction ks generalizing p due
  case nil => exact ⟨by simpa using a, fun _ => .nil⟩
  case cons k ks ih =>
    have ⟨hn, hk⟩ := forall_mem_cons.mp hk
    have hp : k < n → 0 < due k := fun h => count_pos_iff.mpr mem_cons_self |>.trans_le <| hd k h
    have ⟨ha, hm⟩ := ih (a.meet fun h => ⟨hn h, hp h⟩) hk fun i hi => count_le_met (hd i hi)
    simp only [met_sub_count] at ha
    refine ⟨ha, fun h => ?_⟩
    have ⟨hlt, h⟩ := forall_mem_cons.mp h
    refine .cons (d := due k - 1) ?_ (hm h)
    rw [a.count_eq hlt, Nat.sub_add_cancel (hp hlt)]

-- Placing an index that is ready meets the dependencies that others have on it.
theorem next {rest : List Nat} (hs : Settled pairs done)
    (a : p.Accounts n done fun k => (unmet pairs done k).length) (hr : p.ready = i :: rest) :
    (((dependents pairs i).foldl Progress.meet { p with ready := rest }).Accounts n (i :: done)
        fun k => (unmet pairs (i :: done) k).length) ∧
      ((∀ k ∈ dependents pairs i, k < n) → Meets { p with ready := rest } (dependents pairs i)
        ((dependents pairs i).foldl Progress.meet { p with ready := rest })) := by
  have ⟨hi, hd, hz⟩ := a.mem_ready i |>.mp (hr ▸ mem_cons_self)
  have hf := unmet_eq_nil.mp <| length_eq_zero_iff.mp hz
  have ⟨hlt, ha⟩ := pairwise_cons.mp (hr ▸ a.ascending)
  have ar : Progress.Accounts { p with ready := rest } n (i :: done)
      fun k => (unmet pairs done k).length := {
    counts    := a.counts
    ascending := ha
    mem_ready := by
      intro k
      have hm := a.mem_ready k
      rw [hr, mem_cons] at hm
      by_cases hk : k = i
      case pos => simpa [hk] using fun h => Nat.lt_irrefl _ (hlt i h)
      case neg => simpa [hk] using hm
  }
  have hl : ∀ k, (unmet pairs (i :: done) k).length =
      (unmet pairs done k).length - (dependents pairs i).count k :=
    fun k => Nat.eq_sub_of_add_eq (length_unmet_cons hd)
  simp only [hl]
  refine ar.foldl_meet (fun k hk _ => ?_) fun k _ => ?_
  · have hk := mem_dependents.mp hk
    have hn : k ∉ done := fun hm => hd (hs k hm i hk)
    exact not_mem_cons_of_ne_of_not_mem (fun he => hd (hf i (he ▸ hk))) hn
  · exact length_unmet_cons hd ▸ Nat.le_add_left ..

end Accounts

-- Counting the pairs one by one counts the dependencies of each index.
theorem foldl_modify : pairs.foldl (fun counts pair => counts.modify pair.1 (· + 1))
    ((range n).map due) = (range n).map fun i => due i + (dependencies pairs i).length := by
  induction pairs generalizing due
  case nil => simp [dependencies]
  case cons pair pairs ih =>
    rw [foldl_cons, modify_counts, ih]
    refine map_congr_left fun i _ => ?_
    by_cases hi : pair.1 = i
    case pos =>
      simp only [dependencies, filterMap_cons, hi, beq_self_eq_true, if_true, length_cons]
      omega
    case neg => simp only [dependencies, filterMap_cons, hi, beq_iff_eq, if_false]

theorem initial_accounts : (initial n pairs).Accounts n [] fun i => (unmet pairs [] i).length := by
  have hu : ∀ i, unmet pairs [] i = dependencies pairs i := fun i => by simp [unmet]
  have hc : (initial n pairs).counts = (range n).map fun i => (dependencies pairs i).length := by
    have hz : replicate n 0 = (range n).map fun _ => 0 := by simp
    simp only [initial, hz, foldl_modify, Nat.zero_add]
  simp only [hu]
  constructor
  case counts => exact hc
  case ascending => exact pairwise_lt_range.filter _
  case mem_ready =>
    intro i
    have hr : (initial n pairs).ready =
        (range n).filter fun i => (initial n pairs).counts[i]? == some 0 := rfl
    rw [hr, hc, mem_filter, mem_range]
    refine and_congr_right fun hi => ?_
    simp [hi]

end Progress

end Lakehouse.Order
