import Lakehouse.Dependency.Distinct
import Mathlib.Data.List.Nodup

namespace Lakehouse

open List

variable {α β γ : Type} [BEq β] [LawfulBEq β] {key : α → β} {xs : List α} {x : α}

omit [LawfulBEq β] in
theorem distinctFrom_sublist (seen : List β) : distinctFrom key seen xs <+ xs := by
  induction xs generalizing seen
  case nil => exact .slnil
  case cons x xs ih =>
    simp only [distinctFrom]
    split
    · exact ih seen |>.cons x
    · exact ih _ |>.cons_cons x

omit [LawfulBEq β] in
theorem distinctBy_sublist : distinctBy key xs <+ xs :=
  distinctFrom_sublist []

theorem distinctFrom_keys (seen : List β) :
    (distinctFrom key seen xs).map key = ((xs.map key).filter (!seen.contains ·)).eraseDups := by
  induction xs generalizing seen
  case nil => simp [distinctFrom]
  case cons x xs ih =>
    simp only [distinctFrom, map_cons]
    split
    case isTrue h => rw [ih, filter_cons_of_neg (by simpa using h)]
    case isFalse h =>
      rw [filter_cons_of_pos (by simpa using h), eraseDups_cons, map_cons, ih, filter_filter]
      congr 3
      funext k
      by_cases hk : k = key x <;> simp [hk]

theorem distinctBy_keys : (distinctBy key xs).map key = (xs.map key).eraseDups := by
  simp [distinctBy, distinctFrom_keys]

theorem notMem_seen {seen : List β} (h : x ∈ distinctFrom key seen xs) : key x ∉ seen := by
  have hm : key x ∈ (distinctFrom key seen xs).map key := mem_map_of_mem h
  rw [distinctFrom_keys, mem_eraseDups, mem_filter] at hm
  simpa using hm.right

-- What is kept comes in the order in which its keys first come.
theorem distinctBy_ordered : (distinctBy key xs).Pairwise fun x y =>
    (xs.map key).idxOf (key x) < (xs.map key).idxOf (key y) := by
  have hs : ∀ seen, (distinctFrom key seen xs).Pairwise fun x y =>
      (xs.map key).idxOf (key x) < (xs.map key).idxOf (key y) := by
    induction xs
    case nil => exact fun _ => .nil
    case cons z xs ih =>
      have hl : ∀ seen, key z ∈ seen → (distinctFrom key seen xs).Pairwise fun x y =>
          ((z :: xs).map key).idxOf (key x) < ((z :: xs).map key).idxOf (key y) := by
        intro seen hz
        refine (ih seen).imp_of_mem fun hx hy hlt => ?_
        have hxz := ne_of_mem_of_not_mem hz (notMem_seen hx)
        have hyz := ne_of_mem_of_not_mem hz (notMem_seen hy)
        simpa [idxOf_cons_ne _ hxz, idxOf_cons_ne _ hyz] using hlt
      intro seen
      simp only [distinctFrom]
      split
      case isTrue hz  => exact hl seen (contains_iff_mem.mp hz)
      case isFalse hz =>
        refine .cons (fun y hy => ?_) (hl _ mem_cons_self)
        have hyz : key z ≠ key y := ne_of_mem_of_not_mem mem_cons_self (notMem_seen hy)
        simp [idxOf_cons_ne _ hyz]
  exact hs []

theorem distinctBy_nodup : ((distinctBy key xs).map key).Nodup := by
  refine pairwise_map.mpr <| distinctBy_ordered.imp fun hlt he => ?_
  rw [he] at hlt
  exact Nat.lt_irrefl _ hlt

theorem exists_mem_distinctBy (h : x ∈ xs) : ∃ y ∈ distinctBy key xs, key y = key x := by
  have hm : key x ∈ (distinctBy key xs).map key := by
    rw [distinctBy_keys, mem_eraseDups]
    exact mem_map_of_mem h
  exact mem_map.mp hm

omit [LawfulBEq β] in
theorem distinctBy_map (f : γ → α) (xs : List γ) :
    distinctBy key (xs.map f) = (distinctBy (key ∘ f) xs).map f := by
  have h : ∀ seen, distinctFrom key seen (xs.map f) = (distinctFrom (key ∘ f) seen xs).map f := by
    induction xs
    case nil => simp [distinctFrom]
    case cons x xs ih =>
      intro seen
      simp only [map_cons, distinctFrom, Function.comp_apply]
      split
      · exact ih seen
      · rw [map_cons, ih]
  exact h []

omit [LawfulBEq β] in
-- What comes after a list does not change what is kept of it.
theorem distinctBy_append_filter {ys : List α} {p : α → Bool} (hx : ∀ x ∈ xs, p x)
    (hy : ∀ y ∈ ys, ¬p y) : (distinctBy key (xs ++ ys)).filter p = distinctBy key xs := by
  have hs : ∀ seen, (distinctFrom key seen (xs ++ ys)).filter p = distinctFrom key seen xs := by
    induction xs
    case nil =>
      exact fun seen => filter_eq_nil_iff.mpr fun y h => hy y <| (distinctFrom_sublist seen).subset h
    case cons x xs ih =>
      have ⟨hp, hx⟩ := forall_mem_cons.mp hx
      intro seen
      simp only [cons_append, distinctFrom]
      split
      · exact ih hx seen
      · rw [filter_cons_of_pos hp, ih hx]
  exact hs []

-- Keys that tell the same elements apart keep the same ones.
theorem distinctBy_congr [BEq γ] [LawfulBEq γ] {key' : α → γ}
    (h : ∀ x ∈ xs, ∀ y ∈ xs, key x = key y ↔ key' x = key' y) :
    distinctBy key xs = distinctBy key' xs := by
  have hs : ∀ seen seen', (∀ x ∈ xs, key x ∈ seen ↔ key' x ∈ seen') →
      distinctFrom key seen xs = distinctFrom key' seen' xs := by
    induction xs
    case nil => simp [distinctFrom]
    case cons x xs ih =>
      intro seen seen' hs
      have hx := hs x mem_cons_self
      have hm : ∀ y ∈ xs, key y ∈ seen ↔ key' y ∈ seen' := fun y hy => hs y (mem_cons_of_mem _ hy)
      replace ih := ih fun y hy z hz => h y (mem_cons_of_mem _ hy) z (mem_cons_of_mem _ hz)
      simp only [distinctFrom, contains_iff_mem, ← hx]
      split
      · exact ih seen seen' hm
      · congr 1
        apply ih
        intro y hy
        simp [hm y hy, h y (mem_cons_of_mem _ hy) x mem_cons_self]
  exact hs [] [] (by simp)

theorem distinctBy_id {xs : List β} : distinctBy id xs = xs.eraseDups := by
  rw [← map_id (distinctBy id xs), distinctBy_keys, map_id]

theorem eraseDups_map_of_injOn [BEq γ] [LawfulBEq γ] {f : β → γ} {xs : List β}
    (h : ∀ x ∈ xs, ∀ y ∈ xs, f x = f y → x = y) : (xs.map f).eraseDups = xs.eraseDups.map f := by
  have hd : distinctBy f xs = distinctBy id xs :=
    distinctBy_congr fun x hx y hy => ⟨h x hx y hy, fun he => congrArg f he⟩
  rw [← distinctBy_id, distinctBy_map, Function.id_comp, hd, distinctBy_id]

-- What is kept is the first one with its key.
theorem find?_of_mem_distinctBy (h : x ∈ distinctBy key xs) :
    xs.find? (key · == key x) = some x := by
  have hs : ∀ seen, x ∈ distinctFrom key seen xs →
      key x ∉ seen ∧ xs.find? (key · == key x) = some x := by
    clear h
    induction xs
    case nil => simp [distinctFrom]
    case cons y xs ih =>
      intro seen h
      simp only [distinctFrom] at h
      split at h
      case isTrue hy =>
        have ⟨hx, hf⟩ := ih seen h
        have hne : key y ≠ key x := fun he => hx <| he ▸ contains_iff_mem.mp hy
        exact ⟨hx, by simp [hne, hf]⟩
      case isFalse hy =>
        cases h
        case head   => exact ⟨by simpa using hy, by simp⟩
        case tail h =>
          have ⟨hx, hf⟩ := ih _ h
          have ⟨hne, hx⟩ := not_or.mp <| mem_cons.not.mp hx
          exact ⟨hx, by simp [Ne.symm hne, hf]⟩
  exact hs [] h |>.right

-- Where keys are distinct, an element stands where its key does.
theorem idxOf_key {i : Nat} (hn : (xs.map key).Nodup) (h : xs[i]? = some x) :
    (xs.map key).idxOf (key x) = i := by
  have hk : (xs.map key)[i]? = some (key x) := by simp [h]
  have ⟨hi, he⟩ := List.getElem?_eq_some_iff.mp hk
  exact he ▸ hn.idxOf_getElem i hi

theorem findIdx?_key_eq_some_iff {i : Nat} {k : β} : xs.findIdx? (key · == k) = some i ↔
    k ∈ xs.map key ∧ (xs.map key).idxOf k = i := by
  have hf : xs.findIdx? (key · == k) = (xs.map key).findIdx? (· == k) := by
    simp [Function.comp_def]
  rw [hf, findIdx?_eq_some_iff_findIdx_eq, ← idxOf.eq_1, ← idxOf_lt_length_iff]
  exact and_congr_left fun h => h ▸ Iff.rfl

theorem find?_key_eq_some_iff {k : β} (hn : (xs.map key).Nodup) :
    xs.find? (key · == k) = some x ↔ x ∈ xs ∧ key x = k := by
  constructor
  case mp => exact fun h => ⟨mem_of_find?_eq_some h, by simpa using find?_some h⟩
  case mpr =>
    intro ⟨hx, hk⟩
    cases h : xs.find? (key · == k)
    case none => exact find?_eq_none.mp h x hx (by simp [hk]) |>.elim
    case some y =>
      have he : key y = key x := by simpa [hk] using find?_some h
      rw [inj_on_of_nodup_map hn (mem_of_find?_eq_some h) hx he]

theorem filter_key_eq_find? {k : β} (hn : (xs.map key).Nodup) :
    xs.filter (key · == k) = (xs.find? (key · == k)).toList := by
  induction xs
  case nil => rfl
  case cons x xs ih =>
    have ⟨hx, hn⟩ := nodup_cons.mp hn
    rw [filter_cons, find?_cons]
    split
    case isFalse hk => simpa [hk] using ih hn
    case isTrue hk =>
      have hf : xs.filter (key · == k) = [] := by
        refine filter_eq_nil_iff.mpr fun y hy he => hx ?_
        have hyx : key y = key x := (beq_iff_eq.mp he).trans (beq_iff_eq.mp hk).symm
        exact hyx ▸ mem_map_of_mem hy
      simp [hk, hf]

-- Where keys are distinct, the order does not matter to what is found by its key.
theorem find?_key_perm {ys : List α} {k : β} (h : xs ~ ys) (hn : (xs.map key).Nodup) :
    xs.find? (key · == k) = ys.find? (key · == k) := by
  ext x
  rw [find?_key_eq_some_iff hn, find?_key_eq_some_iff ((h.map key).nodup_iff.mp hn), h.mem_iff]

-- What it takes for texts to name the elements of a list, when those in `seen` are taken.
theorem named_cons {name : α → String} {seen : List String} :
    ((∀ y ∈ x :: xs, name y ≠ "") ∧ ((x :: xs).map name).Nodup ∧ ∀ y ∈ x :: xs, name y ∉ seen) ↔
      name x ≠ "" ∧ name x ∉ seen ∧ (∀ y ∈ xs, name y ≠ "") ∧ (xs.map name).Nodup ∧
        ∀ y ∈ xs, name y ∉ name x :: seen := by
  have hc : ∀ y, name y ∉ name x :: seen ↔ name y ≠ name x ∧ name y ∉ seen := by simp
  have hd : name x ∉ xs.map name ↔ ∀ y ∈ xs, name y ≠ name x := by simp
  simp only [map_cons, nodup_cons, forall_mem_cons, hc, hd, forall_and]
  constructor
  · rintro ⟨⟨hx, hxs⟩, ⟨hne, hn⟩, hsx, hs⟩
    exact ⟨hx, hsx, hxs, hn, hne, hs⟩
  · rintro ⟨hx, hsx, hxs, hn, hne, hs⟩
    exact ⟨⟨hx, hxs⟩, ⟨hne, hn⟩, hsx, hs⟩

-- The part of a list that is told by its keys.
theorem filter_key_eq {α β : Type} [DecidableEq β] {key : α → β} {xs ys : List α} (hs : xs <+ ys)
    (hn : (ys.map key).Nodup) : ys.filter (key · ∈ xs.map key) = xs := by
  induction hs
  case slnil => rfl
  case cons y hs ih =>
    have ⟨hy, hn⟩ := nodup_cons.mp hn
    have hx : key y ∉ map key _ := fun h => hy <| (hs.map key).subset h
    rw [filter_cons_of_neg (by simpa using hx), ih hn]
  case cons_cons xs ys y hs ih =>
    have ⟨hy, hn⟩ := nodup_cons.mp hn
    rw [filter_cons_of_pos (by simp)]
    congr 1
    refine (filter_congr fun z hz => ?_).trans (ih hn)
    have hne : key z ≠ key y := fun he => hy <| he ▸ mem_map_of_mem hz
    simp [hne]

theorem filter_flatMap_of {α β : Type} {f : α → List β} {p : β → Bool} {q : α → Bool} {xs : List α}
    (h : ∀ x ∈ xs, ∀ y ∈ f x, p y = q x) : (xs.flatMap f).filter p = (xs.filter q).flatMap f := by
  induction xs
  case nil => rfl
  case cons x xs ih =>
    have ⟨hx, hs⟩ := forall_mem_cons.mp h
    rw [flatMap_cons, filter_append, ih hs, filter_cons]
    split
    case isTrue hq  => rw [flatMap_cons, filter_eq_self.mpr fun y hy => hx y hy ▸ hq]
    case isFalse hq => rw [filter_eq_nil_iff.mpr fun y hy => hx y hy ▸ hq, nil_append]

-- Lists are the same if what stands at one place in both of them is told apart.
theorem eq_of_map_eq_zip {α β : Type} {f : α → β} {xs ys : List α}
    (hi : ∀ pair ∈ xs.zip ys, f pair.1 = f pair.2 → pair.1 = pair.2) (h : xs.map f = ys.map f) :
    xs = ys := by
  induction xs generalizing ys
  case nil => exact map_eq_nil_iff.mp h.symm |>.symm
  case cons x xs ih =>
    cases ys
    case nil => contradiction
    case cons y ys =>
      have ⟨hk, ht⟩ := cons.inj h
      have hx : x = y := hi (x, y) mem_cons_self hk
      rw [hx, ih (fun pair hp => hi pair <| mem_cons_of_mem _ hp) ht]

theorem eq_of_map_eq {α β : Type} {f : α → β} {xs ys : List α}
    (hi : ∀ x ∈ xs, ∀ y ∈ ys, f x = f y → x = y) (h : xs.map f = ys.map f) : xs = ys :=
  eq_of_map_eq_zip (fun (_, _) hp => hi _ (of_mem_zip hp).left _ (of_mem_zip hp).right) h

end Lakehouse
