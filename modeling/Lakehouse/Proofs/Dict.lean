import Lakehouse.Dict
import Mathlib.Data.List.Dedup

namespace Lakehouse.Dict

open List

variable {α β : Type} {t entries : Dict α} {key k : String} {v w : α} {e : String × α}

@[simp]
theorem get?_nil : get? ([] : Dict α) k = none :=
  rfl

theorem get?_cons : get? (e :: t) k = if k = e.1 then some e.2 else get? t k := by
  obtain ⟨key, v⟩ := e
  by_cases h : k = key
  case pos => simp [get?, h]
  case neg =>
    have hb : (k == key) = false := by simpa using h
    simp [get?, lookup_cons, hb, h]

theorem get?_append : get? (t ++ entries) k = (get? t k).or (get? entries k) := by
  induction t
  case nil => rfl
  case cons e t ih =>
    rw [cons_append, get?_cons, get?_cons, ih]
    split <;> rfl

theorem get?_mapValues {f : α → β} : get? (mapValues f t) k = (get? t k).map f := by
  induction t
  case nil => rfl
  case cons e t ih =>
    have hm : mapValues f (e :: t) = (e.1, f e.2) :: mapValues f t := rfl
    rw [hm, get?_cons, get?_cons, ih]
    split <;> rfl

theorem keys_mapValues {f : α → β} : keys (mapValues f t) = keys t := by
  simp [keys, mapValues, Function.comp_def]

-- What is filtered out under other keys does not matter.
theorem get?_filter {p : String × α → Bool} (h : ∀ v, p (k, v)) :
    get? (t.filter p) k = get? t k := by
  induction t
  case nil => rfl
  case cons e t ih =>
    rw [filter_cons]
    split
    case isTrue => rw [get?_cons, get?_cons, ih]
    case isFalse hp =>
      have hk : k ≠ e.1 := by
        rintro rfl
        exact hp (h e.2)
      rw [get?_cons, if_neg hk, ih]

theorem get?_eq_some_iff (h : (keys t).Nodup) : get? t k = some v ↔ (k, v) ∈ t := by
  induction t
  case nil => simp
  case cons e t ih =>
    have ⟨he, ht⟩ := nodup_cons.mp h
    rw [get?_cons, mem_cons]
    by_cases hk : k = e.1
    case pos =>
      have hm : (e.1, v) ∉ t := fun hm => he <| mem_map.mpr ⟨_, hm, rfl⟩
      simp [hk, Prod.ext_iff, hm, eq_comm]
    case neg => simp [hk, Prod.ext_iff, ih ht]

theorem get?_eq_none (h : k ∉ keys t) : get? t k = none := by
  simp only [get?, lookup_eq_none_iff]
  intro e he
  have hne : k ≠ e.1 := fun hk => h (hk ▸ mem_map_of_mem he)
  simpa using hne

theorem get?_insert : get? (insert t key v) k = if k = key then some v else get? t k := by
  induction t
  case nil => rw [insert, get?_cons]
  case cons e t ih =>
    simp only [insert, beq_iff_eq]
    by_cases h : e.1 = key
    case pos =>
      simp only [h, if_true, get?_cons]
      split <;> rfl
    case neg =>
      simp only [h, if_false, get?_cons, ih]
      by_cases hk : k = e.1 <;> simp [hk, h]

theorem mem_keys_insert : k ∈ keys (insert t key v) ↔ k = key ∨ k ∈ keys t := by
  induction t
  case nil => simp [insert, keys]
  case cons e t ih =>
    simp only [keys] at ih
    by_cases h : e.1 = key
    case pos => simp [insert, keys, h]
    case neg => simp [insert, keys, h, ih, or_left_comm]

theorem nodup_insert (h : (keys t).Nodup) : (keys (insert t key v)).Nodup := by
  induction t
  case nil => simp [insert, keys]
  case cons e t ih =>
    have ⟨he, ht⟩ := nodup_cons.mp h
    by_cases hk : e.1 = key
    case pos => simpa [insert, hk, keys] using h
    case neg =>
      have hc : keys (insert (e :: t) key v) = e.1 :: keys (insert t key v) := by
        simp [insert, hk, keys]
      rw [hc]
      refine nodup_cons.mpr ⟨?_, ih ht⟩
      rw [mem_keys_insert]
      exact not_or.mpr ⟨hk, he⟩

theorem mem_insert (h : (keys t).Nodup) :
    e ∈ insert t key v ↔ e = (key, v) ∨ e ∈ t ∧ e.1 ≠ key := by
  induction t
  case nil => simp [insert]
  case cons d t ih =>
    have ⟨hd, ht⟩ := nodup_cons.mp h
    have hm : ∀ e ∈ t, e.1 ≠ d.1 := fun e he hk => hd <| mem_map.mpr ⟨e, he, hk⟩
    by_cases hk : d.1 = key
    case pos =>
      simp only [insert, beq_iff_eq, hk, if_true, mem_cons, or_and_right]
      constructor
      case mp  => exact fun he => he.imp id fun he => .inr ⟨he, hk ▸ hm e he⟩
      case mpr =>
        intro he
        cases he
        case inl he => exact .inl he
        case inr he =>
          cases he
          case inl he => exact he.right (he.left ▸ hk) |>.elim
          case inr he => exact .inr he.left
    case neg =>
      simp only [insert, beq_iff_eq, hk, if_false, mem_cons, ih ht]
      constructor
      case mp =>
        intro he
        cases he
        case inl he => exact .inr ⟨.inl he, he ▸ hk⟩
        case inr he => exact he.imp id fun he => ⟨.inr he.left, he.right⟩
      case mpr =>
        intro he
        cases he
        case inl he => exact .inr <| .inl he
        case inr he => exact he.left.imp id fun ht => .inr ⟨ht, he.right⟩

theorem mem_insert_self : (key, v) ∈ insert t key v := by
  induction t
  case nil => exact mem_cons_self
  case cons e t ih =>
    rw [insert]
    split
    case isTrue h => exact eq_of_beq h ▸ mem_cons_self
    case isFalse  => exact mem_cons_of_mem _ ih

theorem mem_insert_of_ne (h : e ∈ t) (hk : e.1 ≠ key) : e ∈ insert t key v := by
  induction t
  case nil => contradiction
  case cons d t ih =>
    simp only [insert, beq_iff_eq]
    split
    case isTrue hd =>
      cases h
      case head   => exact absurd hd hk
      case tail h => exact mem_cons_of_mem _ h
    case isFalse =>
      cases h
      case head   => exact mem_cons_self
      case tail h => exact mem_cons_of_mem _ (ih h)

theorem eq_or_mem_of_mem_insert (h : e ∈ insert t key v) : e = (key, v) ∨ e ∈ t := by
  induction t
  case nil => exact .inl <| mem_singleton.mp h
  case cons d t ih =>
    simp only [insert, beq_iff_eq] at h
    split at h
    case isTrue hk =>
      cases h
      case head   => exact .inl <| by rw [hk]
      case tail h => exact .inr <| mem_cons_of_mem _ h
    case isFalse =>
      cases h
      case head   => exact .inr mem_cons_self
      case tail h => exact (ih h).imp id <| mem_cons_of_mem _

theorem mem_insert_iff_of_ne (hk : e.1 ≠ key) : e ∈ insert t key v ↔ e ∈ t :=
  ⟨fun h => (eq_or_mem_of_mem_insert h).resolve_left fun he => hk <| he ▸ rfl,
    fun h => mem_insert_of_ne h hk⟩

theorem nodup_insertAll (h : (keys t).Nodup) : (keys (insertAll t entries)).Nodup := by
  induction entries generalizing t
  case nil => exact h
  case cons e entries ih => exact ih <| nodup_insert h

theorem nodup_ofEntries : (keys (ofEntries entries)).Nodup :=
  nodup_insertAll nodup_nil

-- Those of some entries that count: each is the last one under its key.
def last : Dict α → Dict α
  | [] => []
  | (k, v) :: rest => if (keys rest).contains k then last rest else (k, v) :: last rest

theorem mem_last_cons :
    e ∈ last ((k, v) :: entries) ↔ e = (k, v) ∧ k ∉ keys entries ∨ e ∈ last entries := by
  by_cases h : k ∈ keys entries <;> simp [last, h]

theorem last_sublist : last entries <+ entries := by
  induction entries
  case nil => exact .slnil
  case cons e entries ih =>
    simp only [last]
    split
    case isTrue  => exact ih.cons _
    case isFalse => exact ih.cons_cons _

theorem mem_last_of_notMem (h : key ∉ keys entries) : (key, v) ∈ last (t ++ (key, v) :: entries) := by
  induction t
  case nil         => exact mem_last_cons.mpr <| .inl ⟨rfl, h⟩
  case cons e t ih => exact mem_last_cons.mpr <| .inr ih

theorem mem_insertAll (h : (keys t).Nodup) :
    e ∈ insertAll t entries ↔ e ∈ last entries ∨ e ∈ t ∧ e.1 ∉ keys entries := by
  induction entries generalizing t
  case nil => simp [insertAll, last, keys]
  case cons d entries ih =>
    have hi : insertAll t (d :: entries) = insertAll (insert t d.1 d.2) entries := rfl
    have hk : e.1 ∉ keys (d :: entries) ↔ e.1 ≠ d.1 ∧ e.1 ∉ keys entries := by simp [keys]
    have he : e = d ∧ e.1 ∉ keys entries ↔ e = d ∧ d.1 ∉ keys entries :=
      and_congr_right fun he => he ▸ Iff.rfl
    rw [hi, ih (nodup_insert h), mem_insert h, mem_last_cons, hk, or_and_right, he, and_assoc,
      or_left_comm, or_assoc]

theorem mem_ofEntries : e ∈ ofEntries entries ↔ e ∈ last entries := by
  simp [ofEntries, mem_insertAll (t := []) nodup_nil]

theorem ofEntries_subset : ofEntries entries ⊆ entries :=
  fun _ h => last_sublist.subset <| mem_ofEntries.mp h

theorem get?_insertAll : get? (insertAll t entries) k = (get? (ofEntries entries) k).or (get? t k) := by
  induction entries generalizing t
  case nil => rfl
  case cons e entries ih =>
    have hi : ∀ t : Dict α, insertAll t (e :: entries) = insertAll (insert t e.1 e.2) entries :=
      fun _ => rfl
    rw [ofEntries, hi, hi, ih, ih, get?_insert, get?_insert, Option.or_assoc]
    congr 1
    split <;> simp

theorem insert_eq_append (h : key ∉ keys t) : insert t key v = t ++ [(key, v)] := by
  induction t
  case nil => rfl
  case cons e t ih =>
    have ⟨he, ht⟩ : e.1 ≠ key ∧ key ∉ keys t := by simpa [keys, eq_comm] using h
    simp [insert, he, ih ht]

theorem insertAll_eq_append (h : (keys (t ++ entries)).Nodup) :
    insertAll t entries = t ++ entries := by
  induction entries generalizing t
  case nil => simp [insertAll]
  case cons e entries ih =>
    have hk : e.1 ∉ keys t := by
      rw [keys, map_append, map_cons, nodup_append] at h
      exact fun hm => h.right.right _ hm _ mem_cons_self rfl
    have hi : insertAll t (e :: entries) = insertAll (insert t e.1 e.2) entries := rfl
    rw [hi, insert_eq_append hk, ih (by simpa using h), append_assoc]
    rfl

theorem ofEntries_eq_self (h : (keys entries).Nodup) : ofEntries entries = entries :=
  insertAll_eq_append (t := []) h

theorem mem_keys_insertAll : k ∈ keys (insertAll t entries) ↔ k ∈ keys t ∨ k ∈ keys entries := by
  induction entries generalizing t
  case nil => simp [insertAll, keys]
  case cons e entries ih =>
    have hi : insertAll t (e :: entries) = insertAll (insert t e.1 e.2) entries := rfl
    have hk : k ∈ keys (e :: entries) ↔ k = e.1 ∨ k ∈ keys entries := by simp [keys]
    rw [hi, ih, mem_keys_insert, hk, or_left_comm, or_assoc]

theorem mem_keys_ofEntries : k ∈ keys (ofEntries entries) ↔ k ∈ keys entries :=
  mem_keys_insertAll.trans <| by simp [keys]

-- There are as many entries as there are keys.
theorem length_ofEntries : (ofEntries entries).length = (keys entries).dedup.length := by
  have hp : keys (ofEntries entries) ~ (keys entries).dedup := by
    refine (perm_ext_iff_of_nodup nodup_ofEntries (nodup_dedup _)).mpr fun k => ?_
    rw [mem_keys_ofEntries, mem_dedup]
  rw [← hp.length_eq, keys, length_map]

theorem length_ofEntries_lt (h : ¬(keys entries).Nodup) :
    (ofEntries entries).length < entries.length := by
  have hs : (keys entries).dedup <+ keys entries := dedup_sublist _
  have hl : entries.length = (keys entries).length := by rw [keys, length_map]
  rw [length_ofEntries, hl]
  refine Nat.lt_of_le_of_ne hs.length_le fun he => h ?_
  exact dedup_eq_self.mp <| hs.eq_of_length he

theorem eraseAll_append {names : List String} :
    eraseAll (t ++ entries) names = eraseAll t names ++ eraseAll entries names :=
  filter_append ..

theorem eraseAll_eq_self {names : List String} (h : ∀ key ∈ keys t, key ∉ names) :
    eraseAll t names = t :=
  filter_eq_self.mpr fun e he => by simpa using h e.1 (mem_map_of_mem he)

theorem eraseAll_eq_nil {names : List String} (h : keys t ⊆ names) : eraseAll t names = [] :=
  filter_eq_nil_iff.mpr fun e he => by simpa using h (mem_map_of_mem he)

end Lakehouse.Dict
