import Lakehouse.Input
import Lakehouse.Proofs.Attempt
import Lakehouse.Proofs.Dict
import Mathlib.Data.List.Forall2
import Mathlib.Data.Set.List

namespace Lakehouse

open List Attempt

section Lists

variable {α β : Type} {f : α → Option β} {xs : List α} {ys : List β}

theorem mapM_some_iff : xs.mapM f = some ys ↔ Forall₂ (fun x y => f x = some y) xs ys := by
  induction xs generalizing ys
  case nil => cases ys <;> simp
  case cons x xs ih =>
    cases ys <;> simp only [mapM_cons, Option.bind_eq_bind, Option.bind_eq_some_iff, Option.pure_def,
      forall₂_cons]
    case nil       => simp
    case cons y ys => simp [← ih]

theorem mapM_some_map {g : α → β} (h : ∀ x ∈ xs, f x = some (g x)) : xs.mapM f = some (xs.map g) :=
  mapM_some_iff.mpr <| forall₂_map_right_iff.mpr <| forall₂_same.mpr h

theorem mapM_some_self {f : α → Option α} (h : ∀ x ∈ xs, f x = some x) : xs.mapM f = some xs :=
  mapM_some_iff.mpr <| forall₂_same.mpr h

theorem mapM_map_some {g : β → α} (h : ∀ y ∈ ys, f (g y) = some y) : (ys.map g).mapM f = some ys := by
  rw [mapM_some_iff, forall₂_map_left_iff]
  exact forall₂_same.mpr h

end Lists

namespace Dict

variable {α : Type} {t : Dict α} {name : String}

-- What is under one of distinct keys is there once.
theorem single?_eq (h : (keys t).Nodup) :
    Input.single? (t.filterMap fun e => if e.1 == name then some e.2 else none) =
      some (get? t name) := by
  induction t
  case nil => rfl
  case cons e t ih =>
    obtain ⟨k, v⟩ := e
    have ⟨he, ht⟩ := nodup_cons.mp h
    rw [filterMap_cons, get?_cons]
    by_cases hn : k = name
    case neg => simpa only [beq_iff_eq, hn, Ne.symm hn, if_false] using ih ht
    case pos =>
      have hr : ∀ d ∈ t, d.1 ≠ name := by
        rintro d hd rfl
        exact he <| mem_map.mpr ⟨d, hd, hn.symm⟩
      have hnil : t.filterMap (fun e => if e.1 == name then some e.2 else none) = [] :=
        filterMap_eq_nil_iff.mpr fun d hd => by simp [hr d hd]
      simp only [hnil]
      simp [hn, Input.single?]

end Dict

namespace Input

variable {v : Value} {names : List String} {t : Properties}

theorem ofValues_eq (vs : List Value) : ofValues vs = vs.map ofValue := by
  induction vs
  case nil          => rfl
  case cons v vs ih => rw [ofValues, ih, map_cons]

theorem ofFields_eq (fs : List (String × Value)) :
    ofFields fs = fs.map fun e => (.atom (.text e.1), ofValue e.2) := by
  induction fs
  case nil          => rfl
  case cons e fs ih => rw [ofFields, ih, map_cons]

mutual

-- Every scalar of a value has its type.
theorem typed?_ofValue (v : Value) : typed? (ofValue v) = some (ofValue v) := by
  cases v <;> simp only [ofValue, typed?]
  case array items   => rw [typedItems?_ofValues items]; rfl
  case object fields => rw [typedEntries?_ofFields fields]; rfl
termination_by structural v

theorem typedItems?_ofValues (vs : List Value) : typedItems? (ofValues vs) = some (ofValues vs) := by
  match vs with
  | []      => rfl
  | v :: vs => simp [ofValues, typedItems?, typed?_ofValue v, typedItems?_ofValues vs]
termination_by structural vs

theorem typedEntries?_ofFields (fs : List (String × Value)) :
    typedEntries? (ofFields fs) = some (ofFields fs) := by
  match fs with
  | []             => rfl
  | (key, v) :: fs =>
    simp [ofFields, typedEntries?, typed?, typed?_ofValue v, typedEntries?_ofFields fs]
termination_by structural fs

end

theorem list?_ofValue {items : List Input} :
    (ofValue v).list? = some items ↔ ∃ vs, v = .array vs ∧ vs.map ofValue = items := by
  cases v <;> simp [ofValue, list?, ofValues_eq]

theorem mapM_ofFields {β : Type} {f : Input × Input → Option β} {g : String × Value → β}
    {fs : Properties} (h : ∀ e : String × Value, f (.atom (.text e.1), ofValue e.2) = some (g e)) :
    (ofFields fs).mapM f = some (fs.map g) := by
  rw [ofFields_eq, mapM_map]
  exact mapM_some_map fun e _ => h e

theorem dict?_object (fs : Properties) :
    (ofValue (.object fs)).dict? = some (Dict.mapValues ofValue fs) :=
  mapM_ofFields fun _ => rfl

theorem dict?_ofValue {entries : Dict Input} :
    (ofValue v).dict? = some entries ↔ ∃ fs, v = .object fs ∧ Dict.mapValues ofValue fs = entries := by
  cases v
  case object fs => simp [dict?_object]
  all_goals simp [ofValue, dict?, entries?]

-- What a record holds, where it is made of values.
def slots (values : List (Option Value)) : List (Option Input) :=
  values.map (·.map ofValue)

theorem idxOf?_nodup {names : List String} {key : String} {i : Nat} (hn : names.Nodup) :
    names.idxOf? key = some i ↔ names[i]? = some key := by
  rw [idxOf?_eq_some_iff, List.getElem?_eq_some_iff]
  constructor
  case mp  => exact fun ⟨hi, he, _⟩ => ⟨hi, he⟩
  case mpr =>
    intro ⟨hi, he⟩
    refine ⟨hi, he, fun j hj hk => ?_⟩
    have := hn.getElem_inj_iff.mp (hk.trans he.symm)
    omega

theorem record?_map (entries : List (Input × Input)) : record? names (.map entries) =
    (entries.mapM fun e : Input × Input => (e.1.field? names).map (·, e.2)).bind fun fields =>
      (range names.length).mapM fun i =>
        single? (fields.filterMap fun e => if e.1 == some i then some e.2 else none) := by
  have hf (e : Input × Input) :
      (e.1.field? names).map (·, e.2) = (e.1.field? names).bind fun field => some (field, e.2) :=
    Option.map_eq_bind
  simp only [hf]
  rfl

theorem record?_object (hn : names.Nodup) (ht : (Dict.keys t).Nodup) :
    record? names (ofValue (.object t)) = some (slots (names.map (Dict.get? t))) := by
  have he : (ofFields t).mapM (fun e => (e.1.field? names).map (·, e.2)) =
      some (t.map fun e => (names.idxOf? e.1, ofValue e.2)) := mapM_ofFields fun _ => rfl
  have hk : (Dict.keys (Dict.mapValues ofValue t)).Nodup := by rwa [Dict.keys_mapValues]
  rw [ofValue, record?_map, he, Option.bind_some, mapM_some_iff, slots, map_map,
    forall₂_map_right_iff, forall₂_iff_get]
  refine ⟨by simp, fun i hi hi' => ?_⟩
  have hf : (t.map fun e => (names.idxOf? e.1, ofValue e.2)).filterMap
        (fun e => if e.1 == some i then some e.2 else none) =
      (Dict.mapValues ofValue t).filterMap fun e => if e.1 == names[i] then some e.2 else none := by
    rw [Dict.mapValues, filterMap_map, filterMap_map]
    refine filterMap_congr fun e _ => ?_
    have hd : names.idxOf? e.1 = some i ↔ e.1 = names[i] := by
      rw [idxOf?_nodup hn, getElem?_eq_getElem hi', Option.some_inj, eq_comm]
    simp [hd]
  have hi : (range names.length).get ⟨i, hi⟩ = i := by simp
  rw [hi, hf, Dict.single?_eq hk, Dict.get?_mapValues]
  rfl

theorem mem_of_single? {α : Type} {xs : List α} {a : α} (h : single? xs = some (some a)) : a ∈ xs := by
  match xs with
  | [b] => cases h; exact mem_singleton_self _

theorem exists_slots {found : List (Option Input)}
    (h : ∀ slot ∈ found, ∀ x, slot = some x → ∃ v, ofValue v = x) :
    ∃ values, slots values = found := by
  have hr : found ∈ Set.range slots := by
    delta slots
    rw [Set.range_list_map]
    intro slot hs
    cases slot
    case none   => exact ⟨none, rfl⟩
    case some x =>
      have ⟨v, hv⟩ := h _ hs x rfl
      exact ⟨some v, congrArg some hv⟩
  exact hr

-- What a record holds of a value is made of values.
theorem record?_ofValue {found : List (Option Input)} (h : (ofValue v).record? names = some found) :
    ∃ values, slots values = found := by
  cases v
  case array vs =>
    simp only [ofValue, record?] at h
    split at h <;> cases h
    refine ⟨vs.map some ++ replicate (names.length - (ofValues vs).length) none, ?_⟩
    simp [slots, ofValues_eq]
  case object fs =>
    have ⟨entries, he, h⟩ := Option.bind_eq_some_iff.mp h
    have hf : entries = fs.map fun e => (names.idxOf? e.1, ofValue e.2) :=
      Option.some.inj <| he.symm.trans <| mapM_ofFields fun _ => rfl
    apply exists_slots
    rintro _ hs x rfl
    have ⟨i, _, hx⟩ := exists_of_forall₂_right (mapM_some_iff.mp h) hs
    have ⟨entry, hm, hy⟩ := mem_filterMap.mp <| mem_of_single? hx
    have ⟨e, _, he⟩ := mem_map.mp (hf ▸ hm)
    subst he
    simp only [Option.ite_none_right_eq_some, Option.some_inj] at hy
    exact ⟨e.2, hy.right⟩
  all_goals cases h

theorem openRecord?_of_dict? {x : Input} {entries : Dict Input} (h : x.dict? = some entries) :
    openRecord? names x =
      (names.mapM fun name =>
        single? (entries.filterMap fun e => if e.1 == name then some e.2 else none)).map
        (·, entries.filter fun e => !names.contains e.1) := by
  rw [openRecord?, h, Option.map_eq_bind]
  rfl

theorem openRecord?_object (ht : (Dict.keys t).Nodup) : openRecord? names (ofValue (.object t)) =
    some (slots (names.map (Dict.get? t)),
      Dict.mapValues ofValue (t.filter fun e => !names.contains e.1)) := by
  have hk : (Dict.keys (Dict.mapValues ofValue t)).Nodup := by rwa [Dict.keys_mapValues]
  have hm : names.mapM (fun name => single? ((Dict.mapValues ofValue t).filterMap
        fun e => if e.1 == name then some e.2 else none)) = some (slots (names.map (Dict.get? t))) := by
    rw [slots, map_map]
    refine mapM_some_map fun name _ => ?_
    rw [Dict.single?_eq hk, Dict.get?_mapValues]
    rfl
  rw [openRecord?_of_dict? (dict?_object t), hm, Option.map_some]
  simp only [Dict.mapValues, filter_map, Function.comp_def]

-- What an open record holds of a value is made of values, and the names are those of its fields only.
theorem openRecord?_ofValue {found : List (Option Input)} {extra : Dict Input}
    (h : openRecord? names (ofValue v) = some (found, extra)) :
    ∃ values fs, slots values = found ∧ Dict.mapValues ofValue fs = extra ∧
      ∀ e ∈ fs, e.1 ∉ names := by
  simp only [openRecord?, Option.bind_eq_bind, Option.bind_eq_some_iff, Option.some_inj,
    Prod.mk.injEq] at h
  obtain ⟨entries, he, values, hm, rfl, rfl⟩ := h
  obtain ⟨fs, rfl, rfl⟩ := dict?_ofValue.mp he
  have hv : ∀ slot ∈ values, ∀ x, slot = some x → ∃ v, ofValue v = x := by
    rintro _ hs x rfl
    have ⟨name, _, hx⟩ := exists_of_forall₂_right (mapM_some_iff.mp hm) hs
    have ⟨entry, hf, hy⟩ := mem_filterMap.mp <| mem_of_single? hx
    obtain ⟨e, _, rfl⟩ := mem_map.mp hf
    simp only [Option.ite_none_right_eq_some, Option.some_inj] at hy
    exact ⟨e.2, hy.right⟩
  have ⟨values, hs⟩ := exists_slots hv
  refine ⟨values, fs.filter fun e => !names.contains e.1, hs, ?_, ?_⟩
  · simp only [Dict.mapValues, filter_map, Function.comp_def]
  · exact fun e he => by simpa using (mem_filter.mp he).right

theorem freeItems?_eq {vs : List Value} (h : ∀ v ∈ vs, free? (ofValue v) = some v) :
    freeItems? (ofValues vs) = some vs := by
  induction vs
  case nil => rfl
  case cons v vs ih =>
    have ⟨hv, hs⟩ := forall_mem_cons.mp h
    simp [ofValues, freeItems?, hv, ih hs]

theorem freeEntries?_eq {fs : Properties} (h : ∀ e ∈ fs, free? (ofValue e.2) = some e.2) :
    freeEntries? (ofFields fs) = some fs := by
  induction fs
  case nil => rfl
  case cons e fs ih =>
    have ⟨he, hs⟩ := forall_mem_cons.mp h
    simp [ofFields, freeEntries?, text?, he, ih hs]

mutual

-- A value reads as one that reads as itself: of several entries under one key the last one is left.
theorem free?_free? {v w : Value} (h : free? (ofValue v) = some w) : free? (ofValue w) = some w := by
  cases v
  case array items =>
    have ⟨ws, hi, hw⟩ := Option.map_eq_some_iff.mp h
    exact hw ▸ congrArg (Option.map Value.array) (freeItems?_eq <| freeItems?_free? hi)
  case object fields =>
    have ⟨es, hf, hw⟩ := Option.map_eq_some_iff.mp h
    have he := freeEntries?_eq fun e he => freeEntries?_free? hf e (Dict.ofEntries_subset he)
    subst hw
    simp only [ofValue, free?, he, Option.map_some, Dict.ofEntries_eq_self Dict.nodup_ofEntries]
  all_goals
    cases h
    rfl
termination_by structural v

theorem freeItems?_free? {vs ws : List Value} (h : freeItems? (ofValues vs) = some ws) :
    ∀ w ∈ ws, free? (ofValue w) = some w := by
  match vs with
  | [] =>
    cases h
    exact nofun
  | v :: vs =>
    simp only [ofValues, freeItems?, Option.bind_eq_bind, Option.bind_eq_some_iff, Option.some_inj] at h
    have ⟨_, hv, _, hs, hw⟩ := h
    exact hw ▸ forall_mem_cons.mpr ⟨free?_free? hv, freeItems?_free? hs⟩
termination_by structural vs

theorem freeEntries?_free? {fs es : Properties} (h : freeEntries? (ofFields fs) = some es) :
    ∀ e ∈ es, free? (ofValue e.2) = some e.2 := by
  match fs with
  | [] =>
    cases h
    exact nofun
  | (key, v) :: fs =>
    simp only [ofFields, freeEntries?, text?, Option.bind_eq_bind, Option.bind_eq_some_iff,
      Option.some_inj, exists_eq_left'] at h
    have ⟨_, hv, _, hs, hw⟩ := h
    exact hw ▸ forall_mem_cons.mpr ⟨free?_free? hv, freeEntries?_free? hs⟩
termination_by structural fs

end

theorem free?_ne_null {v w : Value} (h : free? (ofValue v) = some w) (hn : v ≠ .null) : w ≠ .null := by
  cases v
  case null => contradiction
  case array =>
    have ⟨_, _, hw⟩ := Option.map_eq_some_iff.mp h
    exact hw ▸ nofun
  case object =>
    have ⟨_, _, hw⟩ := Option.map_eq_some_iff.mp h
    exact hw ▸ nofun
  all_goals
    cases h
    exact nofun

end Input

end Lakehouse
