import Lakehouse.Proofs.CamelCase
import Mathlib.Data.Set.Function
/-!
Names in snake case. Putting a key in camel case a second time changes nothing, and leaves no underscore
behind the first character. The names of a schema are made of segments of small letters and digits; as
each segment after the first one becomes a capital and what follows it, names are read back from their
camel case.
-/
namespace Lakehouse

open List

variable {name : String} {segments : List (List Char)} {cs tail : List Char} {c : Char}

namespace Text

theorem longUppercase_underscore : ∀ e ∈ longUppercase.toList, 0x5F ∉ e.2 := by
  decide +kernel

-- No run of characters has the one that it would take to the underscore.
theorem caseRuns_underscore : ∀ run ∈ caseRuns.toList, ¬run.contains (0x5F - run.shift).toNat := by
  decide +kernel

theorem eq_of_ofNat_eq {n : Nat} (h : Char.ofNat n = '_') : n = 0x5F := by
  delta Char.ofNat at h
  by_cases hv : n.isValidChar
  case pos =>
    rw [dif_pos hv] at h
    exact congrArg Char.toNat h
  case neg =>
    rw [dif_neg hv] at h
    contradiction

-- Only the underscore has an underscore in its upper case.
theorem underscore_notMem_uppercase (h : c ≠ '_') : '_' ∉ uppercase c := by
  rw [uppercase]
  split
  case h_1 n cs hl =>
    have he := Array.mem_toList_iff.mpr <| Array.mem_of_find?_eq_some hl
    rw [mem_map]
    rintro ⟨n, hn, hc⟩
    exact longUppercase_underscore _ he (eq_of_ofNat_eq hc ▸ hn)
  case h_2 =>
    split
    case h_1 run hr =>
      rw [mem_singleton]
      intro hc
      have hs := eq_of_ofNat_eq hc.symm
      have hn : (0x5F - run.shift).toNat = c.toNat := by omega
      have hm := Array.mem_toList_iff.mpr <| Array.mem_of_find?_eq_some hr
      have hp := Array.find?_some hr
      exact caseRuns_underscore run hm (hn ▸ hp)
    case h_2 => exact fun hm => h (mem_singleton.mp hm).symm

end Text

namespace Pulumi

theorem underscore_notMem_camelRest (upper : Bool) (cs : List Char) : '_' ∉ camelRest upper cs := by
  induction cs generalizing upper
  case nil => simp [camelRest]
  case cons c cs ih =>
    rw [camelRest]
    split
    case isTrue => exact ih true
    case isFalse hc =>
      have hc : c ≠ '_' := by simpa using hc
      split
      case isTrue =>
        exact mem_append.not.mpr <| not_or.mpr ⟨Text.underscore_notMem_uppercase hc, ih false⟩
      case isFalse => exact mem_cons.not.mpr <| not_or.mpr ⟨hc.symm, ih false⟩

theorem underscore_notMem_camelCase (key : String) : '_' ∉ (camelCase key).toList.tail := by
  cases he : key.toList
  case nil => simp [camelCase, he]
  case cons c cs =>
    rw [toList_camelCase he]
    exact underscore_notMem_camelRest false cs

theorem camelCase_camelCase (key : String) : camelCase (camelCase key) = camelCase key := by
  rw [← String.toList_inj]
  cases he : key.toList
  case nil => simp [camelCase, he]
  case cons c cs =>
    have hc := toList_camelCase he
    rw [toList_camelCase hc, hc, camelRest_eq_self (underscore_notMem_camelRest false cs)]

-- What stands between two underscores of a name: small letters and digits, with a letter in front.
structure IsSegment (cs : List Char) : Prop where
  head  : ∃ c ∈ cs.head?, c.isLower
  chars : ∀ c ∈ cs, c.isLower ∨ c.isDigit

theorem isSegment_iff :
    cs.head?.any Char.isLower && cs.all (fun c => c.isLower || c.isDigit) ↔ IsSegment cs := by
  simp only [Bool.and_eq_true, Option.any_eq_true, all_eq_true, Bool.or_eq_true]
  exact ⟨fun ⟨hh, hc⟩ => ⟨hh, hc⟩, fun h => ⟨h.head, h.chars⟩⟩

instance : Decidable (IsSegment cs) :=
  decidable_of_iff _ isSegment_iff

-- A name of one segment or more, with one underscore between each and the next.
def IsSchemaName (name : String) : Prop :=
  ∃ segments, segments ≠ [] ∧ (∀ cs ∈ segments, IsSegment cs) ∧
    name.toList = ['_'].intercalate segments

-- A capital stands for the small letter that a segment begins with.
def lowered (c : Char) : List Char :=
  if c.isUpper then ['_', c.toLower] else [c]

-- `camelCase` as `camel_case`.
def snakeCase (key : String) : String :=
  String.ofList (key.toList.flatMap lowered)

theorem IsSegment.underscore_notMem (h : IsSegment cs) : '_' ∉ cs :=
  fun hm => absurd (h.chars _ hm) (by decide)

-- The segments of a name are what its underscores split it into.
theorem isSchemaName_iff :
    IsSchemaName name ↔ ∀ cs ∈ name.toList.splitOn '_', IsSegment cs := by
  constructor
  case mp =>
    intro ⟨segments, hn, hs, he⟩
    rwa [he, splitOn_intercalate _ (fun cs hc => (hs cs hc).underscore_notMem) hn]
  case mpr => exact fun h => ⟨_, splitOn_ne_nil _ _, h, (intercalate_splitOn '_').symm⟩

instance : Decidable (IsSchemaName name) :=
  decidable_of_iff ((name.toList.splitOn '_').all fun cs => IsSegment cs) <| by
    rw [isSchemaName_iff, all_eq_true]
    simp only [decide_eq_true_eq]

theorem IsSegment.exists_cons (h : IsSegment cs) :
    ∃ c tail, cs = c :: tail ∧ c.isLower ∧ '_' ∉ tail ∧ ∀ c ∈ tail, c.isLower ∨ c.isDigit := by
  have ⟨c, hc, hl⟩ := h.head
  obtain ⟨tail, rfl⟩ := head?_eq_some_iff.mp hc
  have hu := not_mem_of_not_mem_cons h.underscore_notMem
  exact ⟨c, tail, rfl, hl, hu, (forall_mem_cons.mp h.chars).right⟩

theorem intercalate_cons :
    ['_'].intercalate (cs :: segments) = cs ++ segments.flatMap ('_' :: ·) := by
  induction segments generalizing cs
  case nil => simp [intercalate]
  case cons ds segments ih =>
    rw [intercalate, intersperse_cons_cons, flatten_cons, flatten_cons, ← intercalate, ih]
    simp

theorem lowered_uppercase (h : c.isLower) : (Text.uppercase c).flatMap lowered = ['_', c] := by
  have hn : ∀ n < 26, lowered (Char.ofNat (0x61 + n - 32)) = ['_', Char.ofNat (0x61 + n)] := by
    decide
  have hc : 0x61 ≤ c.toNat ∧ c.toNat ≤ 0x7A := by
    delta Char.isLower at h
    simpa [UInt32.le_iff_toNat_le] using h
  have hs := hn (c.toNat - 0x61) (by omega)
  rw [Nat.add_sub_cancel' hc.left, Char.ofNat_toNat] at hs
  rw [Text.uppercase_ascii (by omega), if_pos hc, flatMap_singleton, hs]

theorem lowered_eq_self (h : ∀ c ∈ cs, c.isLower ∨ c.isDigit) : cs.flatMap lowered = cs := by
  have hu : ∀ c ∈ cs, lowered c = [c] := by
    intro c hm
    have hc : c.isLower ∨ c.isDigit := h c hm
    have hn : ¬c.isUpper := by
      delta Char.isLower Char.isDigit at hc
      delta Char.isUpper
      simp [UInt32.le_iff_toNat_le] at hc ⊢
      omega
    rw [lowered, if_neg hn]
  rw [flatMap_congr hu, flatMap_singleton']

theorem camelRest_plain (h : '_' ∉ cs) : camelRest false (cs ++ tail) = cs ++ camelRest false tail := by
  induction cs
  case nil => rfl
  case cons c cs ih =>
    have ⟨hc, hs⟩ := not_or.mp <| mem_cons.not.mp h
    simp [camelRest, Ne.symm hc, ih hs]

theorem camelRest_segment (h : c.isLower) :
    camelRest false ('_' :: c :: cs) = Text.uppercase c ++ camelRest false cs := by
  have hc : c ≠ '_' := by
    rintro rfl
    contradiction
  simp [camelRest, hc]

-- The segments after the first one are read back from what they become.
theorem lowered_camelRest (h : ∀ cs ∈ segments, IsSegment cs) :
    (camelRest false (segments.flatMap ('_' :: ·))).flatMap lowered =
      segments.flatMap ('_' :: ·) := by
  induction segments
  case nil => rfl
  case cons cs segments ih =>
    have ⟨hs, hr⟩ := forall_mem_cons.mp h
    obtain ⟨c, tail, rfl, hl, hu, ht⟩ := hs.exists_cons
    rw [flatMap_cons, cons_append, cons_append, camelRest_segment hl, camelRest_plain hu,
      flatMap_append, flatMap_append, lowered_uppercase hl, lowered_eq_self ht, ih hr]
    rfl

theorem snakeCase_camelCase (h : IsSchemaName name) : snakeCase (camelCase name) = name := by
  obtain ⟨segments, hn, hs, he⟩ := h
  obtain ⟨first, segments, rfl⟩ := exists_cons_of_ne_nil hn
  obtain ⟨hf, hr⟩ := forall_mem_cons.mp hs
  obtain ⟨c, tail, rfl, _, hu, _⟩ := hf.exists_cons
  rw [intercalate_cons, cons_append] at he
  rw [← String.toList_inj, snakeCase, String.toList_ofList, toList_camelCase he, camelRest_plain hu,
    ← cons_append, flatMap_append, lowered_eq_self hf.chars, lowered_camelRest hr, he, cons_append]

theorem camelCase_inj {other : String} (h : IsSchemaName name) (ho : IsSchemaName other) :
    camelCase name = camelCase other ↔ name = other := by
  constructor
  case mp  => exact fun he => by rw [← snakeCase_camelCase h, he, snakeCase_camelCase ho]
  case mpr => exact congrArg camelCase

-- Camel case is kept by a second turn, has an underscore at most in front, and tells the names of a
-- schema apart.
theorem camelCase_faithful : (∀ key, camelCase (camelCase key) = camelCase key) ∧
    (∀ key, '_' ∉ (camelCase key).toList.tail) ∧ Set.InjOn camelCase {name | IsSchemaName name} := by
  exact ⟨camelCase_camelCase, underscore_notMem_camelCase, fun _ ha _ hb => (camelCase_inj ha hb).mp⟩

-- One name of a schema becomes `jobClusterKey`, though other keys do as well.
theorem camelCase_faithful_jobClusterKey : IsSchemaName "job_cluster_key" ∧
    (∀ name, IsSchemaName name → camelCase name = "jobClusterKey" → name = "job_cluster_key") ∧
      camelCase "job__clusterKey" = "jobClusterKey" := by
  have hn : IsSchemaName "job_cluster_key" := by decide +kernel
  have hc : camelCase "job_cluster_key" = "jobClusterKey" := by decide +kernel
  exact ⟨hn, fun name h he => camelCase_faithful.right.right h hn <| he.trans hc.symm, by decide +kernel⟩

end Pulumi

end Lakehouse
