import Lakehouse.Proofs.Placeholder
import Mathlib.Data.List.DropRight
/-!
The grammar of placeholders, character by character. Reading accepts what writing produces for a
placeholder of the grammar and nothing else, the ids that can be addressed are those that a placeholder
without an attribute can name, and naming an id twice is naming it once.
-/
namespace Lakehouse

open List

-- Letters and digits of ASCII, the underscore and the hyphen.
def Ident.IsNameChar (c : Char) : Prop :=
  ('a' ≤ c ∧ c ≤ 'z') ∨ ('A' ≤ c ∧ c ≤ 'Z') ∨ ('0' ≤ c ∧ c ≤ '9') ∨ c = '_' ∨ c = '-'

theorem Ident.isIdentChar_iff {c : Char} : isIdentChar c ↔ IsNameChar c := by
  delta isIdentChar Char.isAlphanum Char.isAlpha Char.isUpper Char.isLower Char.isDigit
  simp only [IsNameChar, Char.le_def, Bool.or_eq_true, Bool.and_eq_true, decide_eq_true_eq, beq_iff_eq]
  tauto

namespace Text

variable {s : String} {cs : List Char} {blank : Char → Bool}

theorem toList_trim : (trim s).toList = (s.toList.dropWhile isBlank).rdropWhile isBlank := by
  simp [trim, rdropWhile]

-- What begins with no blank does so as long as something is left of it.
theorem dropWhile_rdropWhile (h : cs.dropWhile blank = cs) :
    (cs.rdropWhile blank).dropWhile blank = cs.rdropWhile blank := by
  refine dropWhile_eq_self_iff.mpr fun hl => ?_
  have hp : cs.rdropWhile blank <+: cs := rdropWhile_prefix blank cs
  have hc : 0 < cs.length := hl.trans_le hp.length_le
  have he : (cs.rdropWhile blank)[0] = cs[0] := hp.getElem hl
  exact he ▸ dropWhile_eq_self_iff.mp h hc

theorem trim_trim : trim (trim s) = trim s := by
  rw [← String.toList_inj, toList_trim, toList_trim,
    dropWhile_rdropWhile (dropWhile_idempotent isBlank s.toList), rdropWhile_idempotent]

theorem trim_of_not_blank (h : ∀ c ∈ s.toList, ¬isBlank c) : trim s = s := by
  have hd : s.toList.dropWhile isBlank = s.toList :=
    dropWhile_eq_self_iff.mpr fun hl => h _ (getElem_mem hl)
  have hr : s.toList.rdropWhile isBlank = s.toList :=
    rdropWhile_eq_self_iff.mpr fun hl => h _ (getLast_mem hl)
  rw [← String.toList_inj, toList_trim, hd, hr]

end Text

namespace Placeholder

variable {p : Placeholder} {s id : String} {c : Char}

-- The resource is a name, and the attribute a name with dots and brackets.
structure Grammatical (p : Placeholder) : Prop where
  resource : p.resource ≠ "" ∧ ∀ c ∈ p.resource.toList, Ident.IsNameChar c
  path     : ∀ path, p.path = some path →
    path ≠ "" ∧ ∀ c ∈ path.toList, Ident.IsNameChar c ∨ c = '.' ∨ c = '[' ∨ c = ']'

theorem isPathChar_iff : isPathChar c ↔ Ident.IsNameChar c ∨ c = '.' ∨ c = '[' ∨ c = ']' := by
  simp [isPathChar, Ident.isIdentChar_iff, or_assoc]

theorem isAddressable_iff_name : Ident.isAddressable id ↔
    id ≠ "" ∧ ∀ c ∈ id.toList, Ident.IsNameChar c := by
  simp only [Ident.isAddressable_iff, Ident.isIdentChar_iff, ne_eq, String.toList_eq_nil_iff]

theorem isAttribute_iff_name {path : String} : IsAttribute path ↔
    path ≠ "" ∧ ∀ c ∈ path.toList, Ident.IsNameChar c ∨ c = '.' ∨ c = '[' ∨ c = ']' := by
  simp only [← isPathChar_iff]
  exact ⟨fun h => ⟨h.ne_empty, h.chars⟩, fun ⟨hn, hc⟩ => ⟨hn, hc⟩⟩

theorem grammatical_iff : p.Grammatical ↔ p.WellFormed := by
  constructor
  case mp =>
    intro g
    exact ⟨isAddressable_iff_name.mpr g.resource, fun _ h => isAttribute_iff_name.mpr (g.path _ h)⟩
  case mpr =>
    intro w
    exact ⟨isAddressable_iff_name.mp w.resource, fun _ h => isAttribute_iff_name.mp (w.path _ h)⟩

-- A text is read if the search finds a placeholder at its beginning and nothing after it.
theorem parse?_eq_some_iff_leading? : parse? s = some p ↔ leading? s.toList = some (p, []) := by
  rw [parse?]
  cases s.toList
  case nil => simp [first?, leading?, after?, opening_eq]
  case cons c cs =>
    rw [first?]
    cases leading? (c :: cs)
    case none       => cases first? cs <;> simp
    case some found =>
      obtain ⟨q, rest⟩ := found
      cases rest <;> simp

theorem parse?_eq_some_iff : parse? s = some p ↔ p.Grammatical ∧ s = p.text := by
  rw [parse?_eq_some_iff_leading?, leading?_eq_some_iff, grammatical_iff, append_nil, String.toList_inj]

theorem parse?_bare_iff : parse? (text ⟨id, none⟩) = some ⟨id, none⟩ ↔ Ident.isAddressable id := by
  rw [parse?_eq_some_iff, grammatical_iff]
  exact ⟨fun h => h.left.resource, fun h => ⟨⟨h, fun _ hp => nomatch hp⟩, rfl⟩⟩

-- What a placeholder is written in stands among the visible characters of ASCII.
theorem isPathChar_visible (h : isPathChar c) : 0x21 ≤ c.toNat ∧ c.toNat ≤ 0x7E := by
  simp only [isPathChar_iff, Ident.IsNameChar, Char.le_def, UInt32.le_iff_toNat_le] at h
  obtain ((h | h | h | rfl | rfl) | rfl | rfl | rfl) := h
  case inl.inl          => exact ⟨le_trans (by decide) h.left, le_trans h.right (by decide)⟩
  case inl.inr.inl      => exact ⟨le_trans (by decide) h.left, le_trans h.right (by decide)⟩
  case inl.inr.inr.inl  => exact ⟨le_trans (by decide) h.left, le_trans h.right (by decide)⟩
  all_goals decide

theorem isPathChar_lt (h : isPathChar c) : c.toNat < 128 :=
  lt_of_le_of_lt (isPathChar_visible h).right (by decide)

-- The blanks of ASCII come before its visible characters, and the others after them.
theorem not_isBlank_of_isPathChar (h : isPathChar c) : ¬Text.isBlank c := by
  have hr := isPathChar_visible h
  simp only [Text.isBlank, Text.blankRanges, any_cons, any_nil, Bool.or_eq_true, Bool.and_eq_true,
    decide_eq_true_eq, Bool.false_eq_true, or_false]
  omega

theorem trim_of_isAddressable (h : Ident.isAddressable id) : Text.trim id = id := by
  refine Text.trim_of_not_blank fun c hc => not_isBlank_of_isPathChar ?_
  have hi := (Ident.isAddressable_iff.mp h).right c hc
  simp [isPathChar, hi]

theorem trim_text (h : p.WellFormed) : Text.trim p.text = p.text := by
  have ho : opening.all (!Text.isBlank ·) := by decide
  refine Text.trim_of_not_blank fun c hc hb => ?_
  simp only [toList_text, mem_append, mem_singleton] at hc
  obtain (hc | hc) | rfl := hc
  · simpa [hb] using all_eq_true.mp ho c hc
  · exact notMem_named h (fun hp => not_isBlank_of_isPathChar hp hb) hc
  · exact absurd hb (by decide)

theorem parse?_of_isAddressable (h : Ident.isAddressable id) : parse? id = none := by
  refine Option.eq_none_iff_forall_ne_some.mpr fun p hp => ?_
  obtain ⟨hg, rfl⟩ := parse?_eq_some_iff.mp hp
  obtain ⟨_, hb, _⟩ := closed_text (grammatical_iff.mp hg)
  exact Ident.notMem_of_isAddressable h (by decide) (hb ▸ mem_cons_self)

theorem normalize_of_isAddressable (h : Ident.isAddressable id) : normalize id = id := by
  rw [normalize, trim_of_isAddressable h, parse?_of_isAddressable h]

theorem normalize_text (h : p.Grammatical) : normalize p.text = p.resource := by
  rw [normalize, trim_text (grammatical_iff.mp h), parse?_eq_some_iff.mpr ⟨h, rfl⟩]

theorem normalize_normalize : normalize (normalize s) = normalize s := by
  cases hp : parse? (Text.trim s)
  case none =>
    have hn : normalize s = Text.trim s := by rw [normalize, hp]
    rw [hn, normalize, Text.trim_trim, hp]
  case some p =>
    have hn : normalize s = p.resource := by rw [normalize, hp]
    have ⟨hg, _⟩ := parse?_eq_some_iff.mp hp
    rw [hn, normalize_of_isAddressable (grammatical_iff.mp hg).resource]

-- The texts of placeholders are those that can be read, each as the placeholder that it is the text of.
theorem text_bijective :
    (∀ s p, parse? s = some p ↔ p.Grammatical ∧ s = p.text) ∧
    (∀ id, Ident.isAddressable id ↔ parse? (text ⟨id, none⟩) = some ⟨id, none⟩) ∧
    (∀ s, normalize (normalize s) = normalize s) ∧
    ∀ p : Placeholder, p.Grammatical → normalize p.text = p.resource :=
  ⟨fun _ _ => parse?_eq_some_iff, fun _ => parse?_bare_iff.symm, fun _ => normalize_normalize,
    fun _ => normalize_text⟩

theorem text_bijective_attribute :
    let p : Placeholder := ⟨"job-a", some "tasks[0].task_key"⟩
    p.Grammatical ∧ parse? p.text = some p ∧ normalize (" " ++ p.text ++ "\n") = "job-a" ∧
      normalize p.text = "job-a" := by
  have hp : parse? "$\x7bresources.job-a.tasks[0].task_key\x7d" =
    some ⟨"job-a", some "tasks[0].task_key"⟩ := by decide +kernel
  have hg := (text_bijective.left _ _ |>.mp hp).left
  exact ⟨hg, hp, by decide +kernel, text_bijective.right.right.right _ hg⟩

end Placeholder

end Lakehouse
