import Lakehouse.Proofs.Reference
import Lakehouse.Proofs.Renaming
/-!
Attributes in camel case. A path is rewritten as one text, but nothing that stands between its keys
takes part in it: each key is rewritten by itself, and loses all its underscores unless it is the first.
-/
namespace Lakehouse

open List

variable {k : String} {upper : Bool}

-- The upper case of a character of an id is one, and no underscore.
theorem Text.isIdentChar_uppercase {c d : Char} (h : Ident.isIdentChar c) (hc : c ≠ '_')
    (hd : d ∈ uppercase c) : Ident.isIdentChar d ∧ d ≠ '_' := by
  have hu : ∀ n < 26, Ident.isIdentChar (Char.ofNat (0x41 + n)) ∧ Char.ofNat (0x41 + n) ≠ '_' := by
    decide
  have hp : Placeholder.isPathChar c := by simp [Placeholder.isPathChar, h]
  obtain rfl | ⟨n, hn, rfl⟩ := mem_uppercase (Placeholder.isPathChar_lt hp) hd
  case inl => exact ⟨h, hc⟩
  case inr => exact hu n hn

namespace Pulumi

-- A key after the first one of an attribute.
def camelTail (key : String) : String :=
  String.ofList (camelRest false key.toList)

theorem toList_camelCase {c : Char} {cs : List Char} (h : k.toList = c :: cs) :
    (camelCase k).toList = c :: camelRest false cs := by
  simp [camelCase, h]

-- What stands between the keys of a path.
def IsMark (c : Char) : Prop :=
  c = '.' ∨ c = '[' ∨ c = ']'

theorem camelRest_mark {c : Char} {cs : List Char} (hc : IsMark c) :
    camelRest upper (c :: cs) = c :: camelRest false cs := by
  have hu : ∀ c, IsMark c → Text.uppercase c = [c] ∧ (c == '_') = false := by
    rintro c (rfl | rfl | rfl) <;> exact ⟨Text.uppercase_ascii (by decide), rfl⟩
  have ⟨hu, hn⟩ := hu c hc
  cases upper <;> simp [camelRest, hu, hn]

-- What comes before a mark does not change what comes after it.
theorem camelRest_append {xs ys : List Char} (h : ys = [] ∨ ∃ c rest, ys = c :: rest ∧ IsMark c) :
    camelRest upper (xs ++ ys) = camelRest upper xs ++ camelRest false ys := by
  induction xs generalizing upper
  case nil =>
    obtain rfl | ⟨c, rest, rfl, hc⟩ := h
    case inl => simp [camelRest]
    case inr =>
      rw [nil_append, camelRest_mark hc, camelRest_mark hc]
      rfl
  case cons c xs ih =>
    simp only [cons_append, camelRest, ih]
    split
    · rfl
    · split <;> simp

theorem camelRest_eq_self {xs : List Char} (h : '_' ∉ xs) : camelRest false xs = xs := by
  induction xs
  case nil => rfl
  case cons c xs ih =>
    have ⟨hc, hs⟩ := not_or.mp <| mem_cons.not.mp h
    simp [camelRest, Ne.symm hc, ih hs]

theorem isIdentChar_camelRest {xs : List Char} (h : ∀ c ∈ xs, Ident.isIdentChar c) :
    ∀ c ∈ camelRest upper xs, Ident.isIdentChar c ∧ c ≠ '_' := by
  induction xs generalizing upper
  case nil => simp [camelRest]
  case cons c xs ih =>
    obtain ⟨hc, hs⟩ := forall_mem_cons.mp h
    simp only [camelRest]
    split
    case isTrue => exact ih hs
    case isFalse hn =>
      have hn : c ≠ '_' := by simpa using hn
      split
      · exact forall_mem_append.mpr ⟨fun d => Text.isIdentChar_uppercase hc hn, ih hs⟩
      · exact forall_mem_cons.mpr ⟨⟨hc, hn⟩, ih hs⟩

theorem isKey_camelCase (hk : IsKey k) : IsKey (camelCase k) := by
  rw [IsKey] at hk ⊢
  cases he : k.toList
  case nil => simp [camelCase, he]
  case cons c cs =>
    rw [he] at hk
    obtain ⟨hc, hs⟩ := forall_mem_cons.mp hk
    rw [toList_camelCase he]
    exact forall_mem_cons.mpr ⟨hc, fun d hd => (isIdentChar_camelRest hs d hd).left⟩

theorem isKey_camelTail (hk : IsKey k) : IsKey (camelTail k) := by
  rw [IsKey, camelTail, String.toList_ofList]
  exact fun c hc => (isIdentChar_camelRest hk c hc).left

-- In an attribute, a key loses its underscores,
theorem camelTail_eq_self (hk : IsKey k) : camelTail k = k ↔ '_' ∉ k.toList := by
  rw [camelTail, ← String.toList_inj, String.toList_ofList]
  constructor
  case mp  => exact fun h hm => (isIdentChar_camelRest hk _ <| h ▸ hm).right rfl
  case mpr => exact camelRest_eq_self

-- and the one that it begins with as well.
theorem camelTail_eq_camelCase (hk : IsKey k) :
    camelTail k = camelCase k ↔ k.toList.head? ≠ some '_' := by
  rw [camelTail, ← String.toList_inj, String.toList_ofList]
  cases he : k.toList
  case nil => simp [camelRest, camelCase, he]
  case cons c cs =>
    rw [toList_camelCase he, head?_cons, ne_eq, Option.some.injEq]
    by_cases hc : c = '_'
    case pos =>
      rw [IsKey, he] at hk
      have hm : '_' ∉ camelRest false (c :: cs) :=
        fun hm => (isIdentChar_camelRest hk _ hm).right rfl
      simp only [hc, not_true_eq_false, iff_false] at hm ⊢
      exact fun h => hm <| h ▸ mem_cons_self
    case neg => simp [camelRest, hc]

theorem exists_chars (σ : List Step) :
    Step.chars σ = [] ∨ ∃ c rest, Step.chars σ = c :: rest ∧ IsMark c := by
  obtain h | ⟨c, rest, h, hc⟩ := Step.exists_chars σ
  case inl => exact .inl h
  case inr => exact .inr ⟨c, rest, h, hc.imp_right .inl⟩

theorem camelRest_chars (σ : List Step) :
    camelRest false (Step.chars σ) = Step.chars (σ.map (Step.rename camelTail)) := by
  induction σ
  case nil => rfl
  case cons step σ ih =>
    cases step
    case field k =>
      rw [Step.chars_field, camelRest_mark (.inl rfl), camelRest_append (exists_chars σ), ih, map_cons,
        Step.rename, Step.chars_field, camelTail, String.toList_ofList]
    case item i =>
      have hd : '_' ∉ (toString i).toList := fun h => absurd (Step.isDigit_of_mem h) (by decide)
      rw [Step.chars_item, camelRest_mark (.inr <| .inl rfl),
        camelRest_append (.inr ⟨_, _, rfl, .inr <| .inr rfl⟩), camelRest_mark (.inr <| .inr rfl),
        camelRest_eq_self hd, ih, map_cons, Step.rename, Step.chars_item]

-- An attribute is written in camel case step by step.
theorem camelCase_text (p : Path) :
    camelCase p.text = Path.text ⟨camelCase p.first, p.rest.map (Step.rename camelTail)⟩ := by
  have he := p.toList_text
  rw [← String.toList_inj, Path.toList_text, ← camelRest_chars]
  cases hf : p.first.toList
  case cons c cs =>
    rw [hf, cons_append] at he
    rw [toList_camelCase he, toList_camelCase hf, camelRest_append (exists_chars _), cons_append]
  case nil =>
    rw [String.toList_eq_nil_iff.mp hf]
    rw [hf, nil_append] at he
    obtain hc | ⟨c, cs, hc, hm⟩ := exists_chars p.rest
    case inl =>
      rw [hc] at he ⊢
      rw [String.toList_eq_nil_iff.mp he]
      rfl
    case inr =>
      rw [hc] at he ⊢
      rw [toList_camelCase he, camelRest_mark hm]
      rfl

end Pulumi

end Lakehouse
