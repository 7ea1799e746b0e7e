import Lakehouse.Placeholder
import Mathlib.Data.List.Infix
import Mathlib.Data.List.TakeWhile
/-!
The grammar of placeholders. A text begins with a placeholder exactly when that placeholder is
written at its beginning. Where what comes in for placeholders is closed as they are, a text has a
placeholder after substitution only if one of the replacements is one.
-/
namespace Lakehouse

open List

-- The first text is a part of the second one.
def Text.Within (part whole : String) : Prop :=
  part.toList <:+: whole.toList

instance {part whole : String} : Decidable (Text.Within part whole) :=
  inferInstanceAs (Decidable (_ <:+: _))

theorem Text.Within.mem {part whole : String} {c : Char} (w : Within part whole)
    (h : c ∈ part.toList) : c ∈ whole.toList :=
  IsInfix.subset w h

theorem Ident.isAddressable_iff {id : String} :
    isAddressable id ↔ id.toList ≠ [] ∧ ∀ c ∈ id.toList, isIdentChar c := by
  simp [isAddressable, all_eq_true]

theorem Ident.notMem_of_isAddressable {id : String} {c : Char} (h : isAddressable id)
    (hc : ¬isIdentChar c) : c ∉ id.toList :=
  fun hm => hc <| (isAddressable_iff.mp h).right c hm

namespace Placeholder

variable {cs rest pre body tail : List Char} {p q : Placeholder} {s t path : String} {skip : Nat}
variable {f : Placeholder → String}

-- What can name an attribute.
structure IsAttribute (path : String) : Prop where
  ne_empty : path ≠ ""
  chars    : ∀ c ∈ path.toList, isPathChar c

instance : Decidable (IsAttribute path) :=
  decidable_of_iff (path ≠ "" ∧ path.toList.all isPathChar)
    ⟨fun ⟨hn, hc⟩ => ⟨hn, all_eq_true.mp hc⟩, fun h => ⟨h.ne_empty, all_eq_true.mpr h.chars⟩⟩

theorem isAttribute_id : IsAttribute "id" :=
  ⟨by decide, all_eq_true.mp (by decide)⟩

-- What the grammar takes for a resource and an attribute of it.
structure WellFormed (p : Placeholder) : Prop where
  resource : Ident.isAddressable p.resource
  path     : ∀ path, p.path = some path → IsAttribute path

theorem opening_eq : opening = '$' :: '\x7b' :: ("resources".toList ++ ['.']) := by
  decide

-- What a placeholder says between its opening and its end.
def named (p : Placeholder) : List Char :=
  p.resource.toList ++ p.path.elim [] fun path => '.' :: path.toList

theorem toList_text : p.text.toList = opening ++ p.named ++ ['\x7d'] := by
  obtain ⟨resource, path⟩ := p
  delta opening
  cases path <;> simp [text, named]

theorem notMem_named {c : Char} (h : p.WellFormed) (hc : ¬isPathChar c) : c ∉ p.named := by
  have hi : ¬Ident.isIdentChar c := fun hi => hc <| by simp [isPathChar, hi]
  have hr := Ident.notMem_of_isAddressable h.resource hi
  cases hp : p.path
  case none => simp [named, hp, hr]
  case some path =>
    have hd : c ≠ '.' := fun hd => hc <| hd ▸ rfl
    have hm : c ∉ path.toList := fun hm => hc <| (h.path path hp).chars c hm
    simp [named, hp, hr, hd, hm]

theorem after?_eq_some_iff : after? pre cs = some rest ↔ cs = pre ++ rest := by
  induction pre generalizing cs
  case nil => simp [after?]
  case cons c pre ih =>
    cases cs
    case nil => simp [after?]
    case cons d cs =>
      simp only [after?, beq_iff_eq, cons_append, cons.injEq]
      split
      case isTrue he  => rw [ih]; exact ⟨fun h => ⟨he.symm, h⟩, fun h => h.right⟩
      case isFalse he => simp [eq_comm, he]

-- The characters of one sort that come before one that is not of the sort.
theorem takeWhile_run {xs : List Char} (sort : Char → Bool) (c : Char) (rest : List Char)
    (hc : sort c = false) (hs : ∀ x ∈ xs, sort x) : (xs ++ c :: rest).takeWhile sort = xs := by
  simp [takeWhile_append_of_pos hs, hc]

theorem dropWhile_run {xs : List Char} (sort : Char → Bool) (c : Char) (rest : List Char)
    (hc : sort c = false) (hs : ∀ x ∈ xs, sort x) : (xs ++ c :: rest).dropWhile sort = c :: rest := by
  simp [dropWhile_append_of_pos hs, hc]

-- What comes before the first occurrence of a character.
theorem eq_of_append_cons_eq {xs ys : List Char} {c : Char} (hx : c ∉ xs) (hy : c ∉ ys)
    (h : xs ++ c :: rest = ys ++ c :: tail) : xs = ys := by
  have hs : ∀ zs : List Char, c ∉ zs → ∀ z ∈ zs, z != c := by
    intro zs hn z hz
    simpa using ne_of_mem_of_not_mem hz hn
  have ht := congrArg (takeWhile (· != c)) h
  rwa [takeWhile_run _ c _ (by simp) (hs xs hx), takeWhile_run _ c _ (by simp) (hs ys hy)] at ht

theorem leading?_sound (h : leading? cs = some (p, rest)) :
    p.WellFormed ∧ cs = p.text.toList ++ rest := by
  simp only [leading?, Option.bind_eq_bind, Option.bind_eq_some_iff] at h
  have ⟨after, ha, h⟩ := h
  rw [after?_eq_some_iff.mp ha, toList_text, named]
  split at h
  case isTrue => simp at h
  case isFalse hr =>
    have he := takeWhile_append_dropWhile (p := Ident.isIdentChar) (l := after)
    have hi : Ident.isAddressable (String.ofList (after.takeWhile Ident.isIdentChar)) := by
      rw [Ident.isAddressable_iff, String.toList_ofList]
      exact ⟨by simpa using hr, fun c hc => mem_takeWhile_imp hc⟩
    split at h
    case h_1 tail ht =>
      cases h
      refine ⟨⟨hi, fun path hp => nomatch hp⟩, ?_⟩
      rw [ht] at he
      simp [he]
    case h_2 tail ht =>
      split at h
      case isTrue => simp at h
      case isFalse hp =>
        have hd := takeWhile_append_dropWhile (p := isPathChar) (l := tail)
        have hpa : IsAttribute (String.ofList (tail.takeWhile isPathChar)) := by
          refine ⟨by simpa using hp, fun c hc => ?_⟩
          exact mem_takeWhile_imp (l := tail) <| by simpa using hc
        split at h
        case h_1 last hl =>
          cases h
          refine ⟨⟨hi, fun path hp => Option.some.inj hp ▸ hpa⟩, ?_⟩
          rw [hl] at hd
          rw [ht] at he
          simp [hd, he]
        case h_2 => contradiction
    case h_3 => contradiction

theorem leading?_complete (h : p.WellFormed) : leading? (p.text.toList ++ rest) = some (p, rest) := by
  obtain ⟨resource, path⟩ := p
  have ⟨hn, hr⟩ := Ident.isAddressable_iff.mp h.resource
  have ha : after? opening ((text ⟨resource, path⟩).toList ++ rest) = some (resource.toList ++
      ((path.elim [] fun path => '.' :: path.toList) ++ '\x7d' :: rest)) := by
    rw [after?_eq_some_iff, toList_text, named]
    simp
  have he : resource.toList.isEmpty = false := by simpa using hn
  cases path
  case none =>
    have ht := takeWhile_run Ident.isIdentChar '\x7d' rest rfl hr
    have hd := dropWhile_run Ident.isIdentChar '\x7d' rest rfl hr
    simp only [leading?, ha, Option.bind_eq_bind, Option.bind_some, Option.elim, nil_append, ht, hd,
      he, Bool.false_eq_true, if_false, String.ofList_toList]
  case some path =>
    have hp := h.path path rfl
    have hpe : path.toList.isEmpty = false := by simpa using hp.ne_empty
    have ht := takeWhile_run Ident.isIdentChar '.' (path.toList ++ '\x7d' :: rest) rfl hr
    have hd := dropWhile_run Ident.isIdentChar '.' (path.toList ++ '\x7d' :: rest) rfl hr
    have htp := takeWhile_run isPathChar '\x7d' rest rfl hp.chars
    have hdp := dropWhile_run isPathChar '\x7d' rest rfl hp.chars
    simp only [leading?, ha, Option.bind_eq_bind, Option.bind_some, Option.elim, cons_append, ht, hd,
      htp, hdp, he, hpe, Bool.false_eq_true, if_false, String.ofList_toList]

-- A text begins with the placeholder that is written at its beginning.
theorem leading?_eq_some_iff :
    leading? cs = some (p, rest) ↔ p.WellFormed ∧ cs = p.text.toList ++ rest :=
  ⟨leading?_sound, fun ⟨h, he⟩ => he ▸ leading?_complete h⟩

-- Every placeholder is one that some rest of the text begins with.
theorem exists_leading? (h : .reference p ∈ segmentsFrom skip cs) :
    ∃ tail, tail <:+ cs ∧ ∃ rest, leading? tail = some (p, rest) := by
  induction cs generalizing skip
  case nil => simp [segmentsFrom] at h
  case cons c cs ih =>
    have hs : ∀ {skip}, .reference p ∈ segmentsFrom skip cs →
        ∃ tail, tail <:+ c :: cs ∧ ∃ rest, leading? tail = some (p, rest) := by
      intro _ h
      have ⟨tail, ht, hl⟩ := ih h
      exact ⟨tail, ht.trans (suffix_cons c cs), hl⟩
    cases skip
    case succ skip => exact hs <| by simpa [segmentsFrom] using h
    case zero =>
      simp only [segmentsFrom] at h
      split at h
      case h_1 tail hl =>
        cases h
        case head   => exact ⟨_, suffix_refl _, _, hl⟩
        case tail h => exact hs h
      case h_2 =>
        cases h
        case tail h => exact hs h

theorem mem_inText : p ∈ inText s ↔ .reference p ∈ segments s := by
  simp only [inText, mem_filterMap]
  constructor
  case mp =>
    intro ⟨segment, hm, hs⟩
    cases segment <;> cases hs
    exact hm
  case mpr => exact fun h => ⟨_, h, rfl⟩

theorem inText_wellFormed (h : p ∈ inText s) : p.WellFormed :=
  have ⟨_, _, _, hl⟩ := exists_leading? <| mem_inText.mp h
  leading?_sound hl |>.left

theorem inText_attribute (h : p ∈ inText s) (hp : p.path = some path) : IsAttribute path :=
  inText_wellFormed h |>.path path hp

-- The characters of a text after substitution, but for those of a placeholder that has been taken.
def substituted (f : Placeholder → String) (skip : Nat) (cs : List Char) : List Char :=
  (segmentsFrom skip cs).flatMap fun segment => (segment.render f).toList

theorem hasOpening_iff : hasOpening cs ↔ opening <:+: cs := by
  induction cs
  case nil => simp [hasOpening, opening_eq]
  case cons c cs ih =>
    have ha : (after? opening (c :: cs)).isSome ↔ opening <+: c :: cs := by
      simp only [Option.isSome_iff_exists, after?_eq_some_iff]
      exact exists_congr fun _ => eq_comm
    rw [hasOpening, Bool.or_eq_true, ha, ih, infix_cons_iff]

-- A text without an opening is left as it is.
theorem segmentsFrom_of_not_hasOpening (h : ¬hasOpening cs) : segmentsFrom 0 cs = cs.map .char := by
  induction cs
  case nil => rfl
  case cons c cs ih =>
    simp only [hasOpening, Bool.or_eq_true, not_or, Option.not_isSome_iff_eq_none] at h
    have hl : leading? (c :: cs) = none := by simp [leading?, h.left]
    simp [segmentsFrom, hl, ih h.right]

theorem toList_substituteText : (substituteText f s).toList = substituted f 0 s.toList := by
  rw [substituteText]
  split
  case isTrue => simp [substituted, segments, String.toList_join, flatMap_map]
  case isFalse h =>
    simp [substituted, segmentsFrom_of_not_hasOpening h, flatMap_map, Segment.render]

-- What a placeholder is replaced by stands in the text.
theorem within_substituteText (h : p ∈ inText s) : Text.Within (f p) (substituteText f s) := by
  have ⟨before, after, he⟩ := append_of_mem <| mem_inText.mp h
  rw [segments] at he
  rw [Text.Within, toList_substituteText, substituted, he, flatMap_append, flatMap_cons]
  exact infix_append' ..

-- The text is a placeholder.
def IsPlaceholder (t : String) : Prop :=
  ∃ p : Placeholder, p.WellFormed ∧ p.text = t

-- Some part of the text is a placeholder.
def HasPlaceholder (t : String) : Prop :=
  ∃ p : Placeholder, p.WellFormed ∧ Text.Within p.text t

-- Placeholders and native references have this shape: no part of one can begin or end another one.
def Closed (cs : List Char) : Prop :=
  ∃ body, cs = '$' :: (body ++ ['\x7d']) ∧ '$' ∉ body ∧ '\x7d' ∉ body

theorem closed_text (h : p.WellFormed) : Closed p.text.toList := by
  refine ⟨opening.tail ++ p.named, ?_, ?_, ?_⟩
  · rw [toList_text]
    rfl
  · rw [mem_append]
    exact not_or.mpr ⟨by decide, notMem_named h (by decide)⟩
  · rw [mem_append]
    exact not_or.mpr ⟨by decide, notMem_named h (by decide)⟩

theorem hasPlaceholder_iff_suffix :
    HasPlaceholder t ↔ ∃ tail, tail <:+ t.toList ∧ ∃ p rest, leading? tail = some (p, rest) := by
  simp only [leading?_eq_some_iff, HasPlaceholder, Text.Within]
  constructor
  case mp =>
    intro ⟨p, hp, before, after, he⟩
    exact ⟨_, ⟨before, by rw [← he, append_assoc]⟩, p, after, hp, rfl⟩
  case mpr =>
    intro ⟨_, ⟨before, he⟩, p, after, hp, ht⟩
    exact ⟨p, hp, before, after, by rw [← he, ht, append_assoc]⟩

theorem length_lt_of_leading? (h : leading? cs = some (p, rest)) : rest.length < cs.length := by
  have ⟨hp, he⟩ := leading?_sound h
  have ⟨_, hb, _⟩ := closed_text hp
  simp only [he, hb, length_append, length_cons]
  omega

theorem ne_nil_of_leading? (h : leading? cs = some (p, rest)) : cs ≠ [] :=
  ne_nil_of_length_pos <| Nat.zero_lt_of_lt <| length_lt_of_leading? h

-- Induction along a text as it is cut into segments.
@[elab_as_elim]
theorem segmentwise {motive : List Char → Prop} (cs : List Char) (nil : motive [])
    (char : ∀ c cs, leading? (c :: cs) = none → motive cs → motive (c :: cs))
    (reference : ∀ c cs p rest, leading? (c :: cs) = some (p, rest) → motive rest →
      motive (c :: cs)) : motive cs := by
  induction hn : cs.length using Nat.strongRecOn generalizing cs
  case ind n ih =>
    cases cs
    case nil => exact nil
    case cons c cs =>
      cases hl : leading? (c :: cs)
      case none => exact char c cs hl <| ih cs.length (by simp [← hn]) cs rfl
      case some found =>
        obtain ⟨p, rest⟩ := found
        have hlt : rest.length < n := hn ▸ length_lt_of_leading? hl
        exact reference c cs p rest hl <| ih rest.length hlt rest rfl

theorem segmentsFrom_skip : segmentsFrom skip cs = segmentsFrom 0 (cs.drop skip) := by
  induction cs generalizing skip
  case nil => cases skip <;> rfl
  case cons c cs ih =>
    cases skip
    case zero => rfl
    case succ skip => simpa [segmentsFrom] using ih

theorem segmentsFrom_cons_none {c : Char} (h : leading? (c :: cs) = none) :
    segmentsFrom 0 (c :: cs) = .char c :: segmentsFrom 0 cs := by
  simp [segmentsFrom, h]

theorem segmentsFrom_cons_some {c : Char} (h : leading? (c :: cs) = some (p, rest)) :
    segmentsFrom 0 (c :: cs) = .reference p :: segmentsFrom 0 rest := by
  have ⟨hp, he⟩ := leading?_sound h
  have ⟨body, hb, _⟩ := closed_text hp
  rw [hb, cons_append, cons.injEq] at he
  have hl : (body ++ ['\x7d']).length = cs.length - rest.length := by
    simp only [he.right, length_append, Nat.add_sub_cancel]
  have hd : cs.drop (cs.length - rest.length) = rest := by rw [← hl, he.right, drop_left]
  simp only [segmentsFrom, h]
  rw [segmentsFrom_skip, hd]

theorem segmentsFrom_text (h : p.WellFormed) :
    segmentsFrom 0 (p.text.toList ++ rest) = .reference p :: segmentsFrom 0 rest := by
  have hl : leading? (p.text.toList ++ rest) = some (p, rest) := leading?_complete h
  have ⟨_, hb, _⟩ := closed_text h
  rw [hb] at hl ⊢
  exact segmentsFrom_cons_some hl

-- Where a text is a placeholder, that one is found and no other.
theorem segments_text (h : p.WellFormed) : segments p.text = [.reference p] := by
  have hs : segmentsFrom 0 (p.text.toList ++ []) = [.reference p] := segmentsFrom_text h
  rwa [append_nil] at hs

theorem inText_text (h : p.WellFormed) : inText p.text = [p] := by
  rw [inText, segments_text h]
  rfl

theorem substituteText_text (h : p.WellFormed) : substituteText f p.text = f p := by
  have hs : segmentsFrom 0 p.text.toList = [.reference p] := segments_text h
  rw [← String.toList_inj, toList_substituteText, substituted, hs, flatMap_singleton, Segment.render]

theorem substituted_cons_none {c : Char} (h : leading? (c :: cs) = none) :
    substituted f 0 (c :: cs) = c :: substituted f 0 cs := by
  simp [substituted, segmentsFrom_cons_none h, Segment.render]

theorem substituted_cons_some {c : Char} (h : leading? (c :: cs) = some (p, rest)) :
    substituted f 0 (c :: cs) = (f p).toList ++ substituted f 0 rest := by
  simp [substituted, segmentsFrom_cons_some h, Segment.render]

-- Up to the first replacement a text is as it was.
theorem isPrefix_of_substituted (hf : ∀ p, p.WellFormed → Closed (f p).toList) (hb : '$' ∉ body)
    (h : body <+: substituted f 0 cs) : body <+: cs := by
  induction body generalizing cs
  case nil => exact nil_prefix
  case cons b body ih =>
    have ⟨hne, hb⟩ := not_or.mp <| mem_cons.not.mp hb
    cases cs
    case nil => simp [substituted, segmentsFrom] at h
    case cons c cs =>
      cases hl : leading? (c :: cs)
      case none =>
        rw [substituted_cons_none hl, cons_prefix_cons] at h
        exact cons_prefix_cons.mpr ⟨h.left, ih hb h.right⟩
      case some found =>
        have ⟨_, hc, _⟩ := hf _ (leading?_sound hl).left
        rw [substituted_cons_some hl, hc, cons_append, cons_prefix_cons] at h
        exact hne h.left.symm |>.elim

-- Two closed texts at the beginning of one text are the same.
theorem Closed.eq_of_append_eq {a b : List Char} (ha : Closed a) (hb : Closed b)
    (h : a ++ rest = b ++ tail) : a = b := by
  obtain ⟨a, rfl, _, ha⟩ := ha
  obtain ⟨b, rfl, _, hb⟩ := hb
  simp only [cons_append, append_assoc, cons.injEq, true_and, nil_append] at h
  rw [eq_of_append_cons_eq ha hb h]

-- Nothing but the whole of a closed text begins as a closed text does.
theorem Closed.eq_nil_of_append {a b : List Char} (ha : Closed (pre ++ a)) (hb : Closed b)
    (hn : a ≠ []) (h : a ++ rest = b ++ tail) : pre = [] := by
  obtain ⟨body, hbody, hd, _⟩ := ha
  obtain ⟨b, rfl, _⟩ := hb
  cases a
  case nil => contradiction
  case cons c a =>
    have hc : c = '$' := (cons.inj h).left
    cases pre
    case nil => rfl
    case cons d pre =>
      have he := (cons.inj hbody).right
      have hm : '$' ∈ body ++ ['\x7d'] := he ▸ hc ▸ by simp
      simp [hd] at hm

-- A closed text that ends in what begins a placeholder is this placeholder.
theorem Closed.eq_text {whole part : List Char} (hc : Closed whole) (hp : part <:+ whole)
    (hn : part ≠ []) (hl : leading? (part ++ tail) = some (q, rest)) : whole = q.text.toList := by
  have ⟨hq, he⟩ := leading?_sound hl
  obtain ⟨pre, rfl⟩ := hp
  have hpre := hc.eq_nil_of_append (closed_text hq) hn he
  rw [hpre, nil_append] at hc ⊢
  exact hc.eq_of_append_eq (closed_text hq) he

-- A closed text has no placeholder but itself.
theorem isPlaceholder_of_closed (hc : Closed t.toList) (h : HasPlaceholder t) : IsPlaceholder t := by
  have ⟨tail, ht, q, rest, hl⟩ := hasPlaceholder_iff_suffix.mp h
  have he : t.toList = q.text.toList :=
    hc.eq_text ht (ne_nil_of_leading? hl) <| (append_nil tail).symm ▸ hl
  exact ⟨q, (leading?_sound hl).left, String.toList_inj.mp he.symm⟩

theorem HasPlaceholder.dollar_mem (h : HasPlaceholder t) : '$' ∈ t.toList := by
  have ⟨q, hq, hw⟩ := h
  have ⟨_, hb, _⟩ := closed_text hq
  exact hw.mem <| hb ▸ mem_cons_self

theorem hasPlaceholder_of_mem_inText (h : p ∈ inText t) : HasPlaceholder t := by
  have ⟨tail, ht, rest, hl⟩ := exists_leading? <| mem_inText.mp h
  exact hasPlaceholder_iff_suffix.mpr ⟨tail, ht, p, rest, hl⟩

-- No placeholder begins with a character that is kept.
theorem leading?_cons_substituted {c : Char} (hf : ∀ p, p.WellFormed → Closed (f p).toList)
    (h : leading? (c :: cs) = none) : leading? (c :: substituted f 0 cs) = none := by
  refine Option.eq_none_iff_forall_ne_some.mpr fun (q, rest) hl => ?_
  have ⟨hq, he⟩ := leading?_sound hl
  have ⟨body, hb, hd, _⟩ := closed_text hq
  rw [hb, cons_append, cons.injEq] at he
  have ⟨after, hp⟩ : body ++ ['\x7d'] <+: cs :=
    isPrefix_of_substituted hf (by simpa using hd) ⟨rest, he.right.symm⟩
  have hcs : c :: cs = q.text.toList ++ after := by rw [he.left, ← hp, hb, cons_append]
  rw [hcs, leading?_complete hq] at h
  contradiction

-- The end of two texts, one behind the other, begins in one of them.
theorem suffix_append_cases {a b : List Char} (h : tail <:+ a ++ b) :
    tail <:+ b ∨ ∃ part, part <:+ a ∧ part ≠ [] ∧ tail = part ++ b := by
  have ⟨pre, he⟩ := h
  obtain ⟨part, ha, ht⟩ | ⟨front, _, hb⟩ := append_eq_append_iff.mp he
  case inr => exact .inl ⟨front, hb.symm⟩
  case inl =>
    by_cases hn : part = []
    case pos => exact .inl <| by simp [ht, hn]
    case neg => exact .inr ⟨part, ⟨pre, ha.symm⟩, hn, ht⟩

-- What begins with a placeholder after substitution begins where a replacement does.
theorem exists_replaced (hf : ∀ p, p.WellFormed → Closed (f p).toList)
    (ht : tail <:+ substituted f 0 cs) (hl : leading? tail = some (q, rest)) :
    ∃ p, .reference p ∈ segmentsFrom 0 cs ∧ (f p).toList = q.text.toList := by
  induction cs using segmentwise
  case nil => exact ne_nil_of_leading? hl (suffix_nil.mp ht) |>.elim
  case char c cs hs ih =>
    rw [segmentsFrom_cons_none hs]
    rw [substituted_cons_none hs, suffix_cons_iff] at ht
    obtain rfl | ht := ht
    · simp [leading?_cons_substituted hf hs] at hl
    · have ⟨p, hp, he⟩ := ih ht
      exact ⟨p, mem_cons_of_mem _ hp, he⟩
  case reference c cs p after hs ih =>
    rw [segmentsFrom_cons_some hs]
    rw [substituted_cons_some hs] at ht
    obtain ht | ⟨part, hp, hn, rfl⟩ := suffix_append_cases ht
    · have ⟨r, hr, he⟩ := ih ht
      exact ⟨r, mem_cons_of_mem _ hr, he⟩
    · exact ⟨p, mem_cons_self, (hf p (leading?_sound hs).left).eq_text hp hn hl⟩

-- After substitution there are the placeholders among the replacements, and no others.
theorem hasPlaceholder_substituteText_iff (hf : ∀ p, p.WellFormed → Closed (f p).toList) :
    HasPlaceholder (substituteText f s) ↔ ∃ p ∈ inText s, IsPlaceholder (f p) := by
  constructor
  case mp =>
    intro h
    have ⟨tail, ht, q, rest, hl⟩ := hasPlaceholder_iff_suffix.mp h
    rw [toList_substituteText] at ht
    have ⟨p, hp, he⟩ := exists_replaced hf ht hl
    exact ⟨p, mem_inText.mpr hp, q, (leading?_sound hl).left, String.toList_inj.mp he.symm⟩
  case mpr =>
    intro ⟨p, hp, q, hq, he⟩
    exact ⟨q, hq, he ▸ within_substituteText hp⟩

end Placeholder

end Lakehouse
