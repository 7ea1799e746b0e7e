import Lakehouse.Proofs.Grammar
import Lakehouse.Proofs.Texts
/-!
Rewriting. From left to right a text is cut at its placeholders, each the first one that begins in what
is left. Substitution keeps what stands between the cuts and puts something else in place of the
placeholders; along a whole value these are the ones that are found by a scan, in the same order.
-/
namespace Lakehouse.Placeholder

open List

variable {f : Placeholder → String} {cs gap rest tail : List Char} {p : Placeholder} {c : Char}
variable {parts : List (List Char × Placeholder)} {found : List Placeholder} {s : String}

-- No placeholder begins in the first part of a text.
def Clear (gap rest : List Char) : Prop :=
  ∀ pre post, gap = pre ++ post → post ≠ [] →
    ∀ p : Placeholder, p.Grammatical → ¬p.text.toList <+: post ++ rest

-- A text with its placeholders, each behind what stands before it, and what comes after all of them.
inductive Cut : List Char → List (List Char × Placeholder) → List Char → Prop
  | last {tail : List Char} (clear : Clear tail []) : Cut tail [] tail
  | next {gap rest tail : List Char} {p : Placeholder} {parts : List (List Char × Placeholder)}
      (clear : Clear gap (p.text.toList ++ rest)) (grammatical : p.Grammatical) :
      Cut rest parts tail → Cut (gap ++ (p.text.toList ++ rest)) ((gap, p) :: parts) tail

-- What is made of a text when each of its placeholders is replaced.
def replaced (f : Placeholder → String) (parts : List (List Char × Placeholder))
    (tail : List Char) : List Char :=
  parts.flatMap (fun (gap, p) => gap ++ (f p).toList) ++ tail

theorem leading?_eq_none_iff : leading? cs = none ↔
    ∀ p : Placeholder, p.Grammatical → ¬p.text.toList <+: cs := by
  constructor
  case mp =>
    intro h p hp ⟨rest, he⟩
    simp [leading?_eq_some_iff.mpr ⟨grammatical_iff.mp hp, he.symm⟩] at h
  case mpr =>
    intro h
    refine Option.eq_none_iff_forall_ne_some.mpr fun (p, rest) hl => ?_
    have ⟨hp, he⟩ := leading?_sound hl
    exact h p (grammatical_iff.mpr hp) ⟨rest, he.symm⟩

theorem clear_nil : Clear [] rest :=
  fun _ _ he hn => hn (append_eq_nil_iff.mp he.symm).right |>.elim

theorem clear_cons_iff : Clear (c :: gap) rest ↔
    leading? (c :: (gap ++ rest)) = none ∧ Clear gap rest := by
  rw [leading?_eq_none_iff]
  constructor
  case mp =>
    intro h
    refine ⟨h [] (c :: gap) rfl (cons_ne_nil c gap), fun pre post he => h (c :: pre) post ?_⟩
    rw [he, cons_append]
  case mpr =>
    intro ⟨hl, h⟩ pre post he hn
    cases pre
    case nil =>
      rw [← he.trans (nil_append post)]
      exact hl
    case cons d pre => exact h pre post (cons.inj he).right hn

theorem segmentsFrom_clear (h : Clear gap rest) :
    segmentsFrom 0 (gap ++ rest) = gap.map .char ++ segmentsFrom 0 rest := by
  induction gap
  case nil => rfl
  case cons c gap ih =>
    have ⟨hl, h⟩ := clear_cons_iff.mp h
    rw [cons_append, segmentsFrom_cons_none hl, ih h, map_cons, cons_append]

namespace Cut

-- The segments of a text are its cuts, character by character.
theorem segments (k : Cut cs parts tail) : segmentsFrom 0 cs =
    parts.flatMap (fun (gap, p) => gap.map .char ++ [.reference p]) ++ tail.map .char := by
  induction k
  case last h => simpa [segmentsFrom] using segmentsFrom_clear h
  case next h hp _ ih => simp [segmentsFrom_clear h, segmentsFrom_text (grammatical_iff.mp hp), ih]

theorem inText (k : Cut s.toList parts tail) : Placeholder.inText s = parts.map Prod.snd := by
  have hg : ∀ gap : List Char, (gap.map Segment.char).filterMap Segment.reference? = [] := by
    simp [filterMap_map, Segment.reference?, Function.comp_def]
  rw [Placeholder.inText, Placeholder.segments, k.segments, filterMap_append, filterMap_flatMap]
  simp [hg, Segment.reference?, ← map_eq_flatMap]

theorem substituted (k : Cut cs parts tail) :
    Placeholder.substituted f 0 cs = replaced f parts tail := by
  have hg : ∀ gap : List Char, (gap.map Segment.char).flatMap (fun x => (x.render f).toList) = gap := by
    simp [flatMap_map, Segment.render]
  have hp : ∀ p : Placeholder, ((Segment.reference p).render f).toList = (f p).toList := fun _ => rfl
  rw [Placeholder.substituted, k.segments, flatMap_append, flatMap_assoc, replaced]
  simp [hg, hp]

-- What is cut is the whole text.
theorem replaced_text (k : Cut cs parts tail) : replaced text parts tail = cs := by
  induction k
  case last          => rfl
  case next _ _ _ ih => simpa [replaced] using ih

theorem cons (h : leading? (c :: cs) = none) (k : Cut cs parts tail) :
    ∃ parts tail, Cut (c :: cs) parts tail := by
  cases k
  case last hc => exact ⟨_, _, .last <| clear_cons_iff.mpr ⟨by simpa using h, hc⟩⟩
  case next hc hp k => exact ⟨_, _, .next (clear_cons_iff.mpr ⟨h, hc⟩) hp k⟩

end Cut

-- Every text can be cut.
theorem exists_cut (cs : List Char) : ∃ parts tail, Cut cs parts tail := by
  induction cs using segmentwise
  case nil => exact ⟨[], [], .last clear_nil⟩
  case char hl ih =>
    obtain ⟨_, _, k⟩ := ih
    exact k.cons hl
  case reference hl ih =>
    obtain ⟨_, _, k⟩ := ih
    obtain ⟨hp, he⟩ := leading?_sound hl
    rw [he]
    exact ⟨_, _, .next clear_nil (grammatical_iff.mpr hp) k⟩

theorem substituteText_self (s : String) : substituteText text s = s := by
  obtain ⟨_, _, k⟩ := exists_cut s.toList
  rw [← String.toList_inj, toList_substituteText, k.substituted, k.replaced_text]

-- Only texts with an opening have a placeholder.
theorem hasOpening_of_within (h : Text.Within p.text s) : hasOpening s.toList := by
  have ho : opening <:+: p.text.toList := by
    rw [toList_text, append_assoc]
    exact (prefix_append ..).isInfix
  exact hasOpening_iff.mpr (ho.trans h)

mutual

-- A value is rewritten to another one, which differs in the texts only: each has replacements for its
-- placeholders, and these are listed from first to last.
inductive Rewrites (f : Placeholder → String) : Value → List Placeholder → Value → Prop
  | null : Rewrites f .null [] .null
  | bool (b : Bool) : Rewrites f (.bool b) [] (.bool b)
  | number (n : Number) : Rewrites f (.number n) [] (.number n)
  | string {s t : String} {parts : List (List Char × Placeholder)} {tail : List Char}
      (cut : Cut s.toList parts tail) (text : t.toList = replaced f parts tail) :
      Rewrites f (.string s) (parts.map Prod.snd) (.string t)
  | array {items items' : List Value} {found : List Placeholder} :
      RewritesItems f items found items' → Rewrites f (.array items) found (.array items')
  | object {fields fields' : List (String × Value)} {found : List Placeholder} :
      RewritesFields f fields found fields' → Rewrites f (.object fields) found (.object fields')

inductive RewritesItems (f : Placeholder → String) :
    List Value → List Placeholder → List Value → Prop
  | nil : RewritesItems f [] [] []
  | cons {v v' : Value} {items items' : List Value} {found later : List Placeholder} :
      Rewrites f v found v' → RewritesItems f items later items' →
      RewritesItems f (v :: items) (found ++ later) (v' :: items')

inductive RewritesFields (f : Placeholder → String) :
    List (String × Value) → List Placeholder → List (String × Value) → Prop
  | nil : RewritesFields f [] [] []
  | cons {key : String} {v v' : Value} {fields fields' : List (String × Value)}
      {found later : List Placeholder} :
      Rewrites f v found v' → RewritesFields f fields later fields' →
      RewritesFields f ((key, v) :: fields) (found ++ later) ((key, v') :: fields')

end

mutual

-- Substitution rewrites a value.
theorem rewrites_substitute (v : Value) :
    Rewrites f v (v.texts.flatMap inText) (substitute f v) := by
  cases v <;> simp only [Value.texts, substitute]
  case null          => exact .null
  case bool b        => exact .bool b
  case number n      => exact .number n
  case array items   => exact .array (rewritesItems_substitute items)
  case object fields => exact .object (rewritesFields_substitute fields)
  case string s      =>
    obtain ⟨_, _, k⟩ := exists_cut s.toList
    rw [flatMap_singleton, k.inText]
    exact .string k <| toList_substituteText.trans k.substituted
termination_by structural v

theorem rewritesItems_substitute (items : List Value) :
    RewritesItems f items ((Value.textsOfItems items).flatMap inText) (substituteItems f items) := by
  cases items
  case nil          => exact .nil
  case cons v items =>
    rw [Value.textsOfItems, substituteItems, flatMap_append]
    exact .cons (rewrites_substitute v) (rewritesItems_substitute items)
termination_by structural items

theorem rewritesFields_substitute (fields : List (String × Value)) :
    RewritesFields f fields ((Value.textsOfFields fields).flatMap inText)
      (substituteFields f fields) := by
  match fields with
  | []                 => exact .nil
  | (key, v) :: fields =>
    rw [Value.textsOfFields, substituteFields, flatMap_append]
    exact .cons (rewrites_substitute v) (rewritesFields_substitute fields)
termination_by structural fields

end

mutual

-- There is no other way to rewrite it.
theorem Rewrites.eq {v w : Value} {found : List Placeholder} : Rewrites f v found w →
    found = v.texts.flatMap inText ∧ w = substitute f v
  | .null | .bool _ | .number _ => ⟨rfl, rfl⟩
  | .string cut text            => by
    rw [← cut.substituted, ← toList_substituteText, String.toList_inj] at text
    rw [Value.texts, flatMap_singleton, substitute, cut.inText, text]
    exact ⟨rfl, rfl⟩
  | .array h                    => by
    obtain ⟨rfl, rfl⟩ := RewritesItems.eq h
    exact ⟨rfl, rfl⟩
  | .object h                   => by
    obtain ⟨rfl, rfl⟩ := RewritesFields.eq h
    exact ⟨rfl, rfl⟩

theorem RewritesItems.eq {items items' : List Value} {found : List Placeholder} :
    RewritesItems f items found items' →
      found = (Value.textsOfItems items).flatMap inText ∧ items' = substituteItems f items
  | .nil       => ⟨rfl, rfl⟩
  | .cons h hs => by
    obtain ⟨rfl, rfl⟩ := Rewrites.eq h
    obtain ⟨rfl, rfl⟩ := RewritesItems.eq hs
    rw [Value.textsOfItems, flatMap_append, substituteItems]
    exact ⟨rfl, rfl⟩

theorem RewritesFields.eq {fields fields' : List (String × Value)} {found : List Placeholder} :
    RewritesFields f fields found fields' →
      found = (Value.textsOfFields fields).flatMap inText ∧ fields' = substituteFields f fields
  | .nil       => ⟨rfl, rfl⟩
  | .cons h hs => by
    obtain ⟨rfl, rfl⟩ := Rewrites.eq h
    obtain ⟨rfl, rfl⟩ := RewritesFields.eq hs
    rw [Value.textsOfFields, flatMap_append, substituteFields]
    exact ⟨rfl, rfl⟩

end

theorem rewrites_iff {v w : Value} : Rewrites f v found w ↔
    found = v.texts.flatMap inText ∧ w = substitute f v := by
  constructor
  case mp  => exact Rewrites.eq
  case mpr =>
    rintro ⟨rfl, rfl⟩
    exact rewrites_substitute v

mutual

theorem substitute_text (v : Value) : substitute text v = v := by
  cases v <;> rw [substitute]
  case string s      => rw [substituteText_self]
  case array items   => rw [substituteItems_text items]
  case object fields => rw [substituteFields_text fields]
termination_by structural v

theorem substituteItems_text (items : List Value) : substituteItems text items = items := by
  cases items
  case nil          => rfl
  case cons v items => rw [substituteItems, substitute_text v, substituteItems_text items]
termination_by structural items

theorem substituteFields_text (fields : List (String × Value)) :
    substituteFields text fields = fields := by
  match fields with
  | []                 => rfl
  | (key, v) :: fields => rw [substituteFields, substitute_text v, substituteFields_text fields]
termination_by structural fields

end

-- Substitution rewrites what a scan finds and nothing else, it leaves a value as it is if it puts each
-- placeholder in its own place, and no text with a placeholder is passed over.
theorem substitute_exact (f : Placeholder → String) :
    (∀ properties found v, Rewrites f (.object properties) found v ↔
      found = (scan properties).map Prod.snd ∧ v = substitute f (.object properties)) ∧
    (∀ v, substitute text v = v) ∧
    ∀ s (p : Placeholder), Text.Within p.text s → hasOpening s.toList := by
  refine ⟨fun properties found v => ?_, substitute_text, fun _ _ => hasOpening_of_within⟩
  rw [scan_placeholders]
  exact rewrites_iff

-- Placeholders side by side, one where another one was begun, and one that is not ended.
def crowdedProperties : Properties :=
  [("size", .number (.int 3)),
   ("names", .array [
    .string "$$\x7bresources.a\x7d$\x7bresources.b.id\x7d",
    .string "$\x7bresources.$\x7bresources.c\x7d\x7d$\x7bresources.d"])]

theorem substitute_exact_crowdedProperties :
    Rewrites Placeholder.resource (.object crowdedProperties)
      [⟨"a", none⟩, ⟨"b", some "id"⟩, ⟨"c", none⟩]
      (.object [
        ("size", .number (.int 3)),
        ("names", .array [.string "$ab", .string "$\x7bresources.c\x7d$\x7bresources.d"])]) ∧
    Text.Within "$\x7bresources.c\x7d" "$\x7bresources.$\x7bresources.c\x7d\x7d" ∧
    hasOpening "$\x7bresources.$\x7bresources.c\x7d\x7d".toList := by
  obtain ⟨hr, _, ho⟩ := substitute_exact Placeholder.resource
  have hw : Text.Within "$\x7bresources.c\x7d" "$\x7bresources.$\x7bresources.c\x7d\x7d" := by
    decide +kernel
  exact ⟨hr _ _ _ |>.mpr ⟨by decide +kernel, rfl⟩, hw, ho _ ⟨"c", none⟩ hw⟩

end Lakehouse.Placeholder
