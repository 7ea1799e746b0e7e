import Mathlib.Data.List.Forall2

namespace Lakehouse.Attempt

variable {ε α β : Type} {a : α} {b : β} {e : ε} {x : Except ε α} {f : α → Except ε β}
variable {xs : List α} {ys : List β}

@[simp]
theorem pure_eq_ok : (pure a : Except ε α) = .ok a :=
  rfl

@[simp]
theorem throw_eq_error : (throw e : Except ε α) = .error e :=
  rfl

@[simp]
theorem ok_bind : (Except.ok a >>= f) = f a :=
  rfl

@[simp]
theorem error_bind : (Except.error e >>= f) = .error e :=
  rfl

theorem bind_ok_iff : (x >>= f) = .ok b ↔ ∃ a, x = .ok a ∧ f a = .ok b := by
  cases x <;> simp

theorem bind_error_iff : (x >>= f) = .error e ↔ x = .error e ∨ ∃ a, x = .ok a ∧ f a = .error e := by
  cases x <;> simp

theorem mapError_ok_iff {ε' : Type} {f : ε → ε'} : x.mapError f = .ok a ↔ x = .ok a := by
  cases x <;> simp [Except.mapError]

theorem eq_ok_of_isSome [Inhabited α] (h : x.toOption.isSome) :
    x = .ok (x.toOption.getD default) := by
  cases x
  case ok    => rfl
  case error => contradiction

theorem mapM_ok_iff : xs.mapM f = .ok ys ↔ List.Forall₂ (fun x y => f x = .ok y) xs ys := by
  induction xs generalizing ys
  case nil => cases ys <;> simp
  case cons x xs ih =>
    cases ys <;> simp only [List.mapM_cons, bind_ok_iff, pure_eq_ok, List.forall₂_cons]
    case nil       => simp
    case cons y ys => simp [← ih]

theorem mapM_ok_iff_forall₂ {r : α → β → Prop} (h : ∀ x ∈ xs, ∀ y, f x = .ok y ↔ r x y) :
    xs.mapM f = .ok ys ↔ List.Forall₂ r xs ys := by
  rw [mapM_ok_iff]
  induction xs generalizing ys
  case nil => cases ys <;> simp
  case cons x xs ih =>
    have ⟨hx, hs⟩ := List.forall_mem_cons.mp h
    cases ys
    case nil       => simp
    case cons y ys => simp [hx, ih hs]

-- The first element that fails decides the error.
theorem mapM_error_iff : xs.mapM f = .error e ↔
    ∃ pre x post, xs = pre ++ x :: post ∧ (∀ y ∈ pre, ∃ b, f y = .ok b) ∧ f x = .error e := by
  induction xs
  case nil => simp
  case cons x xs ih =>
    simp only [List.mapM_cons, bind_error_iff, pure_eq_ok, reduceCtorEq, and_false, exists_false,
      or_false, ih]
    constructor
    case mp =>
      intro h
      cases h
      case inl h => exact ⟨[], x, xs, rfl, by simp, h⟩
      case inr h =>
        have ⟨b, hb, pre, y, post, hx, hp, hy⟩ := h
        exact ⟨x :: pre, y, post, by simp [hx], by simpa [hb] using hp, hy⟩
    case mpr =>
      intro ⟨pre, y, post, hx, hp, hy⟩
      cases pre <;> simp only [List.nil_append, List.cons_append, List.cons.injEq] at hx
      case nil => exact .inl <| hx.left ▸ hy
      case cons z pre =>
        have ⟨hz, hp⟩ := List.forall_mem_cons.mp hp
        have ⟨b, hb⟩ := hx.left ▸ hz
        exact .inr ⟨b, hb, pre, y, post, hx.right, hp, hy⟩

theorem isOk_iff : (∃ a, x = .ok a) ↔ ∀ e, x ≠ .error e := by
  cases x <;> simp

theorem isError_iff : (∃ e, x = .error e) ↔ ¬∃ a, x = .ok a := by
  cases x <;> simp

-- Computations that fail alike do so along a list.
theorem mapM_error_congr {γ : Type} {g : α → Except ε γ}
    (h : ∀ x ∈ xs, ∀ e, f x = .error e ↔ g x = .error e) :
    xs.mapM f = .error e ↔ xs.mapM g = .error e := by
  have ho : ∀ x ∈ xs, (∃ b, f x = .ok b) ↔ ∃ c, g x = .ok c := by
    intro x hx
    simp only [isOk_iff, ne_eq, h x hx]
  simp only [mapM_error_iff]
  constructor
  case mp =>
    rintro ⟨pre, x, post, rfl, hp, hx⟩
    refine ⟨pre, x, post, rfl, fun y hy => ?_, h x (by simp) e |>.mp hx⟩
    exact ho y (by simp [hy]) |>.mp (hp y hy)
  case mpr =>
    rintro ⟨pre, x, post, rfl, hp, hx⟩
    refine ⟨pre, x, post, rfl, fun y hy => ?_, h x (by simp) e |>.mpr hx⟩
    exact ho y (by simp [hy]) |>.mpr (hp y hy)

-- Computations that fail as rows of others do so along a list.
theorem mapM_flatMap_error_iff {γ δ : Type} {row : α → List γ} {g : γ → Except ε δ}
    (h : ∀ x ∈ xs, ∀ e, f x = .error e ↔ (row x).mapM g = .error e) :
    xs.mapM f = .error e ↔ (xs.flatMap row).mapM g = .error e := by
  induction xs
  case nil => simp
  case cons x xs ih =>
    have ⟨hx, hs⟩ := List.forall_mem_cons.mp h
    have ho : (∃ b, f x = .ok b) ↔ ∃ c, (row x).mapM g = .ok c := by
      simp only [isOk_iff, ne_eq, hx]
    rw [List.flatMap_cons, List.mapM_append, List.mapM_cons, bind_error_iff, bind_error_iff, hx e]
    simp only [bind_error_iff, pure_eq_ok, reduceCtorEq, and_false, exists_false, or_false, ih hs,
      exists_and_right, ho]

theorem exists_of_forall₂_left {r : α → β → Prop} {a : α} (h : List.Forall₂ r xs ys)
    (ha : a ∈ xs) : ∃ b ∈ ys, r a b := by
  induction h
  case nil => contradiction
  case cons hr _ ih =>
    cases ha
    case head    => exact ⟨_, List.mem_cons_self, hr⟩
    case tail ha =>
      have ⟨b, hb, h⟩ := ih ha
      exact ⟨b, List.mem_cons_of_mem _ hb, h⟩

theorem exists_of_forall₂_right {r : α → β → Prop} {b : β} (h : List.Forall₂ r xs ys)
    (hb : b ∈ ys) : ∃ a ∈ xs, r a b :=
  exists_of_forall₂_left h.flip hb

theorem exists_iff_of_forall₂ {r : α → β → Prop} {P : α → Prop} {Q : β → Prop}
    (h : List.Forall₂ r xs ys) (hpq : ∀ x ∈ xs, ∀ y ∈ ys, r x y → (P x ↔ Q y)) :
    (∃ x ∈ xs, P x) ↔ ∃ y ∈ ys, Q y := by
  constructor
  case mp =>
    intro ⟨x, hx, hp⟩
    have ⟨y, hy, hr⟩ := exists_of_forall₂_left h hx
    exact ⟨y, hy, hpq x hx y hy hr |>.mp hp⟩
  case mpr =>
    intro ⟨y, hy, hq⟩
    have ⟨x, hx, hr⟩ := exists_of_forall₂_right h hy
    exact ⟨x, hx, hpq x hx y hy hr |>.mpr hq⟩

theorem forall₂_iff_forall {r q : α → β → Prop} {P : α → Prop} (h : List.Forall₂ r xs ys)
    (hq : ∀ x ∈ xs, ∀ y, r x y → (q x y ↔ P x)) : List.Forall₂ q xs ys ↔ ∀ x ∈ xs, P x := by
  induction h
  case nil => simp
  case cons x y _ _ hr _ ih =>
    have ⟨hx, hxs⟩ := List.forall_mem_cons.mp hq
    rw [List.forall₂_cons, List.forall_mem_cons, hx y hr, ih hxs]

theorem forall₂_map_eq {γ : Type} {r : α → β → Prop} {k : α → γ} {l : β → γ}
    (h : ∀ x y, r x y → l y = k x) (hf : List.Forall₂ r xs ys) : ys.map l = xs.map k := by
  induction hf
  case nil => rfl
  case cons hr _ ih => rw [List.map_cons, List.map_cons, h _ _ hr, ih]

theorem forall₂_zipIdx {r : α → β → Prop} (h : List.Forall₂ r xs ys) (k : Nat) :
    List.Forall₂ (fun x y => r x.1 y.1 ∧ y.2 = x.2) (xs.zipIdx k) (ys.zipIdx k) := by
  induction h generalizing k
  case nil          => exact .nil
  case cons hr _ ih => exact .cons ⟨hr, rfl⟩ (ih (k + 1))

theorem exists_forall₂_iff {r : α → β → Prop} :
    (∃ ys, List.Forall₂ r xs ys) ↔ ∀ x ∈ xs, ∃ y, r x y := by
  constructor
  case mp =>
    intro ⟨ys, h⟩ x hx
    have ⟨y, _, hy⟩ := exists_of_forall₂_left h hx
    exact ⟨y, hy⟩
  case mpr =>
    intro h
    induction xs
    case nil => exact ⟨[], .nil⟩
    case cons x xs ih =>
      have ⟨⟨y, hy⟩, hs⟩ := List.forall_mem_cons.mp h
      have ⟨ys, hys⟩ := ih hs
      exact ⟨y :: ys, .cons hy hys⟩

theorem exists_of_mapM_ok {a : α} (h : xs.mapM f = .ok ys) (ha : a ∈ xs) :
    ∃ b ∈ ys, f a = .ok b :=
  exists_of_forall₂_left (mapM_ok_iff.mp h) ha

theorem exists_of_mem_mapM {b : β} (h : xs.mapM f = .ok ys) (hb : b ∈ ys) :
    ∃ a ∈ xs, f a = .ok b :=
  exists_of_forall₂_right (r := fun a b => f a = .ok b) (mapM_ok_iff.mp h) hb

theorem mapM_isOk_iff : (∃ ys, xs.mapM f = .ok ys) ↔ ∀ x ∈ xs, ∃ y, f x = .ok y := by
  simp only [mapM_ok_iff, exists_forall₂_iff]

theorem mapM_eq_map {g : α → β} (h : ∀ x ∈ xs, f x = .ok (g x)) : xs.mapM f = .ok (xs.map g) :=
  mapM_ok_iff.mpr <| List.forall₂_map_right_iff.mpr <| List.forall₂_same.mpr h

-- Where every step is checked and then computed, so is the whole.
theorem mapM_ok_iff_map {g : α → β} {check : α → Prop}
    (h : ∀ x ∈ xs, ∀ y, f x = .ok y ↔ check x ∧ g x = y) :
    xs.mapM f = .ok ys ↔ (∀ x ∈ xs, check x) ∧ xs.map g = ys := by
  constructor
  case mp =>
    intro hm
    have hc : ∀ x ∈ xs, check x := by
      intro x hx
      have ⟨y, _, hy⟩ := exists_of_mapM_ok hm hx
      exact h x hx y |>.mp hy |>.left
    have he := mapM_eq_map fun x hx => h x hx _ |>.mpr ⟨hc x hx, rfl⟩
    exact ⟨hc, by simpa using he.symm.trans hm⟩
  case mpr =>
    intro ⟨hc, he⟩
    exact he ▸ mapM_eq_map fun x hx => h x hx _ |>.mpr ⟨hc x hx, rfl⟩

-- What is made of related elements is made alike.
theorem mapM_forall₂ {r : α → α → Prop} {q : β → β → Prop} {xs' : List α}
    (hf : ∀ x x' y, r x x' → f x = .ok y → ∃ y', f x' = .ok y' ∧ q y y')
    (hx : List.Forall₂ r xs xs') (h : xs.mapM f = .ok ys) :
    ∃ ys', xs'.mapM f = .ok ys' ∧ List.Forall₂ q ys ys' := by
  simp only [mapM_ok_iff] at h ⊢
  induction hx generalizing ys
  case nil =>
    cases h
    exact ⟨[], .nil, .nil⟩
  case cons hr _ ih =>
    cases h
    case cons hy h =>
      have ⟨y', hy', hq⟩ := hf _ _ _ hr hy
      have ⟨ys', hys', hqs⟩ := ih h
      exact ⟨y' :: ys', .cons hy' hys', .cons hq hqs⟩

-- What is made of more elements has in it what is made of less.
theorem mapM_sublistForall₂ {r : α → α → Prop} {q : β → β → Prop} {xs' : List α} {ys' : List β}
    (hf : ∀ x x' y y', r x x' → f x = .ok y → f x' = .ok y' → q y y')
    (hx : List.SublistForall₂ r xs xs') (h : xs.mapM f = .ok ys) (h' : xs'.mapM f = .ok ys') :
    List.SublistForall₂ q ys ys' := by
  rw [mapM_ok_iff] at h h'
  induction hx generalizing ys ys'
  case nil =>
    cases h
    exact .nil
  case cons hr _ ih =>
    cases h
    cases h'
    case cons.cons hy h _ _ hy' h' => exact .cons (hf _ _ _ _ hr hy hy') (ih h h')
  case cons_right ih =>
    cases h'
    case cons h' => exact .cons_right (ih h h')

theorem mapM_sublist {xs' : List α} {ys' : List β} (hx : xs.Sublist xs') (h : xs.mapM f = .ok ys)
    (h' : xs'.mapM f = .ok ys') : ys.Sublist ys' := by
  rw [mapM_ok_iff] at h h'
  induction hx generalizing ys ys'
  case slnil =>
    cases h
    exact List.nil_sublist _
  case cons ih =>
    cases h'
    case cons h' => exact ih h h' |>.cons _
  case cons_cons ih =>
    cases h
    cases h'
    case cons.cons hy h _ _ hy' h' =>
      cases hy.symm.trans hy'
      exact ih h h' |>.cons_cons _

theorem mapM_bind_ok {γ : Type} {g : β → γ} :
    xs.mapM (fun x => do .ok (g (← f x))) = (do let ys ← xs.mapM f; .ok (ys.map g)) := by
  induction xs
  case nil => rfl
  case cons x xs ih =>
    rw [List.mapM_cons, List.mapM_cons, ih]
    cases f x
    case error e => rfl
    case ok y    => cases xs.mapM f <;> rfl

-- Results that are taken up as they come are those that are computed first and taken up then.
theorem foldlM_eq_mapM {γ : Type} {add : γ → β → γ} {c : γ} :
    xs.foldlM (fun c x => do .ok (add c (← f x))) c =
      (do let ys ← xs.mapM f; .ok (ys.foldl add c)) := by
  induction xs generalizing c
  case nil => rfl
  case cons x xs ih =>
    rw [List.foldlM_cons, List.mapM_cons]
    cases f x
    case error e => rfl
    case ok y =>
      simp only [ok_bind, ih]
      cases xs.mapM f <;> rfl

theorem forM_ok_iff {f : α → Except ε Unit} : xs.forM f = .ok () ↔ ∀ x ∈ xs, f x = .ok () := by
  induction xs
  case nil => simp
  case cons x xs ih =>
    simp only [List.forM_eq_forM, List.forM_cons, bind_ok_iff, List.forall_mem_cons] at ih ⊢
    rw [ih, exists_and_right]
    exact and_congr_left fun _ => ⟨fun ⟨_, h⟩ => h, fun h => ⟨_, h⟩⟩

theorem forM_error_iff {f : α → Except ε Unit} : xs.forM f = .error e ↔
    ∃ pre x post, xs = pre ++ x :: post ∧ (∀ y ∈ pre, f y = .ok ()) ∧ f x = .error e := by
  induction xs
  case nil => simp
  case cons x xs ih =>
    simp only [List.forM_eq_forM, List.forM_cons, bind_error_iff] at ih ⊢
    rw [ih]
    constructor
    case mp =>
      intro h
      obtain h | ⟨_, hx, pre, y, post, rfl, hp, hy⟩ := h
      · exact ⟨[], x, xs, rfl, by simp, h⟩
      · exact ⟨x :: pre, y, post, rfl, List.forall_mem_cons.mpr ⟨hx, hp⟩, hy⟩
    case mpr =>
      intro ⟨pre, y, post, hx, hp, hy⟩
      cases pre <;> cases hx
      case nil => exact .inl hy
      case cons pre =>
        obtain ⟨hx, hp⟩ := List.forall_mem_cons.mp hp
        exact .inr ⟨(), hx, pre, y, post, rfl, hp, hy⟩

-- Steps that are the same along two lists are the same on the whole.
theorem mapM_congr_forall₂ {γ : Type} {g : β → Except ε γ} {f : α → Except ε γ}
    (h : List.Forall₂ (fun x y => g y = f x) xs ys) : ys.mapM g = xs.mapM f := by
  induction h
  case nil          => rfl
  case cons hx _ ih => rw [List.mapM_cons, List.mapM_cons, hx, ih]

theorem forM_congr_forall₂ {f : α → Except ε Unit} {g : β → Except ε Unit}
    (h : List.Forall₂ (fun x y => g y = f x) xs ys) : ys.forM g = xs.forM f := by
  induction h
  case nil          => rfl
  case cons hx _ ih => rw [List.forM, List.forM, hx, ih]

-- Two attempts that end alike: with the same error, or with results that are related.
inductive Alike {ε α β : Type} (R : α → β → Prop) : Except ε α → Except ε β → Prop
  | ok {a : α} {b : β} (h : R a b) : Alike R (.ok a) (.ok b)
  | error (e : ε) : Alike R (.error e) (.error e)

namespace Alike

variable {α' β' : Type} {R : α → α' → Prop} {Q : β → β' → Prop} {x' : Except ε α'}

theorem refl {R : α → α → Prop} (hr : ∀ a, R a a) (x : Except ε α) : Alike R x x := by
  cases x
  case ok a    => exact .ok (hr a)
  case error e => exact .error e

theorem eq {y : Except ε α} (h : Alike Eq x y) : y = x := by
  cases h
  case ok h    => rw [h]
  case error e => rfl

theorem bind {f' : α' → Except ε β'} (h : Alike R x x')
    (hf : ∀ a a', R a a' → Alike Q (f a) (f' a')) : Alike Q (x >>= f) (x' >>= f') := by
  cases h
  case ok h    => exact hf _ _ h
  case error e => exact .error e

-- Both go on from the same attempt.
theorem bind_same {f' : α → Except ε β'} (h : ∀ a, Alike Q (f a) (f' a)) :
    Alike Q (x >>= f) (x >>= f') := by
  cases x
  case ok a    => exact h a
  case error e => exact .error e

theorem mapM {f' : α' → Except ε β'} {xs' : List α'}
    (h : List.Forall₂ (fun a a' => Alike Q (f a) (f' a')) xs xs') :
    Alike (List.Forall₂ Q) (xs.mapM f) (xs'.mapM f') := by
  induction h
  case nil => exact .ok .nil
  case cons hx _ ih =>
    rw [List.mapM_cons, List.mapM_cons]
    exact hx.bind fun _ _ hy => ih.bind fun _ _ hs => .ok <| .cons hy hs

end Alike

-- A computation that ends with no errors but these.
def FailsOnly (P : ε → Prop) (x : Except ε α) : Prop :=
  ∀ e, x = .error e → P e

namespace FailsOnly

variable {P Q : ε → Prop} {y : Except ε α}

theorem ok : FailsOnly P (.ok a : Except ε α) :=
  fun _ h => nomatch h

theorem error (h : P e) : FailsOnly P (.error e : Except ε α) :=
  fun _ he => Except.error.inj he ▸ h

theorem mono (h : FailsOnly P x) (hq : ∀ e, P e → Q e) : FailsOnly Q x :=
  fun e he => hq e <| h e he

theorem ite {c : Prop} [Decidable c] (h : FailsOnly P x) (h' : FailsOnly P y) :
    FailsOnly P (if c then x else y) := by
  split
  · exact h
  · exact h'

theorem bind (h : FailsOnly P x) (hf : ∀ a, x = .ok a → FailsOnly P (f a)) :
    FailsOnly P (x >>= f) := by
  intro e he
  obtain he | ⟨a, ha, he⟩ := bind_error_iff.mp he
  · exact h e he
  · exact hf a ha e he

theorem mapM (h : ∀ a ∈ xs, FailsOnly P (f a)) : FailsOnly P (xs.mapM f) := by
  intro e he
  obtain ⟨pre, a, post, rfl, _, ha⟩ := mapM_error_iff.mp he
  exact h a (by simp) e ha

theorem forM {f : α → Except ε Unit} (h : ∀ a ∈ xs, FailsOnly P (f a)) :
    FailsOnly P (xs.forM f) := by
  intro e he
  obtain ⟨pre, a, post, rfl, _, ha⟩ := forM_error_iff.mp he
  exact h a (by simp) e ha

end FailsOnly

end Lakehouse.Attempt
