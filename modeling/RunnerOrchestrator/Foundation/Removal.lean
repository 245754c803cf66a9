import Mathlib.Data.List.Basic
import Mathlib.Data.List.Perm.Basic

/-! # Removing one element of a list

Two ways of unlinking a single element, by a test and by a position, and the
relation `Removes` both refine: one element leaves, all others keep their order.
-/

namespace Removal

variable {α β : Type*}

/-- `r` is `l` without one occurrence of `x`, everything else in order. -/
def Removes (l : List α) (x : α) (r : List α) : Prop :=
  ∃ a b, l = a ++ x :: b ∧ r = a ++ b

theorem Removes.perm {l r : List α} {x : α} (h : Removes l x r) : l.Perm (x :: r) := by
  obtain ⟨a, b, rfl, rfl⟩ := h
  exact List.perm_middle

theorem Removes.length {l r : List α} {x : α} (h : Removes l x r) :
    l.length = r.length + 1 := by
  simpa using h.perm.length_eq

theorem Removes.mem {l r : List α} {x : α} (h : Removes l x r) : x ∈ l :=
  h.perm.mem_iff.mpr List.mem_cons_self

theorem Removes.ne_nil {l r : List α} {x : α} (h : Removes l x r) : l ≠ [] :=
  List.ne_nil_of_mem h.mem

theorem Removes.mem_of_mem {l r : List α} {x y : α} (h : Removes l x r) (hy : y ∈ r) : y ∈ l :=
  h.perm.mem_iff.mpr (List.mem_cons_of_mem x hy)

theorem Removes.map (f : α → β) {l r : List α} {x : α} (h : Removes l x r) :
    Removes (l.map f) (f x) (r.map f) := by
  obtain ⟨a, b, rfl, rfl⟩ := h
  exact ⟨a.map f, b.map f, by simp, by simp⟩

theorem Removes.countP (p : α → Bool) {l r : List α} {x : α} (h : Removes l x r) :
    l.countP p = r.countP p + if p x then 1 else 0 := by
  rw [h.perm.countP_eq, List.countP_cons]

theorem removes_head (x : α) (r : List α) : Removes (x :: r) x r := ⟨[], r, rfl, rfl⟩

/-! ## By a test -/

/-- Unlink the first element that passes `p`. -/
def takeFirst (p : α → Bool) : List α → Option (α × List α)
  | [] => none
  | x :: xs => if p x then some (x, xs) else (takeFirst p xs).map fun out => (out.1, x :: out.2)

theorem takeFirst_eq_some {p : α → Bool} {l r : List α} {x : α} :
    takeFirst p l = some (x, r) ↔
      ∃ a b, l = a ++ x :: b ∧ r = a ++ b ∧ p x = true ∧ ∀ y ∈ a, p y = false := by
  induction l generalizing x r with
  | nil => simp [takeFirst]
  | cons y ys ih =>
      by_cases hy : p y = true
      · simp only [takeFirst, hy, if_true, Option.some.injEq, Prod.mk.injEq]
        constructor
        · rintro ⟨rfl, rfl⟩
          exact ⟨[], ys, rfl, rfl, hy, by simp⟩
        · rintro ⟨a, b, hl, rfl, hx, ha⟩
          cases a with
          | nil => simpa using hl
          | cons z a =>
              obtain ⟨rfl, rfl⟩ := List.cons.inj hl
              simp [ha y (by simp)] at hy
      · simp only [takeFirst, if_neg hy, Option.map_eq_some_iff, Prod.mk.injEq]
        constructor
        · rintro ⟨⟨x', r'⟩, hrec, rfl, rfl⟩
          obtain ⟨a, b, rfl, rfl, hx, ha⟩ := ih.mp hrec
          exact ⟨y :: a, b, rfl, rfl, hx, by simpa [hy] using ha⟩
        · rintro ⟨a, b, hl, rfl, hx, ha⟩
          cases a with
          | nil =>
              obtain ⟨rfl, rfl⟩ := List.cons.inj hl
              exact absurd hx hy
          | cons z a =>
              obtain ⟨rfl, rfl⟩ := List.cons.inj hl
              refine ⟨(x, a ++ b), ih.mpr ⟨a, b, rfl, rfl, hx, ?_⟩, rfl, rfl⟩
              exact fun w hw => ha w (List.mem_cons_of_mem _ hw)

theorem takeFirst_eq_none {p : α → Bool} {l : List α} :
    takeFirst p l = none ↔ ∀ x ∈ l, p x = false := by
  induction l with
  | nil => simp [takeFirst]
  | cons y ys ih => by_cases hy : p y = true <;> simp [takeFirst, hy, ih]

theorem takeFirst_pos {p : α → Bool} {l r : List α} {x : α}
    (h : takeFirst p l = some (x, r)) : p x = true := by
  obtain ⟨_, _, _, _, hx, _⟩ := takeFirst_eq_some.mp h
  exact hx

theorem takeFirst_removes {p : α → Bool} {l r : List α} {x : α}
    (h : takeFirst p l = some (x, r)) : Removes l x r := by
  obtain ⟨a, b, hl, hr, _⟩ := takeFirst_eq_some.mp h
  exact ⟨a, b, hl, hr⟩

theorem exists_takeFirst {p : α → Bool} {l : List α} {x : α} (hx : x ∈ l) (hp : p x = true) :
    ∃ y r, takeFirst p l = some (y, r) := by
  cases h : takeFirst p l with
  | none => simp [takeFirst_eq_none.mp h x hx] at hp
  | some out => exact ⟨out.1, out.2, rfl⟩

theorem takeFirst_eq_find (p : α → Bool) (l : List α) :
    takeFirst p l = (l.find? p).map fun x => (x, l.eraseP p) := by
  induction l with
  | nil => rfl
  | cons y ys ih =>
      by_cases hy : p y = true
      · simp [takeFirst, hy]
      · simp only [takeFirst, if_neg hy, ih, List.find?_cons_of_neg hy, List.eraseP_cons_of_neg hy]
        cases ys.find? p <;> rfl

/-- Inside a class that the test contains, the element taken is the class's first. -/
theorem takeFirst_filter {p c : α → Bool} {l r : List α} {x : α}
    (h : takeFirst p l = some (x, r)) (hc : c x = true → ∀ y, c y = true → p y = true) :
    l.filter c = (if c x then [x] else []) ++ r.filter c := by
  obtain ⟨a, b, rfl, rfl, _, ha⟩ := takeFirst_eq_some.mp h
  by_cases hx : c x = true
  · have hnil : a.filter c = [] := by
      refine List.filter_eq_nil_iff.mpr fun y hy hcy => ?_
      exact absurd (hc hx y hcy) (by simp [ha y hy])
    simp [List.filter_append, hx, hnil]
  · simp [List.filter_append, hx]

/-- An element found in the front part is taken from there. -/
theorem takeFirst_append {p : α → Bool} {l r : List α} {x : α}
    (h : takeFirst p l = some (x, r)) (m : List α) : takeFirst p (l ++ m) = some (x, r ++ m) := by
  obtain ⟨a, b, rfl, rfl, hx, ha⟩ := takeFirst_eq_some.mp h
  exact takeFirst_eq_some.mpr ⟨a, b ++ m, by simp, by simp, hx, ha⟩

/-- Two tests that exclude each other may be used in either order. -/
theorem takeFirst_comm {p q : α → Bool} (hpq : ∀ x, p x = true → q x = false) {l r t : List α}
    {x y : α} (hp : takeFirst p l = some (x, r)) (hq : takeFirst q l = some (y, t)) :
    ∃ u, takeFirst q r = some (y, u) ∧ takeFirst p t = some (x, u) := by
  induction l generalizing r t with
  | nil => simp [takeFirst] at hp
  | cons z zs ih =>
      by_cases hzp : p z = true
      · have hzq := hpq z hzp
        obtain ⟨rfl, rfl⟩ : z = x ∧ zs = r := by simpa [takeFirst, hzp] using hp
        simp only [takeFirst, hzq, Bool.false_eq_true, if_false, Option.map_eq_some_iff,
          Prod.mk.injEq] at hq
        obtain ⟨⟨y', u⟩, hrec, rfl, rfl⟩ := hq
        exact ⟨u, hrec, by simp [takeFirst, hzp]⟩
      · simp only [takeFirst, if_neg hzp, Option.map_eq_some_iff, Prod.mk.injEq] at hp
        obtain ⟨⟨x', r'⟩, hp', rfl, rfl⟩ := hp
        by_cases hzq : q z = true
        · obtain ⟨rfl, rfl⟩ : z = y ∧ zs = t := by simpa [takeFirst, hzq] using hq
          exact ⟨r', by simp [takeFirst, hzq], hp'⟩
        · simp only [takeFirst, if_neg hzq, Option.map_eq_some_iff, Prod.mk.injEq] at hq
          obtain ⟨⟨y', t'⟩, hq', rfl, rfl⟩ := hq
          obtain ⟨u, hqu, hpu⟩ := ih hp' hq'
          exact ⟨z :: u, by simp [takeFirst, hzq, hqu], by simp [takeFirst, hzp, hpu]⟩

/-! ## By a position -/

/-- Unlink the element at position `n`. -/
def takeAt : Nat → List α → Option (α × List α)
  | _, [] => none
  | 0, x :: xs => some (x, xs)
  | n + 1, x :: xs => (takeAt n xs).map fun out => (out.1, x :: out.2)

theorem takeAt_removes {n : Nat} {l r : List α} {x : α} (h : takeAt n l = some (x, r)) :
    Removes l x r := by
  induction l generalizing n r with
  | nil => simp [takeAt] at h
  | cons y ys ih =>
      cases n with
      | zero =>
          simp only [takeAt, Option.some.injEq, Prod.mk.injEq] at h
          obtain ⟨rfl, rfl⟩ := h
          exact removes_head _ _
      | succ n =>
          simp only [takeAt, Option.map_eq_some_iff, Prod.mk.injEq] at h
          obtain ⟨⟨x', r'⟩, hrec, rfl, rfl⟩ := h
          obtain ⟨a, b, rfl, rfl⟩ := ih hrec
          exact ⟨y :: a, b, rfl, rfl⟩

theorem takeAt_eq_getElem (n : Nat) (l : List α) :
    takeAt n l = l[n]?.map fun x => (x, l.eraseIdx n) := by
  induction l generalizing n with
  | nil => simp [takeAt]
  | cons y ys ih =>
      cases n with
      | zero => rfl
      | succ n =>
          simp only [takeAt, ih, List.getElem?_cons_succ, List.eraseIdx_cons_succ]
          cases ys[n]? <;> rfl

/-- The element behind a front part is taken from there. -/
theorem takeAt_length (a b : List α) (x : α) : takeAt a.length (a ++ x :: b) = some (x, a ++ b) := by
  induction a with
  | nil => rfl
  | cons y a ih => simp [takeAt, ih]

theorem exists_takeAt {n : Nat} {l : List α} (hn : n < l.length) :
    ∃ x r, takeAt n l = some (x, r) := by
  induction l generalizing n with
  | nil => simp at hn
  | cons y ys ih =>
      cases n with
      | zero => exact ⟨y, ys, rfl⟩
      | succ n =>
          obtain ⟨x, r, h⟩ := ih (n := n) (by simpa using hn)
          exact ⟨x, y :: r, by simp [takeAt, h]⟩

end Removal
