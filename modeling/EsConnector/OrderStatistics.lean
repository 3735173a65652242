import Mathlib.Algebra.Order.Floor.Semiring
import Mathlib.Data.List.Forall2
import Mathlib.Data.List.Pairwise
import Mathlib.Data.List.Sort
import Mathlib.Tactic.Linarith
import Mathlib.Tactic.Ring

namespace OrderStatistics
set_option autoImplicit true

section Sorting

variable {α : Type}

/-- The values of a sorted list by index, and the last one for each index behind the end. -/
def extended (d : α) (xs : List α) (i : ℕ) : α := xs.getD (min i (xs.length - 1)) d

theorem extended_of_lt (d : α) {xs : List α} {i : ℕ} (h : i < xs.length) :
    extended d xs i = xs.getD i d := by
  rw [extended, Nat.min_eq_left (by omega)]

theorem head?_eq_extended (d : α) {xs : List α} (h : xs ≠ []) : xs.head? = some (extended d xs 0) := by
  have hlength := List.length_pos_iff.mpr h
  rw [extended_of_lt d hlength, List.head?_eq_getElem?, List.getD_eq_getElem?_getD,
    List.getElem?_eq_getElem hlength, Option.getD_some]

theorem getLast?_eq_extended (d : α) {xs : List α} (h : xs ≠ []) :
    xs.getLast? = some (extended d xs (xs.length - 1)) := by
  have hlength : xs.length - 1 < xs.length := Nat.sub_one_lt_of_lt (List.length_pos_iff.mpr h)
  rw [extended_of_lt d hlength, List.getLast?_eq_getElem?, List.getD_eq_getElem?_getD,
    List.getElem?_eq_getElem hlength, Option.getD_some]

variable [LinearOrder α]

theorem orderedInsert_of_le {xs : List α} {x : α} (h : ∀ y ∈ xs, x ≤ y) :
    xs.orderedInsert (· ≤ ·) x = x :: xs := by
  cases xs with
  | nil => rfl
  | cons y xs => exact List.orderedInsert_cons_of_le _ xs (h y List.mem_cons_self)

/-- Of two sorted lists one stays below the other when values are inserted that are so. -/
theorem forall₂_orderedInsert {xs ys : List α} (h : List.Forall₂ (· ≤ ·) xs ys)
    (hxs : xs.Pairwise (· ≤ ·)) (hys : ys.Pairwise (· ≤ ·)) {x y : α} (hxy : x ≤ y) :
    List.Forall₂ (· ≤ ·) (xs.orderedInsert (· ≤ ·) x) (ys.orderedInsert (· ≤ ·) y) := by
  induction h generalizing x y with
  | nil => exact .cons hxy .nil
  | @cons a b xs ys hab hrest ih =>
    obtain ⟨ha, hxs⟩ := List.pairwise_cons.mp hxs
    obtain ⟨hb, hys⟩ := List.pairwise_cons.mp hys
    -- an inserted value may push the others back, which is to insert the head into the tail
    have hxs_head : xs.orderedInsert (· ≤ ·) a = a :: xs := orderedInsert_of_le ha
    have hys_head : ys.orderedInsert (· ≤ ·) b = b :: ys := orderedInsert_of_le hb
    rw [List.orderedInsert_cons, List.orderedInsert_cons]
    by_cases hx : x ≤ a
    · by_cases hy : y ≤ b
      · rw [if_pos hx, if_pos hy]
        exact .cons hxy (.cons hab hrest)
      · rw [if_pos hx, if_neg hy, ← hxs_head]
        have hay : a ≤ y := hab.trans (le_of_not_ge hy)
        exact .cons (hx.trans hab) (ih hxs hys hay)
    · by_cases hy : y ≤ b
      · rw [if_neg hx, if_pos hy, ← hys_head]
        have hay : a ≤ y := (le_of_not_ge hx).trans hxy
        exact .cons hay (ih hxs hys (hxy.trans hy))
      · rw [if_neg hx, if_neg hy]
        exact .cons hab (ih hxs hys hxy)

/-- Sorting keeps one list below another, value by value. -/
theorem forall₂_insertionSort {xs ys : List α} (h : List.Forall₂ (· ≤ ·) xs ys) :
    List.Forall₂ (· ≤ ·) (xs.insertionSort (· ≤ ·)) (ys.insertionSort (· ≤ ·)) := by
  induction h with
  | nil => exact .nil
  | cons hxy hrest ih =>
    rw [List.insertionSort_cons, List.insertionSort_cons]
    exact forall₂_orderedInsert ih (List.pairwise_insertionSort _ _)
      (List.pairwise_insertionSort _ _) hxy

theorem head?_insertionSort (xs : List α) :
    (xs.insertionSort (· ≤ ·)).head? = xs.min? := by
  have hsorted := List.pairwise_insertionSort (· ≤ ·) xs
  cases hxs : xs.insertionSort (· ≤ ·) with
  | nil =>
    have hnil := (List.perm_insertionSort (· ≤ ·) xs).symm
    rw [hxs, List.perm_nil] at hnil
    rw [hnil]
    rfl
  | cons x rest =>
    have hmem (y : α) : y ∈ x :: rest ↔ y ∈ xs := hxs ▸ List.mem_insertionSort (· ≤ ·)
    rw [hxs, List.pairwise_cons] at hsorted
    symm
    apply List.min?_eq_some_iff.mpr
    constructor
    · exact (hmem x).mp List.mem_cons_self
    · intro y hy
      rcases List.mem_cons.mp ((hmem y).mpr hy) with rfl | hy
      · exact le_refl y
      · exact hsorted.1 y hy

theorem extended_mono (d : α) {xs : List α} (h : xs.Pairwise (· ≤ ·)) : Monotone (extended d xs) := by
  intro i j hij
  rw [extended, extended, List.getD_eq_getElem?_getD, List.getD_eq_getElem?_getD]
  rcases Nat.eq_zero_or_pos xs.length with hnone | hsome
  · rw [List.length_eq_zero_iff.mp hnone]
    exact le_refl _
  · rw [List.getElem?_eq_getElem (by omega), List.getElem?_eq_getElem (by omega)]
    let first : Fin xs.length := ⟨min i (xs.length - 1), by omega⟩
    let second : Fin xs.length := ⟨min j (xs.length - 1), by omega⟩
    have hle : first ≤ second := min_le_min_right _ hij
    exact h.rel_get_of_le hle

theorem extended_le_extended (d : α) {xs ys : List α} (h : List.Forall₂ (· ≤ ·) xs ys) (i : ℕ) :
    extended d xs i ≤ extended d ys i := by
  rw [extended, extended, h.length_eq, List.getD_eq_getElem?_getD, List.getD_eq_getElem?_getD]
  generalize min i (ys.length - 1) = j
  induction h generalizing j with
  | nil => exact le_refl _
  | cons hxy hrest ih =>
    cases j with
    | zero => exact hxy
    | succ j => exact ih j

end Sorting

section Interpolation

variable {K : Type} [Field K] [LinearOrder K] [IsStrictOrderedRing K] [FloorSemiring K]

/-- The value of a sequence at an index between two natural numbers. -/
def interpolate (f : ℕ → K) (t : K) : K :=
  f ⌊t⌋₊ * (1 - (t - ⌊t⌋₊)) + f (⌊t⌋₊ + 1) * (t - ⌊t⌋₊)

theorem interpolate_natCast (f : ℕ → K) (n : ℕ) : interpolate f n = f n := by
  simp [interpolate]

/-- The weights of the two values are not negative. -/
theorem fraction_bounds {t : K} (ht : 0 ≤ t) : 0 ≤ t - ⌊t⌋₊ ∧ 0 ≤ 1 - (t - ⌊t⌋₊) := by
  have hle := Nat.floor_le ht
  have hlt := Nat.lt_floor_add_one t
  constructor <;> linarith

theorem interpolate_le_interpolate {f g : ℕ → K} (h : ∀ i, f i ≤ g i) {t : K} (ht : 0 ≤ t) :
    interpolate f t ≤ interpolate g t := by
  obtain ⟨hfraction, hrest⟩ := fraction_bounds ht
  exact add_le_add (mul_le_mul_of_nonneg_right (h _) hrest)
    (mul_le_mul_of_nonneg_right (h _) hfraction)

/-- An interpolated value is between the two that it is made of. -/
theorem interpolate_between {f : ℕ → K} (hf : Monotone f) {t : K} (ht : 0 ≤ t) :
    f ⌊t⌋₊ ≤ interpolate f t ∧ interpolate f t ≤ f (⌊t⌋₊ + 1) := by
  obtain ⟨hfraction, hrest⟩ := fraction_bounds ht
  have hstep : f ⌊t⌋₊ ≤ f (⌊t⌋₊ + 1) := hf (Nat.le_succ _)
  have hlow := mul_le_mul_of_nonneg_right hstep hfraction
  have hhigh := mul_le_mul_of_nonneg_right hstep hrest
  constructor
  · calc f ⌊t⌋₊ = f ⌊t⌋₊ * (1 - (t - ⌊t⌋₊)) + f ⌊t⌋₊ * (t - ⌊t⌋₊) := by ring
      _ ≤ interpolate f t := by
        rw [interpolate]
        linarith
  · calc interpolate f t ≤ f (⌊t⌋₊ + 1) * (1 - (t - ⌊t⌋₊)) + f (⌊t⌋₊ + 1) * (t - ⌊t⌋₊) := by
          rw [interpolate]
          linarith
      _ = f (⌊t⌋₊ + 1) := by ring

theorem interpolate_mono {f : ℕ → K} (hf : Monotone f) {s t : K} (hs : 0 ≤ s) (hst : s ≤ t) :
    interpolate f s ≤ interpolate f t := by
  have ht : 0 ≤ t := hs.trans hst
  rcases (Nat.floor_mono hst).eq_or_lt with hsame | hless
  · -- in one step the weight moves to the greater value
    have hstep : f ⌊t⌋₊ ≤ f (⌊t⌋₊ + 1) := hf (Nat.le_succ _)
    have hmove := mul_le_mul_of_nonneg_left hst (sub_nonneg.mpr hstep)
    rw [interpolate, interpolate, hsame]
    linarith
  · calc interpolate f s ≤ f (⌊s⌋₊ + 1) := (interpolate_between hf hs).2
      _ ≤ f ⌊t⌋₊ := hf hless
      _ ≤ interpolate f t := (interpolate_between hf ht).1

end Interpolation

end OrderStatistics
