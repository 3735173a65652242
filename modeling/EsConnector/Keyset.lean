import Mathlib.Data.List.Basic
import Mathlib.Order.Lattice

namespace Keyset
set_option autoImplicit true

variable {α K : Type} [LinearOrder K] (key : α → K)

/-- The rows are in the strict order of their keys. -/
def Ordered (rows : List α) : Prop := rows.Pairwise fun a b => key a < key b

/-- The rows above a key; all of them where no key is given. -/
def above (rows : List α) : Option K → List α
  | none => rows
  | some k => rows.filter fun a => k < key a

/-- A page: the first rows above a key. -/
def page (rows : List α) (after : Option K) (size : Nat) : List α :=
  (above key rows after).take size

/-- The pages of `n` rows. -/
def pages (n size : Nat) : Nat := (n + size - 1) / size

variable {key} {done rest : List α}

/-- Behind the last row that was read are the rows that were not. -/
theorem above_last (h : Ordered key (done ++ rest)) :
    above key (done ++ rest) (done.getLast?.map key) = rest := by
  obtain ⟨hdone, -, hcross⟩ := List.pairwise_append.mp h
  cases hlast : done.getLast? with
  | none =>
    rw [List.getLast?_eq_none_iff.mp hlast]
    rfl
  | some last =>
    obtain ⟨init, rfl⟩ := List.getLast?_eq_some_iff.mp hlast
    have hrest : rest.filter (fun a => key last < key a) = rest :=
      List.filter_eq_self.mpr fun a ha => decide_eq_true (hcross last (by simp) a ha)
    have hinit : (init ++ [last]).filter (fun a => key last < key a) = [] := by
      apply List.filter_eq_nil_iff.mpr
      intro a ha
      rw [decide_eq_true_eq, not_lt]
      rcases List.mem_append.mp ha with ha | ha
      · exact le_of_lt ((List.pairwise_append.mp hdone).2.2 a ha last (by simp))
      · rw [List.mem_singleton.mp ha]
    rw [Option.map_some, above, List.filter_append, hinit, hrest, List.nil_append]

theorem page_last (h : Ordered key (done ++ rest)) :
    page key (done ++ rest) (done.getLast?.map key) size = rest.take size := by
  rw [page, above_last h]

omit [LinearOrder K] in
/-- The cursor after a page that is not empty. -/
theorem last_page (hlast : (rest.take size).getLast? = some last) :
    (done ++ rest.take size).getLast?.map key = some (key last) := by
  rw [List.getLast?_append, hlast]
  rfl

theorem pages_zero (hsize : 0 < size) : pages 0 size = 0 := by
  rw [pages, Nat.zero_add, Nat.div_eq_of_lt (by omega)]

theorem pages_pos (hsize : 0 < size) (hn : 0 < n) : pages n size = pages (n - size) size + 1 := by
  unfold pages
  rcases Nat.lt_or_ge n size with hlt | hge
  · rw [Nat.sub_eq_zero_of_le (Nat.le_of_lt hlt), Nat.div_eq_of_lt (by omega : 0 + size - 1 < size)]
    exact Nat.div_eq_of_lt_le (by omega) (by omega)
  · rw [show n + size - 1 = n - size + size - 1 + size by omega, Nat.add_div_right _ hsize]

theorem pages_mono (h : m ≤ n) : pages m size ≤ pages n size :=
  Nat.div_le_div_right (by omega)

/-- Rows that are dealt out to slices are in the slices, each in one. -/
theorem slices_perm (slice : α → Nat) (rows : List α) (h : ∀ a ∈ rows, slice a < n) :
    ((List.range n).flatMap fun i => rows.filter fun a => slice a = i).Perm rows := by
  induction n generalizing rows with
  | zero =>
    cases rows with
    | nil => exact .refl _
    | cons a rows => exact absurd (h a List.mem_cons_self) (Nat.not_lt_zero _)
  | succ n ih =>
    have hlow := ih (rows.filter fun a => slice a < n) (by simp)
    have hsame : ((List.range n).flatMap fun i =>
        (rows.filter fun a => slice a < n).filter fun a => slice a = i) =
        (List.range n).flatMap fun i => rows.filter fun a => slice a = i := by
      apply List.flatMap_congr
      intro i hi
      rw [List.filter_filter]
      apply List.filter_congr
      intro a _
      have hi := List.mem_range.mp hi
      grind
    have hhigh : (rows.filter fun a => slice a = n) = rows.filter fun a => !decide (slice a < n) := by
      apply List.filter_congr
      intro a ha
      have ha := h a ha
      grind
    rw [List.range_succ, List.flatMap_append, List.flatMap_singleton, ← hsame, hhigh]
    exact (hlow.append_right _).trans (List.filter_append_perm _ _)

end Keyset
