import Mathlib.Algebra.GroupWithZero.Nat
import Mathlib.Data.List.Basic
import Mathlib.Data.List.Induction
import Mathlib.Data.List.Nodup

namespace Grouping
set_option autoImplicit true

variable {κ α : Type} [DecidableEq κ]

/-- A value is put at the end of the group of its key, which may be new. -/
def put : List (κ × List α) → κ → α → List (κ × List α)
  | [], k, v => [(k, [v])]
  | g :: groups, k, v =>
    if g.1 = k then (g.1, g.2 ++ [v]) :: groups else g :: put groups k v

/-- The values of the pairs by key, the keys in the order in which they are met. -/
def group (pairs : List (κ × α)) : List (κ × List α) :=
  pairs.foldl (fun groups p => put groups p.1 p.2) []

/-- The values of one key. -/
def valuesAt (pairs : List (κ × α)) (k : κ) : List α :=
  (pairs.filter fun p => p.1 = k).map Prod.snd

theorem put_keys (groups : List (κ × List α)) (k : κ) (v : α) :
    (put groups k v).map Prod.fst =
      if k ∈ groups.map Prod.fst then groups.map Prod.fst else groups.map Prod.fst ++ [k] := by
  induction groups with
  | nil => rfl
  | cons g groups ih =>
    rw [put]
    by_cases hg : g.1 = k
    · simp [hg]
    · have hg' : k ≠ g.1 := Ne.symm hg
      rw [if_neg hg, List.map_cons, ih]
      by_cases hk : k ∈ groups.map Prod.fst
      · rw [if_pos hk, List.map_cons, if_pos (List.mem_cons_of_mem _ hk)]
      · rw [if_neg hk, List.map_cons, if_neg (by simpa [hg'] using hk), List.cons_append]

theorem put_nodup {groups : List (κ × List α)} (h : (groups.map Prod.fst).Nodup) (k : κ) (v : α) :
    ((put groups k v).map Prod.fst).Nodup := by
  rw [put_keys]
  split
  · exact h
  · rename_i hk
    exact List.nodup_append.mpr ⟨h, List.nodup_singleton k, by
      intro a ha b hb rfl
      exact hk (List.mem_singleton.mp hb ▸ ha)⟩

theorem mem_put_other {groups : List (κ × List α)} {k k' : κ} (hne : k' ≠ k) (v : α) (vs : List α) :
    (k', vs) ∈ put groups k v ↔ (k', vs) ∈ groups := by
  induction groups with
  | nil => simp [put, hne]
  | cons g groups ih =>
    rw [put]
    split
    · rename_i hg
      have hg' : (k', vs) ≠ (g.1, g.2 ++ [v]) := fun he => hne ((congrArg Prod.fst he).trans hg)
      have hg'' : (k', vs) ≠ g := fun he => hne ((congrArg Prod.fst he).trans hg)
      simp [hg', hg'']
    · rw [List.mem_cons, List.mem_cons, ih]

theorem mem_put_self {groups : List (κ × List α)} (h : (groups.map Prod.fst).Nodup) (k : κ) (v : α)
    (vs : List α) : (k, vs) ∈ put groups k v ↔
      (∃ us, (k, us) ∈ groups ∧ vs = us ++ [v]) ∨ (k ∉ groups.map Prod.fst ∧ vs = [v]) := by
  induction groups with
  | nil => simp [put]
  | cons g groups ih =>
    obtain ⟨key, us⟩ := g
    rw [List.map_cons, List.nodup_cons] at h
    rw [put]
    split
    · rename_i hg
      obtain rfl : key = k := hg
      have hrest (ws : List α) : (key, ws) ∉ groups :=
        fun hmem => h.1 (List.mem_map.mpr ⟨(key, ws), hmem, rfl⟩)
      simp [hrest]
    · rename_i hg
      have hg' : k ≠ key := Ne.symm hg
      simp [ih h.2, hg']

/-- The groups of some pairs. -/
structure Grouped (groups : List (κ × List α)) (pairs : List (κ × α)) : Prop where
  nodup : (groups.map Prod.fst).Nodup
  mem : ∀ k vs, (k, vs) ∈ groups ↔ vs ≠ [] ∧ vs = valuesAt pairs k
  total : (groups.map fun g => g.2.length).sum = pairs.length

theorem valuesAt_append (pairs : List (κ × α)) (p : κ × α) (k : κ) :
    valuesAt (pairs ++ [p]) k = valuesAt pairs k ++ if p.1 = k then [p.2] else [] := by
  rw [valuesAt, List.filter_append, List.map_append, ← valuesAt]
  by_cases hp : p.1 = k <;> simp [hp]

theorem Grouped.key_iff {groups : List (κ × List α)} {pairs : List (κ × α)}
    (h : Grouped groups pairs) (k : κ) : k ∈ groups.map Prod.fst ↔ valuesAt pairs k ≠ [] := by
  constructor
  · intro hk
    obtain ⟨⟨k', vs⟩, hmem, rfl⟩ := List.mem_map.mp hk
    obtain ⟨hne, rfl⟩ := (h.mem _ _).mp hmem
    exact hne
  · intro hne
    exact List.mem_map.mpr ⟨(k, valuesAt pairs k), (h.mem _ _).mpr ⟨hne, rfl⟩, rfl⟩

theorem put_total (groups : List (κ × List α)) (k : κ) (v : α) :
    ((put groups k v).map fun g => g.2.length).sum = (groups.map fun g => g.2.length).sum + 1 := by
  induction groups with
  | nil => rfl
  | cons g groups ih =>
    rw [put]
    split
    · simp only [List.map_cons, List.sum_cons, List.length_append, List.length_singleton]
      omega
    · simp only [List.map_cons, List.sum_cons, ih]
      omega

theorem Grouped.put {groups : List (κ × List α)} {pairs : List (κ × α)} (h : Grouped groups pairs)
    (p : κ × α) : Grouped (put groups p.1 p.2) (pairs ++ [p]) where
  nodup := put_nodup h.nodup p.1 p.2
  mem k vs := by
    rw [valuesAt_append]
    by_cases hk : k = p.1
    · subst hk
      rw [mem_put_self h.nodup, if_pos rfl, h.key_iff, not_not]
      constructor
      · rintro (⟨us, hus, rfl⟩ | ⟨hnone, rfl⟩)
        · rw [((h.mem _ _).mp hus).2]
          exact ⟨by simp, rfl⟩
        · rw [hnone]
          exact ⟨by simp, rfl⟩
      · rintro ⟨-, rfl⟩
        by_cases hnone : valuesAt pairs p.1 = []
        · exact .inr ⟨hnone, by rw [hnone, List.nil_append]⟩
        · exact .inl ⟨_, (h.mem _ _).mpr ⟨hnone, rfl⟩, rfl⟩
    · rw [mem_put_other hk, h.mem, if_neg (Ne.symm hk), List.append_nil]
  total := by rw [put_total, h.total, List.length_append, List.length_singleton]

theorem grouped_group (pairs : List (κ × α)) : Grouped (group pairs) pairs := by
  induction pairs using List.reverseRecOn with
  | nil => exact ⟨List.nodup_nil, fun k vs => by simp [group, valuesAt], rfl⟩
  | append_singleton pairs p ih =>
    have hfold : group (pairs ++ [p]) = Grouping.put (group pairs) p.1 p.2 := by
      rw [group, List.foldl_append]
      rfl
    rw [hfold]
    exact ih.put p

end Grouping
