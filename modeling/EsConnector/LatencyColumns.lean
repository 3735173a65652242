import EsConnector.BulkStats
import EsConnector.OrderStatistics
import Mathlib.Algebra.Order.BigOperators.Group.List

namespace EsConnector
set_option autoImplicit true

open OrderStatistics

/-- The index `(q / 100) * (n - 1)` that a percentile is read at. -/
def percentileRank (vals : List ℚ) (q : ℚ) : ℚ := (q / 100) * ((vals.length : ℚ) - 1)

/-- `xs[i]`, where a negative index counts from the end. -/
def pyIndex (xs : List α) (i : Int) : Option α :=
  if 0 ≤ i then xs[i.toNat]?
  else if 0 ≤ i + xs.length then xs[(i + xs.length).toNat]? else none

/-- The values around an index and their mean. -/
def readBetween (vals : List ℚ) (idx : ℚ) : Option ℚ := do
  let lo := if 0 ≤ idx then ⌊idx⌋ else ⌈idx⌉
  let frac := idx - lo
  if lo + 1 < vals.length then
    return (← pyIndex vals lo) * (1 - frac) + (← pyIndex vals (lo + 1)) * frac
  else pyIndex vals lo

/-- `_percentile` with its list accesses: nothing comes out where one of them raises. -/
def percentileAccesses (sortedVals : List ℚ) (q : ℚ) : Option (Option ℚ) :=
  match sortedVals with
  | [] => some none
  | [v] => some (some v)
  | vals => (readBetween vals (percentileRank vals q)).map some

theorem percentileRank_nonneg {vals : List ℚ} (hvals : vals ≠ []) {q : ℚ} (hq : 0 ≤ q) :
    0 ≤ percentileRank vals q := by
  have hlength : (1 : ℚ) ≤ vals.length := by exact_mod_cast List.length_pos_iff.mpr hvals
  exact mul_nonneg (div_nonneg hq (by norm_num)) (sub_nonneg.mpr hlength)

theorem percentileRank_le {vals : List ℚ} (hvals : vals ≠ []) {q : ℚ} (hq : q ≤ 100) :
    percentileRank vals q ≤ (vals.length - 1 : ℕ) := by
  have hpos := List.length_pos_iff.mpr hvals
  have hlength : ((vals.length - 1 : ℕ) : ℚ) = (vals.length : ℚ) - 1 := by
    rw [Nat.cast_sub hpos, Nat.cast_one]
  have hpart : q / 100 ≤ 1 := by linarith
  rw [hlength]
  exact mul_le_of_le_one_left (hlength ▸ Nat.cast_nonneg _) hpart

theorem percentileRank_mono {vals : List ℚ} (hvals : vals ≠ []) {q q' : ℚ} (h : q ≤ q') :
    percentileRank vals q ≤ percentileRank vals q' := by
  have hlength : (1 : ℚ) ≤ vals.length := by exact_mod_cast List.length_pos_iff.mpr hvals
  have hpart : q / 100 ≤ q' / 100 := by linarith
  exact mul_le_mul_of_nonneg_right hpart (sub_nonneg.mpr hlength)

theorem percentileRank_floor {vals : List ℚ} (hvals : vals ≠ []) {q : ℚ} (hq : q ≤ 100) :
    ⌊percentileRank vals q⌋₊ < vals.length := by
  have hfloor := Nat.floor_le_floor (percentileRank_le hvals hq)
  rw [Nat.floor_natCast] at hfloor
  have hpos := List.length_pos_iff.mpr hvals
  omega

/-- With more than one value the list is read at the rank. -/
theorem percentile_of_many {vals : List ℚ} (hvals : 1 < vals.length) (q : ℚ) :
    percentile vals q = some (
      if ⌊percentileRank vals q⌋₊ + 1 < vals.length then
        vals.getD ⌊percentileRank vals q⌋₊ 0 *
            (1 - (percentileRank vals q - ⌊percentileRank vals q⌋₊)) +
          vals.getD (⌊percentileRank vals q⌋₊ + 1) 0 *
            (percentileRank vals q - ⌊percentileRank vals q⌋₊)
      else vals.getD ⌊percentileRank vals q⌋₊ 0) := by
  cases vals with
  | nil => cases hvals
  | cons v rest =>
    cases rest with
    | nil => exact absurd hvals (Nat.lt_irrefl 1)
    | cons w rest =>
      rw [percentile]
      · rw [← percentileRank, Int.floor_toNat]
        split <;> rfl
      · intro h
        cases h
      · intro u h
        cases h

theorem percentile_eq_interpolate {vals : List ℚ} (hvals : vals ≠ []) {q : ℚ} (hq : 0 ≤ q)
    (hq' : q ≤ 100) :
    percentile vals q = some (interpolate (extended 0 vals) (percentileRank vals q)) := by
  have hlo := percentileRank_floor hvals hq'
  have hnonneg := percentileRank_nonneg hvals hq
  rcases (Nat.succ_le_of_lt (List.length_pos_iff.mpr hvals)).eq_or_lt with hone | hmany
  · obtain ⟨v, rfl⟩ := List.length_eq_one_iff.mp hone.symm
    have hrank : percentileRank [v] q = (0 : ℕ) := by simp [percentileRank]
    rw [hrank, interpolate_natCast]
    rfl
  · rw [percentile_of_many hmany q]
    split
    · rename_i hnext
      rw [interpolate, extended_of_lt 0 hlo, extended_of_lt 0 hnext]
    · rename_i hnext
      -- the rank is that of the last value
      have hlast : ⌊percentileRank vals q⌋₊ = vals.length - 1 := by omega
      have hrank : percentileRank vals q = (vals.length - 1 : ℕ) :=
        le_antisymm (percentileRank_le hvals hq') (hlast ▸ Nat.floor_le hnonneg)
      rw [hlast, hrank, interpolate_natCast, extended_of_lt 0 (hlast ▸ hlo)]

theorem pyIndex_of_lt {vals : List ℚ} {i : ℕ} (hi : i < vals.length) :
    pyIndex vals i = some (vals.getD i 0) := by
  rw [pyIndex, if_pos (Int.natCast_nonneg i), Int.toNat_natCast, List.getD_eq_getElem?_getD,
    List.getElem?_eq_getElem hi, Option.getD_some]

theorem readBetween_eq {vals : List ℚ} (hvals : 1 < vals.length) {q : ℚ} (hq : 0 ≤ q)
    (hq' : q ≤ 100) : readBetween vals (percentileRank vals q) = percentile vals q := by
  have hne : vals ≠ [] := List.length_pos_iff.mp (Nat.zero_lt_of_lt hvals)
  have hnonneg := percentileRank_nonneg hne hq
  have hlo := percentileRank_floor hne hq'
  rw [percentile_of_many hvals, readBetween, if_pos hnonneg, ← Int.natCast_floor_eq_floor hnonneg]
  generalize ⌊percentileRank vals q⌋₊ = lo at hlo
  by_cases hnext : lo + 1 < vals.length
  · have hnext' : (lo : Int) + 1 < vals.length := by exact_mod_cast hnext
    have habove : pyIndex vals ((lo : Int) + 1) = some (vals.getD (lo + 1) 0) := pyIndex_of_lt hnext
    rw [if_pos hnext', if_pos hnext, pyIndex_of_lt hlo, habove]
    rfl
  · have hnext' : ¬(lo : Int) + 1 < vals.length := by exact_mod_cast hnext
    rw [if_neg hnext', if_neg hnext, pyIndex_of_lt hlo]

theorem percentileAccesses_eq (vals : List ℚ) {q : ℚ} (hq : 0 ≤ q) (hq' : q ≤ 100) :
    percentileAccesses vals q = some (percentile vals q) := by
  match vals with
  | [] => rfl
  | [v] => rfl
  | v :: w :: rest =>
    have hmany : 1 < (v :: w :: rest).length := Nat.succ_lt_succ (Nat.succ_pos _)
    have hread : percentileAccesses (v :: w :: rest) q =
        (readBetween (v :: w :: rest) (percentileRank (v :: w :: rest) q)).map some := rfl
    rw [hread, readBetween_eq hmany hq hq', percentile_of_many hmany q]
    rfl

/-- What the percentiles of a sorted list are between, and how they grow. -/
theorem percentile_mono {vals : List ℚ} (hvals : vals ≠ []) (hsorted : vals.Pairwise (· ≤ ·))
    {q₁ q₂ : ℚ} (hq₁ : 0 ≤ q₁) (hq : q₁ ≤ q₂) (hq₂ : q₂ ≤ 100) :
    Option.Rel (· ≤ ·) vals.head? (percentile vals q₁) ∧
      Option.Rel (· ≤ ·) (percentile vals q₁) (percentile vals q₂) ∧
      Option.Rel (· ≤ ·) (percentile vals q₂) vals.getLast? := by
  have hmono := extended_mono (0 : ℚ) hsorted
  have hrank := percentileRank_nonneg hvals hq₁
  have hranks := percentileRank_mono hvals hq
  rw [head?_eq_extended 0 hvals, getLast?_eq_extended 0 hvals,
    ← interpolate_natCast (extended 0 vals) 0,
    ← interpolate_natCast (extended 0 vals) (vals.length - 1),
    percentile_eq_interpolate hvals hq₁ (hq.trans hq₂),
    percentile_eq_interpolate hvals (hq₁.trans hq) hq₂]
  have hstart : ((0 : ℕ) : ℚ) ≤ percentileRank vals q₁ := by rwa [Nat.cast_zero]
  have hend := percentileRank_le hvals hq₂
  exact ⟨.some (interpolate_mono hmono (Nat.cast_nonneg 0) hstart),
    .some (interpolate_mono hmono hrank hranks),
    .some (interpolate_mono hmono (hrank.trans hranks) hend)⟩

/-- Each column of a distribution is at most that of another. -/
structure Dist.Below (a b : Dist) : Prop where
  mean : Option.Rel (· ≤ ·) a.mean b.mean
  p50 : Option.Rel (· ≤ ·) a.p50 b.p50
  p95 : Option.Rel (· ≤ ·) a.p95 b.p95
  max : Option.Rel (· ≤ ·) a.max b.max

/-- The mean and the percentiles of values are between the least and the greatest of them, and are
there as soon as there is a value. -/
structure Dist.Spread (vals : List ℚ) (d : Dist) : Prop where
  min_mean : Option.Rel (· ≤ ·) vals.min? d.mean
  mean_max : Option.Rel (· ≤ ·) d.mean d.max
  min_p50 : Option.Rel (· ≤ ·) vals.min? d.p50
  p50_p95 : Option.Rel (· ≤ ·) d.p50 d.p95
  p95_max : Option.Rel (· ≤ ·) d.p95 d.max

theorem sortMs_ne_nil {vals : List ℚ} (h : vals ≠ []) : sortMs vals ≠ [] := by
  intro hnil
  have hlength := List.length_insertionSort (· ≤ ·) vals
  rw [← sortMs, hnil] at hlength
  exact h (List.length_eq_zero_iff.mp hlength.symm)

theorem Dist.of_ne_nil {vals : List ℚ} (h : vals ≠ []) :
    (Dist.of vals).mean = some (vals.sum / vals.length) := if_neg h

/-- Where each value is at most another, each column is at most that of the others. -/
theorem Dist.below_of_forall₂ {xs ys : List ℚ} (h : List.Forall₂ (· ≤ ·) xs ys) :
    (Dist.of (sortMs xs)).Below (Dist.of (sortMs ys)) := by
  have hsorted : List.Forall₂ (· ≤ ·) (sortMs xs) (sortMs ys) := forall₂_insertionSort h
  have hlength := hsorted.length_eq
  cases h with
  | nil => exact ⟨.none, .none, .none, .none⟩
  | @cons x y xs ys hxy hrest =>
    have hxs : sortMs (x :: xs) ≠ [] := sortMs_ne_nil (List.cons_ne_nil _ _)
    have hys : sortMs (y :: ys) ≠ [] := sortMs_ne_nil (List.cons_ne_nil _ _)
    have hvalues := extended_le_extended 0 hsorted
    have hread {q : ℚ} (hq : 0 ≤ q) (hq' : q ≤ 100) :
        Option.Rel (· ≤ ·) (percentile (sortMs (x :: xs)) q) (percentile (sortMs (y :: ys)) q) := by
      have hrank : percentileRank (sortMs (x :: xs)) q = percentileRank (sortMs (y :: ys)) q := by
        rw [percentileRank, percentileRank, hlength]
      rw [percentile_eq_interpolate hxs hq hq', percentile_eq_interpolate hys hq hq', hrank]
      exact .some (interpolate_le_interpolate hvalues (percentileRank_nonneg hys hq))
    constructor
    · rw [Dist.of_ne_nil hxs, Dist.of_ne_nil hys, hlength]
      exact .some (div_le_div_of_nonneg_right hsorted.sum_le_sum (Nat.cast_nonneg _))
    · exact hread (by norm_num) (by norm_num)
    · exact hread (by norm_num) (by norm_num)
    · change Option.Rel _ (sortMs (x :: xs)).getLast? (sortMs (y :: ys)).getLast?
      rw [getLast?_eq_extended 0 hxs, getLast?_eq_extended 0 hys, hlength]
      exact .some (hvalues _)

theorem sortMs_pairwise (vals : List ℚ) : (sortMs vals).Pairwise (· ≤ ·) :=
  List.pairwise_insertionSort _ _

theorem mean_between {vals : List ℚ} (hvals : vals ≠ []) (hsorted : vals.Pairwise (· ≤ ·)) :
    Option.Rel (· ≤ ·) vals.head? (some (vals.sum / vals.length)) ∧
      Option.Rel (· ≤ ·) (some (vals.sum / vals.length)) vals.getLast? := by
  have hpos : (0 : ℚ) < vals.length := by exact_mod_cast List.length_pos_iff.mpr hvals
  constructor
  · obtain ⟨v, rest, rfl⟩ := List.exists_cons_of_ne_nil hvals
    have hleast : ∀ w ∈ v :: rest, v ≤ w :=
      List.forall_mem_cons.mpr ⟨le_rfl, (List.pairwise_cons.mp hsorted).1⟩
    have hsum := List.card_nsmul_le_sum (v :: rest) v hleast
    rw [nsmul_eq_mul] at hsum
    exact .some ((le_div_iff₀ hpos).mpr (by linarith))
  · obtain ⟨init, v, rfl⟩ := (List.eq_nil_or_concat' vals).resolve_left hvals
    have hgreatest : ∀ w ∈ init ++ [v], w ≤ v := by
      intro w hw
      rcases List.mem_append.mp hw with hw | hw
      · exact (List.pairwise_append.mp hsorted).2.2 w hw v List.mem_cons_self
      · exact (List.mem_singleton.mp hw).le
    have hsum := List.sum_le_card_nsmul (init ++ [v]) v hgreatest
    rw [nsmul_eq_mul] at hsum
    rw [List.getLast?_concat]
    exact .some ((div_le_iff₀ hpos).mpr (by linarith))

theorem Dist.spread_of (vals : List ℚ) : (Dist.of (sortMs vals)).Spread vals := by
  by_cases hnil : vals = []
  · rw [hnil]
    exact ⟨.none, .none, .none, .none, .none⟩
  · have hsorted := sortMs_ne_nil hnil
    obtain ⟨hfirst, hlast⟩ := mean_between hsorted (sortMs_pairwise vals)
    rw [← Dist.of_ne_nil hsorted] at hfirst hlast
    obtain ⟨hmin, hgrow, hmax⟩ := percentile_mono hsorted (sortMs_pairwise vals)
      (show (0 : ℚ) ≤ 50 by norm_num) (show (50 : ℚ) ≤ 95 by norm_num) (by norm_num)
    have hleast : (sortMs vals).head? = vals.min? := head?_insertionSort vals
    exact ⟨hleast ▸ hfirst, hlast, hleast ▸ hmin, hgrow, hmax⟩

/-- A record with its three timings, each within the next. -/
def SendRecord.Nested (s : SendRecord) : Prop :=
  ∃ took ∈ s.tookMs, ∃ http ∈ s.httpMs, took ≤ http ∧ http ≤ s.rttMs

theorem timings_forall₂ {ok : List SendRecord} (hnested : ∀ s ∈ ok, s.Nested) :
    List.Forall₂ (· ≤ ·) (ok.filterMap (·.tookMs)) (ok.filterMap (·.httpMs)) ∧
      List.Forall₂ (· ≤ ·) (ok.filterMap (·.httpMs)) (ok.map (·.rttMs)) := by
  induction ok with
  | nil => exact ⟨.nil, .nil⟩
  | cons s ok ih =>
    obtain ⟨hs, hok⟩ := List.forall_mem_cons.mp hnested
    obtain ⟨took, htook, http, hhttp, hle, hle'⟩ := hs
    obtain ⟨htooks, hhttps⟩ := ih hok
    rw [List.filterMap_cons_some htook, List.filterMap_cons_some hhttp, List.map_cons]
    exact ⟨.cons hle htooks, .cons hle' hhttps⟩

/-- The latency columns stay nested, and a percentile grows with its rank within the values that
are there. -/
theorem latency_columns_nested :
    (∀ (stats : List SendRecord) (diag : Diag) (clock : PartitionClock),
      (∀ s ∈ stats, s.outcome = .ok → s.Nested) →
      let ok := stats.filter (·.outcome = .ok)
      let agg := aggregateBulkStats stats diag clock
      (agg.tookMs.Below agg.httpMs ∧ agg.httpMs.Below agg.rttMs) ∧
        agg.tookMs.Spread (ok.filterMap (·.tookMs)) ∧
        agg.httpMs.Spread (ok.filterMap (·.httpMs)) ∧
        agg.rttMs.Spread (ok.map (·.rttMs))) ∧
    ∀ vals : List ℚ, vals ≠ [] → vals.Pairwise (· ≤ ·) →
      ∀ q₁ q₂ : ℚ, 0 ≤ q₁ → q₁ ≤ q₂ → q₂ ≤ 100 →
        percentileAccesses vals q₁ = some (percentile vals q₁) ∧
        percentileAccesses vals q₂ = some (percentile vals q₂) ∧
        Option.Rel (· ≤ ·) vals.head? (percentile vals q₁) ∧
        Option.Rel (· ≤ ·) (percentile vals q₁) (percentile vals q₂) ∧
        Option.Rel (· ≤ ·) (percentile vals q₂) vals.getLast? := by
  constructor
  · intro stats diag clock hnested ok agg
    have hok : ∀ s ∈ ok, s.Nested := by
      intro s hs
      obtain ⟨hmem, hout⟩ := List.mem_filter.mp hs
      exact hnested s hmem (of_decide_eq_true hout)
    obtain ⟨htook, hhttp⟩ := timings_forall₂ hok
    constructor
    · exact ⟨Dist.below_of_forall₂ htook, Dist.below_of_forall₂ hhttp⟩
    · exact ⟨Dist.spread_of _, Dist.spread_of _, Dist.spread_of _⟩
  · intro vals hvals hsorted q₁ q₂ hq₁ hq hq₂
    exact ⟨percentileAccesses_eq vals hq₁ (hq.trans hq₂),
      percentileAccesses_eq vals (hq₁.trans hq) hq₂, percentile_mono hvals hsorted hq₁ hq hq₂⟩

/-- Two answered sends, neither the slower one at each level, and one that timed out. -/
def crossedSends : List SendRecord :=
  [{ docs := 10, bytes := 100, rttMs := 40, tookMs := some 5, cpuMs := 2, httpMs := some 30,
     outcome := .ok },
   { docs := 5, bytes := 60, rttMs := 20, tookMs := some 12, cpuMs := 1, httpMs := some 15,
     outcome := .ok },
   { docs := 5, bytes := 60, rttMs := 500, tookMs := none, cpuMs := 1, httpMs := none,
     outcome := .timeout }]

theorem crossedSends_nested :
    let agg := aggregateBulkStats crossedSends {} {}
    (agg.tookMs.Below agg.httpMs ∧ agg.httpMs.Below agg.rttMs) ∧
      Option.Rel (· ≤ ·) [(1 : ℚ), 2, 4].head? (percentile [1, 2, 4] 25) := by
  have hnested : ∀ s ∈ crossedSends, s.outcome = .ok → s.Nested := by
    intro s hs hok
    simp only [crossedSends, List.mem_cons, List.not_mem_nil, or_false] at hs
    rcases hs with rfl | rfl | rfl
    · exact ⟨5, rfl, 30, rfl, by norm_num, by norm_num⟩
    · exact ⟨12, rfl, 15, rfl, by norm_num, by norm_num⟩
    · cases hok
  have hsorted : [(1 : ℚ), 2, 4].Pairwise (· ≤ ·) := by norm_num
  constructor
  · exact (latency_columns_nested.1 crossedSends {} {} hnested).1
  · exact (latency_columns_nested.2 [1, 2, 4] (List.cons_ne_nil _ _) hsorted 25 95 (by norm_num)
      (by norm_num) (by norm_num)).2.2.1

end EsConnector
