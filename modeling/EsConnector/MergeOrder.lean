import EsConnector.PoolRules

namespace EsConnector
set_option autoImplicit true

def resultCounts : ChunkResult → Counts
  | .ok u => u.counts
  | .error _ => 0

def resultStats : ChunkResult → List SendRecord
  | .ok u => u.stats.getD []
  | .error _ => []

def resultDiag : ChunkResult → Diag
  | .ok u => u.diag.getD 0
  | .error _ => 0

def resultSamples : ChunkResult → Nat
  | .ok u => u.errorSamples.length
  | .error _ => 0

theorem Tally.merge_stats (t u : Tally) :
    (t.merge u).stats = t.stats.map (· ++ u.stats.getD []) := by
  rw [Tally.merge]
  cases t.stats <;> cases u.stats <;> simp

theorem Tally.merge_diag (t u : Tally) : (t.merge u).diag = t.diag.map (· + u.diag.getD 0) := by
  rw [Tally.merge]
  cases t.diag <;> cases u.diag <;> simp

theorem Tally.merge_errorSamples (t u : Tally) :
    (t.merge u).errorSamples =
      t.errorSamples ++ u.errorSamples.take (errorSampleCap - t.errorSamples.length) := by
  rw [Tally.merge]
  dsimp only
  split
  · rfl
  · next hc =>
    rw [not_and_or, not_lt, not_not] at hc
    rcases hc with hc | hc
    · rw [Nat.sub_eq_zero_of_le hc, List.take_zero, List.append_nil]
    · rw [hc, List.take_nil, List.append_nil]

theorem mergeResults_counts (h : mergeResults l t = .ok t') :
    t'.counts = t.counts + (l.map resultCounts).sum := by
  induction l generalizing t with
  | nil =>
    cases h
    exact (add_zero _).symm
  | cons r l ih =>
    cases r with
    | error e => cases h
    | ok u => rw [ih h, Tally.merge_counts, List.map_cons, List.sum_cons, resultCounts, add_assoc]

theorem mergeResults_stats (h : mergeResults l t = .ok t') :
    t'.stats = t.stats.map (· ++ (l.map resultStats).flatten) := by
  induction l generalizing t with
  | nil =>
    cases h
    simp
  | cons r l ih =>
    cases r with
    | error e => cases h
    | ok u =>
      rw [ih h, Tally.merge_stats]
      simp [resultStats, Function.comp_def]

theorem mergeResults_diag (h : mergeResults l t = .ok t') :
    t'.diag = t.diag.map (· + (l.map resultDiag).sum) := by
  induction l generalizing t with
  | nil =>
    cases h
    simp
  | cons r l ih =>
    cases r with
    | error e => cases h
    | ok u =>
      rw [ih h, Tally.merge_diag]
      simp [resultDiag, Function.comp_def, add_assoc]

theorem mergeResults_samples (h : mergeResults l t = .ok t')
    (ht : t.errorSamples.length ≤ errorSampleCap) : t'.errorSamples.length =
      min errorSampleCap (t.errorSamples.length + (l.map resultSamples).sum) := by
  induction l generalizing t with
  | nil =>
    cases h
    simpa using ht
  | cons r l ih =>
    cases r with
    | error e => cases h
    | ok u =>
      have hlen : (t.merge u).errorSamples.length =
          min errorSampleCap (t.errorSamples.length + u.errorSamples.length) := by
        rw [Tally.merge_errorSamples, List.length_append, List.length_take]
        omega
      rw [ih h (by rw [hlen]; exact Nat.min_le_left ..), hlen, List.map_cons, List.sum_cons,
        resultSamples]
      omega

/-- Two sets of totals that only differ in the order the chunks were merged in. -/
structure Tally.SameTotals (t u : Tally) : Prop where
  counts : t.counts = u.counts
  diag : t.diag = u.diag
  collects : t.stats.isSome = u.stats.isSome
  stats : (t.stats.getD []).Perm (u.stats.getD [])
  samples : t.errorSamples.length = u.errorSamples.length

/-- The totals do not depend on the order in which the results are merged. -/
theorem mergeResults_perm (hp : l.Perm l') (ht : t.errorSamples.length ≤ errorSampleCap)
    (h : mergeResults l t = .ok u) (h' : mergeResults l' t = .ok u') : u.SameTotals u' where
  counts := by
    rw [mergeResults_counts h, mergeResults_counts h', (hp.map resultCounts).sum_eq]
  diag := by
    rw [mergeResults_diag h, mergeResults_diag h', (hp.map resultDiag).sum_eq]
  collects := by
    rw [mergeResults_stats h, mergeResults_stats h', Option.isSome_map, Option.isSome_map]
  stats := by
    rw [mergeResults_stats h, mergeResults_stats h']
    cases t.stats with
    | none => exact .refl _
    | some s => exact ((hp.map resultStats).flatten).append_left s
  samples := by
    rw [mergeResults_samples h ht, mergeResults_samples h' ht, (hp.map resultSamples).sum_eq]

end EsConnector
