import EsConnector.PartitionWriter

namespace EsConnector
set_option autoImplicit true

/-- The result dictionary of a write. It is read with `.get`, so each number may be absent. -/
structure WriteResult where
  written : Option Int := none
  deleted : Option Int := none
  errors : Option Int := none
  ignored : Option Int := none
  coercedNonfinite : Option Int := none
  totalInput : Option Int := none
  unaccounted : Option Int := none
  overcounted : Option Int := none
  errorSamples : Option (List ErrorSample) := none
  bulkStats : Option (List BulkStats) := none
  empty : Bool := false
deriving DecidableEq

/-- `int(r[key] or 0)`. -/
def orZero (n : Option Nat) : Int := (n.getD 0 : Nat)

/-- The discrepancy of one partition. -/
def SummaryRow.delta (r : SummaryRow) : Int :=
  orZero r.totalInput -
    (orZero r.written + orZero r.deleted + orZero r.errors + orZero r.ignored)

/-- The locals of `_merge_partition_results`. -/
structure MergeState where
  written : Int := 0
  deleted : Int := 0
  errors : Int := 0
  ignored : Int := 0
  coercedNonfinite : Int := 0
  totalInput : Int := 0
  unaccounted : Int := 0
  overcounted : Int := 0
  samples : List ErrorSample := []

def mergeRow (s : MergeState) (r : SummaryRow) : MergeState where
  written := s.written + orZero r.written
  deleted := s.deleted + orZero r.deleted
  errors := s.errors + orZero r.errors
  ignored := s.ignored + orZero r.ignored
  coercedNonfinite := s.coercedNonfinite + orZero r.coercedNonfinite
  totalInput := s.totalInput + orZero r.totalInput
  unaccounted := if 0 < r.delta then s.unaccounted + r.delta else s.unaccounted
  overcounted :=
    if 0 < r.delta then s.overcounted
    else if r.delta < 0 then s.overcounted + -r.delta
    else s.overcounted
  samples :=
    if s.samples.length < errorSampleCap then s.samples ++ r.errorSamples.getD [] else s.samples

def mergePartitionResults (rows : List SummaryRow) : WriteResult :=
  let s := rows.foldl mergeRow {}
  let bulkStats := rows.filterMap SummaryRow.bulkStats
  { written := some s.written
    deleted := some s.deleted
    errors := some s.errors
    ignored := some s.ignored
    coercedNonfinite := some s.coercedNonfinite
    totalInput := some s.totalInput
    unaccounted := some s.unaccounted
    overcounted := some s.overcounted
    errorSamples := some (s.samples.take errorSampleCap)
    bulkStats := if bulkStats = [] then none else some bulkStats }

/-- What the library logs about a write. -/
inductive LogRecord where
  | overcount (index : String) (overcounted errors : Int) (result : WriteResult)
  | batchFailure (batchId : Int) (index : String) (result : WriteResult)
  | batchOvercount (batchId : Int) (index : String) (result : WriteResult)
deriving DecidableEq

def LogRecord.isOvercount : LogRecord → Bool
  | .overcount .. | .batchOvercount .. => true
  | .batchFailure .. => false

def LogRecord.isFailure : LogRecord → Bool
  | .batchFailure .. => true
  | _ => false

/-- `EsWriteError`, with the pieces its message is made of. -/
structure EsWriteError where
  target : String
  parts : List String
  detail : String
  firstFailures : List ErrorSample
  result : WriteResult
deriving DecidableEq

def pyStr (n : Option Int) : String := (n.map toString).getD "None"

/-- The three failure signals as `reconcile_or_raise` reads them. A result of the old shape carries
both discrepancies in one signed `unaccounted`. -/
structure Signals where
  errors : Int
  unaccounted : Int
  overcounted : Int
deriving DecidableEq

def WriteResult.signals (result : WriteResult) : Signals :=
  let errors := result.errors.getD 0
  let unaccounted := result.unaccounted.getD 0
  let overcounted := result.overcounted.getD 0
  if unaccounted < 0 then ⟨errors, 0, overcounted + -unaccounted⟩
  else ⟨errors, unaccounted, overcounted⟩

/-- The log records of the call and what it returns or raises. -/
def reconcileOrRaise (result : WriteResult) (index : String) :
    List LogRecord × Except EsWriteError WriteResult :=
  let s := result.signals
  let log := if s.overcounted ≠ 0 then [.overcount index s.overcounted s.errors result] else []
  if s.errors = 0 ∧ s.unaccounted ≤ 0 then (log, .ok result)
  else
    let rejected :=
      if s.errors ≠ 0 then [s!"{s.errors} document(s) rejected by Elasticsearch"] else []
    let lost :=
      if 0 < s.unaccounted then
        [s!"{s.unaccounted} row(s) unaccounted for (lost below the per-document level)"]
      else []
    (log, .error
      { target := if index = "" then "" else s!" to index '{index}'"
        parts := rejected ++ lost
        detail := s!" total_input={pyStr result.totalInput} written={pyStr result.written} " ++
          s!"deleted={pyStr result.deleted} errors={s.errors} ignored={pyStr result.ignored}"
        firstFailures := (result.errorSamples.getD []).take 3
        result })

/-- The discrepancies of one sign, added up. -/
def lostRows (rows : List SummaryRow) : Int :=
  ((rows.map SummaryRow.delta).filter fun d => 0 < d).sum

def surplusOutcomes (rows : List SummaryRow) : Int :=
  (((rows.map SummaryRow.delta).filter fun d => d < 0).map fun d => -d).sum

theorem orZero_nonneg (n : Option Nat) : 0 ≤ orZero n := Int.natCast_nonneg _

theorem lostRows_cons (r : SummaryRow) (rows : List SummaryRow) :
    lostRows (r :: rows) = (if 0 < r.delta then r.delta else 0) + lostRows rows := by
  unfold lostRows
  rw [List.map_cons, List.filter_cons]
  by_cases h : 0 < r.delta <;> simp [h]

theorem surplusOutcomes_cons (r : SummaryRow) (rows : List SummaryRow) :
    surplusOutcomes (r :: rows) =
      (if r.delta < 0 then -r.delta else 0) + surplusOutcomes rows := by
  unfold surplusOutcomes
  rw [List.map_cons, List.filter_cons]
  by_cases h : r.delta < 0 <;> simp [h]

theorem lostRows_nonneg (rows : List SummaryRow) : 0 ≤ lostRows rows := by
  induction rows with
  | nil => exact le_rfl
  | cons r rows ih =>
    rw [lostRows_cons]
    split <;> omega

theorem surplusOutcomes_nonneg (rows : List SummaryRow) : 0 ≤ surplusOutcomes rows := by
  induction rows with
  | nil => exact le_rfl
  | cons r rows ih =>
    rw [surplusOutcomes_cons]
    split <;> omega

theorem lostRows_pos_iff (rows : List SummaryRow) : 0 < lostRows rows ↔ ∃ r ∈ rows, 0 < r.delta := by
  induction rows with
  | nil => simp [lostRows]
  | cons r rows ih =>
    rw [lostRows_cons]
    have hn := lostRows_nonneg rows
    simp only [List.mem_cons, exists_eq_or_imp, ← ih]
    split <;> omega

theorem foldl_mergeRow (rows : List SummaryRow) (s : MergeState) :
    let m := rows.foldl mergeRow s
    m.written = s.written + (rows.map fun r => orZero r.written).sum ∧
    m.deleted = s.deleted + (rows.map fun r => orZero r.deleted).sum ∧
    m.errors = s.errors + (rows.map fun r => orZero r.errors).sum ∧
    m.ignored = s.ignored + (rows.map fun r => orZero r.ignored).sum ∧
    m.coercedNonfinite = s.coercedNonfinite + (rows.map fun r => orZero r.coercedNonfinite).sum ∧
    m.totalInput = s.totalInput + (rows.map fun r => orZero r.totalInput).sum ∧
    m.unaccounted = s.unaccounted + lostRows rows ∧
    m.overcounted = s.overcounted + surplusOutcomes rows := by
  induction rows generalizing s with
  | nil => simp [lostRows, surplusOutcomes]
  | cons r rows ih =>
    obtain ⟨hw, hd, he, hi, hc, ht, hu, ho⟩ := ih (mergeRow s r)
    simp only [List.foldl_cons, List.map_cons, List.sum_cons]
    refine ⟨?_, ?_, ?_, ?_, ?_, ?_, ?_, ?_⟩
    · rw [hw, mergeRow, add_assoc]
    · rw [hd, mergeRow, add_assoc]
    · rw [he, mergeRow, add_assoc]
    · rw [hi, mergeRow, add_assoc]
    · rw [hc, mergeRow, add_assoc]
    · rw [ht, mergeRow, add_assoc]
    · rw [hu, lostRows_cons, mergeRow]
      dsimp only
      split <;> omega
    · rw [ho, surplusOutcomes_cons, mergeRow]
      dsimp only
      split
      · rw [if_neg (by omega)]
        omega
      · split <;> omega

theorem sum_delta (rows : List SummaryRow) :
    (rows.map SummaryRow.delta).sum = lostRows rows - surplusOutcomes rows := by
  induction rows with
  | nil => rfl
  | cons r rows ih =>
    rw [List.map_cons, List.sum_cons, ih, lostRows_cons, surplusOutcomes_cons]
    split <;> split <;> omega

theorem sum_delta_eq (rows : List SummaryRow) :
    (rows.map SummaryRow.delta).sum = (rows.map fun r => orZero r.totalInput).sum -
      ((rows.map fun r => orZero r.written).sum + (rows.map fun r => orZero r.deleted).sum +
        (rows.map fun r => orZero r.errors).sum + (rows.map fun r => orZero r.ignored).sum) := by
  induction rows with
  | nil => rfl
  | cons r rows ih =>
    simp only [List.map_cons, List.sum_cons, ih, SummaryRow.delta]
    omega

/-- The numbers of a merged result, as sums over the partitions. -/
theorem mergePartitionResults_numbers (rows : List SummaryRow) :
    let m := mergePartitionResults rows
    m.written = some (rows.map fun r => orZero r.written).sum ∧
    m.deleted = some (rows.map fun r => orZero r.deleted).sum ∧
    m.errors = some (rows.map fun r => orZero r.errors).sum ∧
    m.ignored = some (rows.map fun r => orZero r.ignored).sum ∧
    m.coercedNonfinite = some (rows.map fun r => orZero r.coercedNonfinite).sum ∧
    m.totalInput = some (rows.map fun r => orZero r.totalInput).sum ∧
    m.unaccounted = some (lostRows rows) ∧
    m.overcounted = some (surplusOutcomes rows) := by
  obtain ⟨hw, hd, he, hi, hc, ht, hu, ho⟩ := foldl_mergeRow rows {}
  simp only [zero_add] at hw hd he hi hc ht hu ho
  exact ⟨congrArg some hw, congrArg some hd, congrArg some he, congrArg some hi,
    congrArg some hc, congrArg some ht, congrArg some hu, congrArg some ho⟩

/-- Every input row is an outcome or unaccounted for, up to the outcomes that are one too many. -/
theorem mergePartitionResults_balance (rows : List SummaryRow) :
    (rows.map fun r => orZero r.totalInput).sum + surplusOutcomes rows =
      (rows.map fun r => orZero r.written).sum + (rows.map fun r => orZero r.deleted).sum +
        (rows.map fun r => orZero r.errors).sum + (rows.map fun r => orZero r.ignored).sum +
          lostRows rows := by
  have h := sum_delta rows
  rw [sum_delta_eq] at h
  omega

theorem errors_ne_zero_iff (rows : List SummaryRow) :
    (rows.map fun r => orZero r.errors).sum ≠ 0 ↔ ∃ r ∈ rows, 0 < orZero r.errors := by
  have hn : ∀ l : List SummaryRow, 0 ≤ (l.map fun r => orZero r.errors).sum := by
    intro l
    induction l with
    | nil => exact le_rfl
    | cons r l ih =>
      have := orZero_nonneg r.errors
      simp only [List.map_cons, List.sum_cons]
      omega
  induction rows with
  | nil => simp
  | cons r rows ih =>
    have h0 := orZero_nonneg r.errors
    have h1 := hn rows
    simp only [List.map_cons, List.sum_cons, List.mem_cons, exists_eq_or_imp, ← ih]
    omega

theorem signals_mergePartitionResults (rows : List SummaryRow) :
    (mergePartitionResults rows).signals =
      ⟨(rows.map fun r => orZero r.errors).sum, lostRows rows, surplusOutcomes rows⟩ := by
  obtain ⟨-, -, he, -, -, -, hu, ho⟩ := mergePartitionResults_numbers rows
  have hn := lostRows_nonneg rows
  simp only [WriteResult.signals, he, hu, ho, Option.getD_some]
  rw [if_neg (by omega)]

theorem reconcileOrRaise_ok_iff (result : WriteResult) (index : String) :
    (reconcileOrRaise result index).2 = .ok result ↔
      result.signals.errors = 0 ∧ result.signals.unaccounted ≤ 0 := by
  rw [reconcileOrRaise]
  dsimp only
  split
  · next h => exact iff_of_true rfl h
  · next h => exact iff_of_false (by simp) h

theorem reconcileOrRaise_error_iff (result : WriteResult) (index : String) :
    (∃ e, (reconcileOrRaise result index).2 = .error e) ↔
      ¬(result.signals.errors = 0 ∧ result.signals.unaccounted ≤ 0) := by
  rw [reconcileOrRaise]
  dsimp only
  split
  · next h => exact iff_of_false (by simp) (not_not.mpr h)
  · next h => exact iff_of_true ⟨_, rfl⟩ h

theorem reconcileOrRaise_overcount_iff (result : WriteResult) (index : String) :
    (∃ r ∈ (reconcileOrRaise result index).1, r.isOvercount = true) ↔
      result.signals.overcounted ≠ 0 := by
  have hlog : (reconcileOrRaise result index).1 = if result.signals.overcounted ≠ 0 then
      [.overcount index result.signals.overcounted result.signals.errors result] else [] := by
    rw [reconcileOrRaise]
    dsimp only
    split <;> rfl
  rw [hlog]
  by_cases h : result.signals.overcounted = 0
  · simp [h]
  · simp [h, LogRecord.isOvercount]

/-- The verdict on merged partitions: some partition has an error or a lost row. -/
theorem reconcileOrRaise_merge_iff (rows : List SummaryRow) (index : String) :
    (∃ e, (reconcileOrRaise (mergePartitionResults rows) index).2 = .error e) ↔
      ∃ r ∈ rows, 0 < orZero r.errors ∨ 0 < r.delta := by
  rw [reconcileOrRaise_error_iff, signals_mergePartitionResults]
  have he := errors_ne_zero_iff rows
  have hl := lostRows_pos_iff rows
  dsimp only
  rw [not_and_or, not_le, ← ne_eq, he, hl]
  constructor
  · rintro (⟨r, hr, h⟩ | ⟨r, hr, h⟩)
    · exact ⟨r, hr, .inl h⟩
    · exact ⟨r, hr, .inr h⟩
  · rintro ⟨r, hr, h | h⟩
    · exact .inl ⟨r, hr, h⟩
    · exact .inr ⟨r, hr, h⟩

end EsConnector
