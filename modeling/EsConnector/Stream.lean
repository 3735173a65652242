import EsConnector.Driver

namespace EsConnector
set_option autoImplicit true

open Interaction

/-- What `on_error` decides about a failed write. -/
inductive OnError where
  | raise | log | ignore
deriving DecidableEq, Repr

/-- The check of `make_foreach_batch`. -/
def OnError.ofString (s : String) : Except String OnError :=
  if s = "raise" then .ok .raise
  else if s = "log" then .ok .log
  else if s = "ignore" then .ok .ignore
  else .error s!"on_error must be one of ('raise', 'log', 'ignore'), got '{s}'"

/-- `bulk_write` raised: a preflight check failed, or the Spark job did. -/
inductive BulkWriteError where
  | valueError (message : String)
  | jobFailed
deriving DecidableEq, Repr

/-- The callback raised. -/
structure CallbackError where
  message : String
deriving DecidableEq, Repr

/-- What a micro-batch asks of its surroundings. The callback is handed the result dictionary
itself, so its reply is that dictionary as the callback leaves it. -/
inductive StreamQuery where
  | isEmpty
  | bulkWrite
  | onBatch (batchId : Int) (result : WriteResult)
  | log (record : LogRecord)
deriving DecidableEq

@[reducible] def StreamQuery.Reply : StreamQuery → Type
  | .isEmpty => Bool
  | .bulkWrite => Except BulkWriteError WriteResult
  | .onBatch .. => Except CallbackError WriteResult
  | .log _ => Unit

abbrev StreamProg (α : Type) : Type := Prog StreamQuery StreamQuery.Reply α

/-- The exceptions that fail a micro-batch. -/
inductive BatchError where
  | bulkWrite (e : BulkWriteError)
  | callback (e : CallbackError)
  | esWrite (e : EsWriteError)
deriving DecidableEq

def logAll : List LogRecord → StreamProg Unit
  | [] => pure ()
  | r :: rs => do
    let _ : Unit ← Prog.query (StreamQuery.log r)
    logAll rs

/-- `if on_batch: on_batch(batch_id, result)`. -/
def callOnBatch (hasOnBatch : Bool) (batchId : Int) (result : WriteResult) :
    StreamProg (Except CallbackError WriteResult) :=
  if hasOnBatch then Prog.query (StreamQuery.onBatch batchId result) else pure (.ok result)

/-- The result an empty micro-batch reports. -/
def emptyBatchResult : WriteResult where
  written := some 0
  deleted := some 0
  errors := some 0
  ignored := some 0
  coercedNonfinite := some 0
  totalInput := some 0
  unaccounted := some 0
  overcounted := some 0
  errorSamples := some []
  empty := true

/-- The records the `log` policy writes. -/
def logPolicy (index : String) (batchId : Int) (result : WriteResult) : List LogRecord :=
  (if result.errors.getD 0 ≠ 0 ∨ 0 < result.unaccounted.getD 0 then
    [.batchFailure batchId index result] else []) ++
  (if 0 < result.overcounted.getD 0 then [.batchOvercount batchId index result] else [])

/-- The error policy of a micro-batch that was written. -/
def applyPolicy (onError : OnError) (index : String) (batchId : Int) (result : WriteResult) :
    StreamProg (Except BatchError Unit) :=
  match onError with
  | .raise => do
    let (records, verdict) := reconcileOrRaise result index
    logAll records
    match verdict with
    | .error e => pure (.error (.esWrite e))
    | .ok _ => pure (.ok ())
  | .log => do
    logAll (logPolicy index batchId result)
    pure (.ok ())
  | .ignore => pure (.ok ())

/-- `_foreach_batch`. -/
def foreachBatch (index : String) (hasOnBatch : Bool) (onError : OnError) (batchId : Int) :
    StreamProg (Except BatchError Unit) := do
  let empty : Bool ← Prog.query StreamQuery.isEmpty
  if empty then
    match ← callOnBatch hasOnBatch batchId emptyBatchResult with
    | .error e => pure (.error (.callback e))
    | .ok _ => pure (.ok ())
  else
    let written : Except BulkWriteError WriteResult ← Prog.query StreamQuery.bulkWrite
    match written with
    | .error e => pure (.error (.bulkWrite e))
    | .ok result =>
      match ← callOnBatch hasOnBatch batchId result with
      | .error e => pure (.error (.callback e))
      | .ok result => applyPolicy onError index batchId result

/-- The surroundings of a micro-batch with rows whose write returned `result` and whose callback
only looked at it. -/
def wroteBatch (result : WriteResult) : (q : StreamQuery) → q.Reply
  | .isEmpty => false
  | .bulkWrite => .ok result
  | .onBatch _ result => .ok result
  | .log _ => ()

def logOf (asked : List StreamQuery) : List LogRecord :=
  asked.filterMap fun q => match q with
    | .log r => some r
    | _ => none

/-- The outcome of a micro-batch whose write returned `result`, with its log. -/
def batchOutcome (index : String) (hasOnBatch : Bool) (onError : OnError) (batchId : Int)
    (result : WriteResult) : Except BatchError Unit × List LogRecord :=
  let (outcome, asked) :=
    (foreachBatch index hasOnBatch onError batchId).eval (wroteBatch result)
  (outcome, logOf asked)

theorem eval_logAll (answer : (q : StreamQuery) → q.Reply) (records : List LogRecord) :
    (logAll records).eval answer = ((), records.map .log) := by
  induction records with
  | nil => rfl
  | cons r rs ih => simp [logAll, ih]

@[simp] theorem logOf_map_log (records : List LogRecord) : logOf (records.map .log) = records := by
  simp [logOf, List.filterMap_map]

theorem batchOutcome_eq (index : String) (hasOnBatch : Bool) (onError : OnError) (batchId : Int)
    (result : WriteResult) : batchOutcome index hasOnBatch onError batchId result =
      (((applyPolicy onError index batchId result).eval (wroteBatch result)).1,
        logOf ((applyPolicy onError index batchId result).eval (wroteBatch result)).2) := by
  cases hasOnBatch <;> simp [batchOutcome, foreachBatch, callOnBatch, wroteBatch, logOf]

theorem batchOutcome_raise (index : String) (hasOnBatch : Bool) (batchId : Int)
    (result : WriteResult) : batchOutcome index hasOnBatch .raise batchId result =
      (match (reconcileOrRaise result index).2 with
        | .error e => .error (.esWrite e)
        | .ok _ => .ok (),
        (reconcileOrRaise result index).1) := by
  rw [batchOutcome_eq]
  cases hr : (reconcileOrRaise result index).2 <;>
    simp [applyPolicy, eval_logAll, hr]

theorem batchOutcome_log (index : String) (hasOnBatch : Bool) (batchId : Int)
    (result : WriteResult) : batchOutcome index hasOnBatch .log batchId result =
      (.ok (), logPolicy index batchId result) := by
  rw [batchOutcome_eq]
  simp [applyPolicy, eval_logAll]

theorem batchOutcome_raise_error_iff (index : String) (hasOnBatch : Bool) (batchId : Int)
    (result : WriteResult) :
    (∃ e, (batchOutcome index hasOnBatch .raise batchId result).1 = .error e) ↔
      ∃ e, (reconcileOrRaise result index).2 = .error e := by
  rw [batchOutcome_raise]
  cases (reconcileOrRaise result index).2 <;> simp

theorem logPolicy_failure_iff (index : String) (batchId : Int) (result : WriteResult) :
    (∃ r ∈ logPolicy index batchId result, r.isFailure = true) ↔
      result.errors.getD 0 ≠ 0 ∨ 0 < result.unaccounted.getD 0 := by
  rw [logPolicy]
  split <;> split <;> simp_all [LogRecord.isFailure]

theorem logPolicy_overcount_iff (index : String) (batchId : Int) (result : WriteResult) :
    (∃ r ∈ logPolicy index batchId result, r.isOvercount = true) ↔
      0 < result.overcounted.getD 0 := by
  rw [logPolicy]
  split <;> split <;> simp_all [LogRecord.isOvercount]

/-- The numeric totals of a result. -/
def WriteResult.numbers (m : WriteResult) : List (Option Int) :=
  [m.written, m.deleted, m.errors, m.ignored, m.coercedNonfinite, m.totalInput, m.unaccounted,
    m.overcounted]

theorem lostRows_perm (h : rows.Perm rows') : lostRows rows = lostRows rows' :=
  ((h.map _).filter _).sum_eq

theorem surplusOutcomes_perm (h : rows.Perm rows') : surplusOutcomes rows = surplusOutcomes rows' :=
  (((h.map _).filter _).map _).sum_eq

theorem numbers_perm (h : rows.Perm rows') :
    (mergePartitionResults rows).numbers = (mergePartitionResults rows').numbers := by
  obtain ⟨hw, hd, he, hi, hc, ht, hu, ho⟩ := mergePartitionResults_numbers rows
  obtain ⟨hw', hd', he', hi', hc', ht', hu', ho'⟩ := mergePartitionResults_numbers rows'
  have hsum (f : SummaryRow → Int) : (rows.map f).sum = (rows'.map f).sum := (h.map f).sum_eq
  simp only [WriteResult.numbers, hw, hd, he, hi, hc, ht, hu, ho, hw', hd', he', hi', hc', ht',
    hu', ho', hsum, lostRows_perm h, surplusOutcomes_perm h]

/-- The verdict on a write is the same one in the merge, in `reconcile_or_raise` and in both
policies of the stream, and no partition masks another. -/
theorem driver_verdict_exact (rows : List SummaryRow) (index : String) (hasOnBatch : Bool)
    (batchId : Int) :
    let m := mergePartitionResults rows
    let raised := batchOutcome index hasOnBatch .raise batchId m
    let logged := batchOutcome index hasOnBatch .log batchId m
    m.unaccounted = some ((rows.map SummaryRow.delta).filter fun d => 0 < d).sum ∧
    m.overcounted = some (((rows.map SummaryRow.delta).filter fun d => d < 0).map fun d => -d).sum ∧
    m.totalInput.getD 0 + m.overcounted.getD 0 =
      m.written.getD 0 + m.deleted.getD 0 + m.errors.getD 0 + m.ignored.getD 0 +
        m.unaccounted.getD 0 ∧
    (∀ rows', rows.Perm rows' → m.numbers = (mergePartitionResults rows').numbers) ∧
    ((∃ e, (reconcileOrRaise m index).2 = .error e) ↔
      ∃ r ∈ rows, 0 < orZero r.errors ∨ 0 < r.delta) ∧
    ((∃ e, raised.1 = .error e) ↔ ∃ e, (reconcileOrRaise m index).2 = .error e) ∧
    ((∃ e, raised.1 = .error e) ↔ ∃ r ∈ logged.2, r.isFailure = true) ∧
    ((∃ r ∈ raised.2, r.isOvercount = true) ↔ 0 < m.overcounted.getD 0) ∧
    ((∃ r ∈ logged.2, r.isOvercount = true) ↔ 0 < m.overcounted.getD 0) := by
  obtain ⟨hw, hd, he, hi, -, ht, hu, ho⟩ := mergePartitionResults_numbers rows
  have hsig := signals_mergePartitionResults rows
  have hlost := lostRows_nonneg rows
  have hover := surplusOutcomes_nonneg rows
  refine ⟨hu, ho, ?_, fun _ h => numbers_perm h, reconcileOrRaise_merge_iff rows index,
    batchOutcome_raise_error_iff .., ?_, ?_, ?_⟩
  · rw [hw, hd, he, hi, ht, hu, ho]
    exact mergePartitionResults_balance rows
  · rw [batchOutcome_raise_error_iff, reconcileOrRaise_error_iff, hsig, batchOutcome_log,
      logPolicy_failure_iff, he, hu]
    simp only [Option.getD_some]
    omega
  · rw [batchOutcome_raise, reconcileOrRaise_overcount_iff, hsig, ho]
    simp only [Option.getD_some]
    omega
  · rw [batchOutcome_log]
    exact logPolicy_overcount_iff index batchId _

end EsConnector
