import EsConnector.Pool
import EsConnector.ShipChunk
import EsConnector.BulkStats

namespace EsConnector
set_option autoImplicit true

open Interaction

/-- The result of a worker task: its private accumulators or the exception it raised. -/
abbrev ChunkResult : Type := Except ShipError Tally

/-- Programs that run in a partition: they may call the cluster themselves or have a thread pool
ship chunks. -/
abbrev PartitionProg (Line : Type) (α : Type) : Type :=
  PoolProg (BulkRequest Line) (fun _ => BulkReply) (List Line) ChunkResult α

/-- The exceptions that fail a partition. -/
inductive WriteError where
  | valueError (message : String)
  | ship (e : ShipError)
deriving DecidableEq, Repr

def nullLineMessage : String :=
  "build_ndjson produced a null action line: the id_field value is null or " ++
  "non-finite (NaN/inf) in at least one row. Every row needs a non-null, finite " ++
  "id. Fix the id column, or leave id_field unset to let Elasticsearch assign ids."

/-- `range(0, stop, step)`. -/
def pyRange (stop : Nat) (step : Int) : Except WriteError (List Nat) :=
  if step = 0 then .error (.valueError "range() arg 3 must not be zero")
  else if step < 0 then .ok []
  else .ok ((List.range ((stop + step.toNat - 1) / step.toNat)).map (· * step.toNat))

/-- The slices `lines[i:i + cs]` for `i in range(0, len(lines), cs)`. -/
def chunkSlices (cs : Int) (lines : List Line) : Except WriteError (List (List Line)) :=
  (pyRange lines.length cs).map fun starts => starts.map fun i => (lines.drop i).take cs.toNat

/-- The mutable state of the shipper: the outstanding futures and the shared totals. -/
structure Shipper where
  pending : List Nat := []
  tally : Tally

/-- The loop of `_drain_one` over the results of the finished futures. `f.result()` raises what the
worker raised. -/
def mergeResults : List ChunkResult → Tally → Except ShipError Tally
  | [], t => .ok t
  | .error e :: _, _ => .error e
  | .ok u :: rest, t => mergeResults rest (t.merge u)

variable {Line : Type}

def drainOne (s : Shipper) : PartitionProg Line (Except WriteError Shipper) := do
  let c : Completion s.pending ChunkResult ← Prog.query (PoolQuery.wait s.pending)
  match mergeResults (c.done.map Prod.snd) s.tally with
  | .error e => pure (.error (.ship e))
  | .ok tally => pure (.ok { pending := c.notDone, tally })

/-- `while len(self._pending) >= bound: self._drain_one()`, with fuel for one call for each
outstanding future. -/
def drainWhile (bound : Nat) : (fuel : Nat) → Shipper →
    PartitionProg Line (Except WriteError Shipper)
  | 0, s => pure (.ok s)
  | fuel + 1, s =>
    if bound ≤ s.pending.length then do
      match ← drainOne s with
      | .error e => pure (.error e)
      | .ok s => drainWhile bound fuel s
    else pure (.ok s)

/-- The loop of `feed` over the slices of a batch. -/
def submitChunks (maxInflight : Nat) : List (List Line) → Shipper →
    PartitionProg Line (Except WriteError Shipper)
  | [], s => pure (.ok s)
  | chunk :: rest, s => do
    match ← drainWhile maxInflight s.pending.length s with
    | .error e => pure (.error e)
    | .ok s =>
      let future : Nat ← Prog.query (PoolQuery.submit chunk)
      submitChunks maxInflight rest { s with pending := s.pending ++ [future] }

def feed (cfg : EsWriteConfig) (lines : List Line) (s : Shipper) :
    PartitionProg Line (Except WriteError Shipper) :=
  match chunkSlices cfg.chunkSize lines with
  | .error e => pure (.error e)
  | .ok chunks => submitChunks cfg.writeConcurrency.toNat chunks s

/-- `while self._pending: self._drain_one()`. -/
def close (s : Shipper) : PartitionProg Line (Except WriteError Shipper) :=
  drainWhile 1 s.pending.length s

/-- How a chunk is shipped into given accumulators. -/
abbrev ShipInto (Line : Type) : Type := List Line → Tally → PartitionProg Line ChunkResult

/-- The chunks of a partition go through `_ship_ndjson_chunk`. -/
def shipInto [NdjsonLine Line] (cfg : EsWriteConfig) : ShipInto Line := fun chunk t =>
  (shipNdjsonChunk cfg chunk t).embed PoolQuery.call fun _ r => r

/-- `_ship_one`: a worker ships one chunk into private accumulators. -/
def shipOne [NdjsonLine Line] (cfg : EsWriteConfig) (chunk : List Line) :
    BulkProg Line ChunkResult :=
  shipNdjsonChunk cfg chunk (.start cfg.bulkStats)

/-- The serial loop over the slices of a batch. -/
def shipSerially (ship : ShipInto Line) : List (List Line) → Shipper →
    PartitionProg Line (Except WriteError Shipper)
  | [], s => pure (.ok s)
  | chunk :: rest, s => do
    match ← ship chunk s.tally with
    | .error e => pure (.error (.ship e))
    | .ok tally => shipSerially ship rest { s with tally }

/-- `cfg.write_concurrency > 1`: the partition owns a thread pool. -/
def EsWriteConfig.pooled (cfg : EsWriteConfig) : Bool := decide (1 < cfg.writeConcurrency)

/-- Ship the lines of one batch. -/
def shipBatch (cfg : EsWriteConfig) (ship : ShipInto Line) (lines : List Line) (s : Shipper) :
    PartitionProg Line (Except WriteError Shipper) :=
  if cfg.pooled then feed cfg lines s
  else
    match chunkSlices cfg.chunkSize lines with
    | .error e => pure (.error e)
    | .ok chunks => shipSerially ship chunks s

/-- The locals of `_write` that survive a batch. -/
structure PartitionState where
  totalInput : Nat := 0
  shipper : Shipper

/-- The body of `for pdf in iterator`: a null action line fails the partition before any line of
its batch is sent. -/
def writeBatches (cfg : EsWriteConfig) (ship : ShipInto Line) :
    List (List (Option Line)) → PartitionState →
      PartitionProg Line (Except WriteError PartitionState)
  | [], s => pure (.ok s)
  | col :: rest, s =>
    let totalInput := s.totalInput + col.length
    if col.any Option.isNone then pure (.error (.valueError nullLineMessage))
    else
      let lines := col.reduceOption
      if lines = [] then writeBatches cfg ship rest { s with totalInput }
      else do
        match ← shipBatch cfg ship lines s.shipper with
        | .error e => pure (.error e)
        | .ok shipper => writeBatches cfg ship rest { totalInput, shipper }

/-- One summary row. The driver reads the columns with `in` and `or 0`, so each may be absent. -/
structure SummaryRow where
  written : Option Nat
  deleted : Option Nat
  errors : Option Nat
  ignored : Option Nat
  coercedNonfinite : Option Nat
  totalInput : Option Nat
  errorSamples : Option (List ErrorSample)
  bulkStats : Option BulkStats := none
deriving DecidableEq

/-- The summary row of a partition. -/
def summaryRow (totalInput : Nat) (t : Tally) (clock : PartitionClock) : SummaryRow where
  written := some t.counts.written
  deleted := some t.counts.deleted
  errors := some t.counts.errors
  ignored := some t.counts.ignored
  coercedNonfinite := some 0
  totalInput := some totalInput
  errorSamples := some t.errorSamples
  bulkStats := match t.stats, t.diag with
    | some stats, some diag => some (aggregateBulkStats stats diag clock)
    | _, _ => none

/-- The `try` block of `_write`. -/
def writeBody (cfg : EsWriteConfig) (ship : ShipInto Line) (batches : List (List (Option Line))) :
    PartitionProg Line (Except WriteError PartitionState) := do
  match ← writeBatches cfg ship batches { shipper := { tally := .start cfg.bulkStats } } with
  | .error e => pure (.error e)
  | .ok s =>
    if cfg.pooled then do
      match ← close s.shipper with
      | .error e => pure (.error e)
      | .ok shipper => pure (.ok { s with shipper })
    else pure (.ok s)

/-- `_write`: the pool is shut down on success and on failure, then the row is yielded. -/
def write (cfg : EsWriteConfig) (ship : ShipInto Line) (clock : PartitionClock)
    (batches : List (List (Option Line))) :
    PartitionProg Line (Except WriteError SummaryRow) := do
  let result ← writeBody cfg ship batches
  if cfg.pooled then
    let _ : Unit ← Prog.query (PoolQuery.shutdown : PoolQuery (BulkRequest Line) (List Line))
  match result with
  | .error e => pure (.error e)
  | .ok s => pure (.ok (summaryRow s.totalInput s.shipper.tally clock))

end EsConnector
