import Mathlib.Data.List.Sort
import Mathlib.Data.Rat.Floor
import EsConnector.Tally

namespace EsConnector
set_option autoImplicit true

/-- `_percentile`: linear interpolation in a sorted list, in exact arithmetic. -/
def percentile (sortedVals : List ℚ) (q : ℚ) : Option ℚ :=
  match sortedVals with
  | [] => none
  | [v] => some v
  | vals =>
    let idx := (q / 100) * ((vals.length : ℚ) - 1)
    let lo := ⌊idx⌋.toNat
    let frac := idx - lo
    if lo + 1 < vals.length then
      some (vals.getD lo 0 * (1 - frac) + vals.getD (lo + 1) 0 * frac)
    else some (vals.getD lo 0)

/-- The columns `{prefix}_mean`, `_p50`, `_p95` and `_max`. -/
structure Dist where
  mean : Option ℚ
  p50 : Option ℚ
  p95 : Option ℚ
  max : Option ℚ
deriving DecidableEq, Repr

def Dist.of (sortedVals : List ℚ) : Dist where
  mean := if sortedVals = [] then none else some (sortedVals.sum / sortedVals.length)
  p50 := percentile sortedVals 50
  p95 := percentile sortedVals 95
  max := sortedVals.getLast?

def sortMs (vals : List ℚ) : List ℚ := vals.insertionSort (· ≤ ·)

/-- The per-partition columns added under `bulk_stats`. -/
structure BulkStats where
  nSends : Nat
  docsSent : Nat
  bytesSent : Nat
  sendBusyMs : ℚ
  sendCpuMs : ℚ
  partitionWallMs : ℚ
  timeoutSends : Nat
  timeoutWaitMs : ℚ
  errorSends : Nat
  errorWaitMs : ℚ
  diag : Diag
  rttMs : Dist
  httpMs : Dist
  tookMs : Dist
  gilWaitMsTotal : ℚ
  gilWaitMsP50 : Option ℚ
  gilWaitMsP95 : Option ℚ
  gilWaitMsMax : Option ℚ
  gilWaitSamples : Nat
deriving DecidableEq, Repr

/-- What the writer measures itself: its wall clock and the lags of the GIL probe. -/
structure PartitionClock where
  wallMs : ℚ := 0
  gilLags : List ℚ := []

/-- `_aggregate_bulk_stats`, `_aggregate_gil_wait` and the diagnostics, as the writer joins
them. -/
def aggregateBulkStats (stats : List SendRecord) (diag : Diag) (clock : PartitionClock) :
    BulkStats :=
  let ok := stats.filter (·.outcome = .ok)
  let timeouts := stats.filter (·.outcome = .timeout)
  let errors := stats.filter (·.outcome = .error)
  let lags := sortMs clock.gilLags
  { nSends := ok.length
    docsSent := (ok.map (·.docs)).sum
    bytesSent := (ok.map (·.bytes)).sum
    sendBusyMs := (ok.map (·.rttMs)).sum
    sendCpuMs := (ok.map (·.cpuMs)).sum
    partitionWallMs := clock.wallMs
    timeoutSends := timeouts.length
    timeoutWaitMs := (timeouts.map (·.rttMs)).sum
    errorSends := errors.length
    errorWaitMs := (errors.map (·.rttMs)).sum
    diag := diag
    rttMs := .of (sortMs (ok.map (·.rttMs)))
    httpMs := .of (sortMs (ok.filterMap (·.httpMs)))
    tookMs := .of (sortMs (ok.filterMap (·.tookMs)))
    gilWaitMsTotal := lags.sum
    gilWaitMsP50 := percentile lags 50
    gilWaitMsP95 := percentile lags 95
    gilWaitMsMax := lags.getLast?
    gilWaitSamples := lags.length }

end EsConnector
