import EsConnector.Interaction
import EsConnector.Tally

namespace EsConnector
set_option autoImplicit true

open Interaction

/-- The action lines of the connector are texts; shipping them only measures their length. -/
class NdjsonLine (Line : Type) where
  length : Line → Nat

instance : NdjsonLine String := ⟨String.length⟩

/-- The Python exceptions that can leave `_ship_ndjson_chunk`: a response without `items`, or one
with more items than lines where a surplus item asks to be retried. -/
inductive ShipError where
  | keyError
  | indexError
deriving DecidableEq, Repr

/-- Programs that talk to the cluster through `es.bulk`. -/
abbrev BulkProg (Line : Type) (α : Type) : Type :=
  Prog (BulkRequest Line) (fun _ => BulkReply) α

abbrev BulkEnv (C : Type) (Line : Type) : Type :=
  Env C (BulkRequest Line) (fun _ => BulkReply)

variable {Line : Type} [NdjsonLine Line]

/-- The record `_send` keeps of one call. A timeout is told apart only where the exception type
was imported. -/
def sendRecord (cfg : EsWriteConfig) (ops : List Line) (reply : BulkReply) : SendRecord where
  docs := ops.length
  bytes := (ops.map NdjsonLine.length).sum
  rttMs := reply.rttMs
  tookMs := match reply.result with
    | .ok resp => resp.tookMs
    | .error _ => none
  cpuMs := reply.cpuMs
  httpMs := match reply.result with
    | .ok resp => resp.httpMs
    | .error _ => none
  outcome := match reply.result with
    | .ok _ => .ok
    | .error e =>
      if (cfg.bulkStats || cfg.retryTransportTimeout) && e.isConnectionTimeout then .timeout
      else .error

/-- What a send gives back: the response or the exception, and the send records so far. -/
abbrev SendResult : Type := Except BulkException BulkResponse × Option (List SendRecord)

def send (cfg : EsWriteConfig) (ops : List Line) (filterPath : FilterPath)
    (stats : Option (List SendRecord)) : BulkProg Line SendResult := do
  let reply ← Prog.query (⟨ops, filterPath⟩ : BulkRequest Line)
  pure (reply.result, stats.map (· ++ [sendRecord cfg ops reply]))

/-- `_send_retrying`, where `left` is `transport_max_retries - attempt`. Without the budget every
exception propagates. -/
def sendRetrying (cfg : EsWriteConfig) (ops : List Line) (filterPath : FilterPath) :
    (left : Nat) → Option (List SendRecord) → BulkProg Line SendResult
  | 0, stats => send cfg ops filterPath stats
  | left + 1, stats => do
    let (result, stats) ← send cfg ops filterPath stats
    match result with
    | .ok resp => pure (.ok resp, stats)
    | .error e =>
      if cfg.retryTransportTimeout && e.isConnectionTimeout then
        sendRetrying cfg ops filterPath left stats
      else pure (.error e, stats)

/-- The state of one pass over the items of a response. -/
structure Round (Line : Type) where
  tally : Tally
  retryLines : List Line := []

/-- An item that asks for its line to be sent again: a rejection, no ignored no-op, with a
retryable status. -/
def retryable (cfg : EsWriteConfig) (o : ItemOutcome) : Bool :=
  !o.ok && o.outcome != .ignored && cfg.retryOnDocStatus.contains o.body.statusCode

/-- The tally of an item that is not retried. -/
def tallyItem (o : ItemOutcome) (t : Tally) : Tally :=
  match o.outcome with
  | .written => t.addCounts (.one .written)
  | .deleted => t.addCounts (.one .deleted)
  | .ignored =>
    let t := t.addCounts (.one .ignored)
    if o.opType = .create ∧ o.body.statusCode = 409 then t.addDiag { docsDeduped := 1 } else t
  | .error => (t.addCounts (.one .error)).addSample (extractErrorSample o.opType o.body)

/-- The reject bucket of a non-2xx item, counted before the retry decision. -/
def bumpReject (o : ItemOutcome) (t : Tally) : Tally :=
  if !o.ok && o.outcome != .ignored then t.addDiag (rejectBucket o.body.statusCode) else t

/-- One iteration of the loop over the items, for the item at position `idx`. -/
def roundStep (cfg : EsWriteConfig) (mayRetry : Bool) (pending : List Line) (idx : Nat)
    (o : ItemOutcome) (r : Round Line) : Except ShipError (Round Line) :=
  let tally := bumpReject o r.tally
  if retryable cfg o && mayRetry then
    match pending[idx]? with
    | none => .error .indexError
    | some line => .ok { tally, retryLines := r.retryLines ++ [line] }
  else .ok { r with tally := tallyItem o tally }

def roundLoop (cfg : EsWriteConfig) (mayRetry : Bool) (pending : List Line) :
    Nat → List ItemOutcome → Round Line → Except ShipError (Round Line)
  | _, [], r => .ok r
  | idx, o :: os, r => do
    let r ← roundStep cfg mayRetry pending idx o r
    roundLoop cfg mayRetry pending (idx + 1) os r

/-- `resp.get("items", [])` of a dict, `resp["items"]` of a response object. -/
def BulkResponse.itemList (resp : BulkResponse) : Except ShipError (List Item) :=
  match resp.items with
  | some items => .ok items
  | none => if resp.isDict then .ok [] else .error .keyError

theorem BulkResponse.itemList_of_items {resp : BulkResponse} {items : List Item}
    (h : resp.items = some items) : resp.itemList = .ok items := by
  rw [itemList, h]

/-- The pass over one response of the full path. -/
def classifyResponse (cfg : EsWriteConfig) (mayRetry : Bool) (pending : List Line)
    (resp : BulkResponse) (t : Tally) : Except ShipError (Round Line) := do
  let items ← resp.itemList
  let r ← roundLoop cfg mayRetry pending 0 (iterBulkResponseOutcomes items) { tally := t }
  if r.retryLines = [] then pure r
  else pure { r with tally := r.tally.addDiag { docsRetried := r.retryLines.length } }

def fullFilterPath (t : Tally) : FilterPath := if t.stats.isSome then .tookItems else .items

/-- One iteration of the full path: a send and the pass over its response. -/
def fullRound (cfg : EsWriteConfig) (mayRetry : Bool) (pending : List Line) (t : Tally) :
    BulkProg Line (Except ShipError (Round Line)) := do
  let (result, stats) ← sendRetrying cfg pending (fullFilterPath t)
    cfg.transportMaxRetries.toNat t.stats
  let t := { t with stats }
  match result with
  | .error e => pure (.ok { tally := t.failRequest pending.length e })
  | .ok resp => pure (classifyResponse cfg mayRetry pending resp t)

/-- The loop of the full path, where `left` is `max_retries_per_doc - attempt`. Once the budget is
spent a round leaves nothing to retry. -/
def fullPath (cfg : EsWriteConfig) :
    (left : Nat) → List Line → Tally → BulkProg Line (Except ShipError Tally)
  | 0, pending, t =>
    if pending = [] then pure (.ok t)
    else do
      match ← fullRound cfg false pending t with
      | .error e => pure (.error e)
      | .ok r => pure (.ok r.tally)
  | left + 1, pending, t =>
    if pending = [] then pure (.ok t)
    else do
      match ← fullRound cfg true pending t with
      | .error e => pure (.error e)
      | .ok r =>
        if r.retryLines = [] then pure (.ok r.tally)
        else fullPath cfg left r.retryLines r.tally

def fastFilterPath (t : Tally) : FilterPath := if t.stats.isSome then .errorsTook else .errors

/-- `not cfg.has_deletes and not cfg.bypass_fast_path`. -/
def EsWriteConfig.probes (cfg : EsWriteConfig) : Bool := !cfg.hasDeletes && !cfg.bypassFastPath

def shipNdjsonChunk (cfg : EsWriteConfig) (lines : List Line) (t : Tally) :
    BulkProg Line (Except ShipError Tally) :=
  if cfg.probes then do
    let (result, stats) ← sendRetrying cfg lines (fastFilterPath t)
      cfg.transportMaxRetries.toNat t.stats
    let t := { t with stats }
    match result with
    | .error e => pure (.ok (t.failRequest lines.length e))
    | .ok resp =>
      if resp.errors.getD true = false then
        pure (.ok (t.addCounts { written := lines.length }))
      else fullPath cfg cfg.maxRetriesPerDoc.toNat lines t
  else fullPath cfg cfg.maxRetriesPerDoc.toNat lines t

end EsConnector
