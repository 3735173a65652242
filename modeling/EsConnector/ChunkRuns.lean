import EsConnector.Accounting

namespace EsConnector
set_option autoImplicit true

open Interaction

variable {Line : Type}

/-- The call returned a response. -/
def answered (c : BulkCall Line) : Bool :=
  match c.2.result with
  | .ok _ => true
  | .error _ => false

/-- The connector owns the retry of this exception. -/
def EsWriteConfig.retriesTransport (cfg : EsWriteConfig) (e : BulkException) : Bool :=
  cfg.retryTransportTimeout && e.isConnectionTimeout

/-- The calls of one `_send_retrying` with `left` re-sends to spend. -/
inductive Burst (cfg : EsWriteConfig) (q : BulkRequest Line)
    (result : Except BulkException BulkResponse) : Nat → List (BulkCall Line) → Prop where
  | last (reply : BulkReply) (h : reply.result = result)
      (hend : left = 0 ∨ ∀ e, result = .error e → cfg.retriesTransport e = false) :
      Burst cfg q result left [⟨q, reply⟩]
  | again (reply : BulkReply) (he : reply.result = .error e)
      (hresend : cfg.retriesTransport e = true)
      (hrest : Burst cfg q result left calls) :
      Burst cfg q result (left + 1) (⟨q, reply⟩ :: calls)

theorem Burst.getLast (h : Burst cfg (q : BulkRequest Line) result left calls) :
    ∃ reply, calls.getLast? = some ⟨q, reply⟩ ∧ reply.result = result := by
  induction h with
  | last reply h _ => exact ⟨reply, rfl, h⟩
  | again _ _ _ hrest ih =>
    obtain ⟨reply, hl, hr⟩ := ih
    exact ⟨reply, by rw [List.getLast?_cons, hl]; rfl, hr⟩

variable [NdjsonLine Line]

/-- What `_send` records of a completed call. -/
def callRecord (cfg : EsWriteConfig) (c : BulkCall Line) : SendRecord :=
  sendRecord cfg c.1.operations c.2

def Tally.record (cfg : EsWriteConfig) (t : Tally) (calls : List (BulkCall Line)) : Tally :=
  { t with stats := t.stats.map (· ++ calls.map (callRecord cfg)) }

/-- A complete run of the full path with `left` rounds of retries to spend. -/
inductive FullRun (cfg : EsWriteConfig) :
    Nat → List Line → Tally → List (BulkCall Line) → ChunkResult → Prop where
  | nil : FullRun cfg left [] t [] (.ok t)
  | raised (hp : pending ≠ [])
      (hb : Burst cfg ⟨pending, fullFilterPath t⟩ (.error e) cfg.transportMaxRetries.toNat calls) :
      FullRun cfg left pending t calls
        (.ok ((t.record cfg calls).failRequest pending.length e))
  | failed (hp : pending ≠ [])
      (hb : Burst cfg ⟨pending, fullFilterPath t⟩ (.ok resp) cfg.transportMaxRetries.toNat calls)
      (hc : classifyResponse cfg (decide (0 < left)) pending resp (t.record cfg calls) =
        .error e) : FullRun cfg left pending t calls (.error e)
  | done (hp : pending ≠ [])
      (hb : Burst cfg ⟨pending, fullFilterPath t⟩ (.ok resp) cfg.transportMaxRetries.toNat calls)
      (hc : classifyResponse cfg (decide (0 < left)) pending resp (t.record cfg calls) = .ok r)
      (hr : r.retryLines = []) : FullRun cfg left pending t calls (.ok r.tally)
  | again (hp : pending ≠ [])
      (hb : Burst cfg ⟨pending, fullFilterPath t⟩ (.ok resp) cfg.transportMaxRetries.toNat calls)
      (hc : classifyResponse cfg true pending resp (t.record cfg calls) = .ok r)
      (hr : r.retryLines ≠ []) (hrest : FullRun cfg left r.retryLines r.tally rest out) :
      FullRun cfg (left + 1) pending t (calls ++ rest) out

/-- A complete run of `_ship_ndjson_chunk`. -/
inductive ChunkRun (cfg : EsWriteConfig) (lines : List Line) (t : Tally) :
    List (BulkCall Line) → ChunkResult → Prop where
  | raised (hp : cfg.probes = true)
      (hb : Burst cfg ⟨lines, fastFilterPath t⟩ (.error e) cfg.transportMaxRetries.toNat calls) :
      ChunkRun cfg lines t calls (.ok ((t.record cfg calls).failRequest lines.length e))
  | clean (hp : cfg.probes = true)
      (hb : Burst cfg ⟨lines, fastFilterPath t⟩ (.ok resp) cfg.transportMaxRetries.toNat calls)
      (hc : resp.errors = some false) :
      ChunkRun cfg lines t calls
        (.ok ((t.record cfg calls).addCounts { written := lines.length }))
  | probed (hp : cfg.probes = true)
      (hb : Burst cfg ⟨lines, fastFilterPath t⟩ (.ok resp) cfg.transportMaxRetries.toNat calls)
      (hc : resp.errors ≠ some false)
      (hf : FullRun cfg cfg.maxRetriesPerDoc.toNat lines (t.record cfg calls) rest out) :
      ChunkRun cfg lines t (calls ++ rest) out
  | direct (hp : cfg.probes = false)
      (hf : FullRun cfg cfg.maxRetriesPerDoc.toNat lines t calls out) :
      ChunkRun cfg lines t calls out

theorem Tally.record_stats (t : Tally) (cfg : EsWriteConfig) (calls : List (BulkCall Line)) :
    (t.record cfg calls).stats = t.stats.map (· ++ calls.map (callRecord cfg)) := rfl

section Rules

variable {legal : BulkRequest Line → BulkReply → Prop} {log : List (BulkCall Line)}

/-- The environment that answers every call, however it likes among the legal replies. -/
abbrev anyEnv (legal : BulkRequest Line → BulkReply → Prop) :
    BulkEnv (List (BulkCall Line)) Line :=
  callEnv legal fun _ => True

theorem wp_sendRetrying_burst (cfg : EsWriteConfig) (q : BulkRequest Line) (left : Nat)
    (stats : Option (List SendRecord)) :
    wp (anyEnv legal) (sendRetrying cfg q.operations q.filterPath left stats)
      (fun r log' => ∃ calls, log' = log ++ calls ∧ Burst cfg q r.1 left calls ∧
        r.2 = stats.map (· ++ calls.map (callRecord cfg))) log := by
  induction left generalizing stats log with
  | zero =>
    rw [sendRetrying, send, wp_bind, wp_query]
    refine ⟨trivial, ?_⟩
    rintro reply _ ⟨-, rfl⟩
    exact ⟨[⟨q, reply⟩], rfl, .last reply rfl (.inl rfl), rfl⟩
  | succ left ih =>
    rw [sendRetrying, wp_bind, send, wp_bind, wp_query]
    refine ⟨trivial, ?_⟩
    rintro reply _ ⟨-, rfl⟩
    rw [wp_pure]
    dsimp only
    cases he : reply.result with
    | ok resp => exact ⟨[⟨q, reply⟩], rfl, .last reply he (.inr fun _ h => by cases h), rfl⟩
    | error e =>
      dsimp only
      split
      · next hresend =>
        apply wp_mono (ih _)
        rintro ⟨result, stats'⟩ log' ⟨calls, rfl, hb, hs⟩
        refine ⟨⟨q, reply⟩ :: calls, List.append_assoc .., .again reply he hresend hb, ?_⟩
        rw [hs, Option.map_map]
        apply congrArg (Option.map · stats)
        funext s
        exact List.append_assoc ..
      · next hresend =>
        refine ⟨[⟨q, reply⟩], rfl, .last reply he (.inr fun e' h => ?_), rfl⟩
        cases h
        exact Bool.not_eq_true _ |>.mp hresend

theorem record_eq (t : Tally) {stats : Option (List SendRecord)} {calls : List (BulkCall Line)}
    (h : stats = t.stats.map (· ++ calls.map (callRecord cfg))) :
    { t with stats } = t.record cfg calls := by
  rw [h]
  rfl

/-- A round of the full path: its sends, and what is made of their result. -/
theorem wp_fullRound_run (cfg : EsWriteConfig) (m : Bool) (pending : List Line) (t : Tally) :
    wp (anyEnv legal) (fullRound cfg m pending t)
      (fun out log' => ∃ calls result, log' = log ++ calls ∧
        Burst cfg ⟨pending, fullFilterPath t⟩ result cfg.transportMaxRetries.toNat calls ∧
        ((∃ e, result = .error e ∧
            out = .ok { tally := (t.record cfg calls).failRequest pending.length e }) ∨
          ∃ resp, result = .ok resp ∧
            out = classifyResponse cfg m pending resp (t.record cfg calls)))
      log := by
  rw [fullRound, wp_bind]
  apply wp_mono (wp_sendRetrying_burst cfg ⟨pending, fullFilterPath t⟩ _ _)
  rintro ⟨result, stats⟩ log' ⟨calls, rfl, hb, hs⟩
  dsimp only at hb hs ⊢
  rw [record_eq t hs]
  cases result with
  | error e => exact ⟨calls, _, rfl, hb, .inl ⟨e, rfl, rfl⟩⟩
  | ok resp => exact ⟨calls, _, rfl, hb, .inr ⟨resp, rfl, rfl⟩⟩

theorem wp_fullPath_run (cfg : EsWriteConfig) (left : Nat) (pending : List Line) (t : Tally) :
    wp (anyEnv legal) (fullPath cfg left pending t)
      (fun out log' => ∃ calls, log' = log ++ calls ∧ FullRun cfg left pending t calls out)
      log := by
  induction left generalizing pending t log with
  | zero =>
    rw [fullPath]
    split
    · next hp =>
      subst hp
      exact ⟨[], (List.append_nil _).symm, .nil⟩
    · next hp =>
      rw [wp_bind]
      apply wp_mono (wp_fullRound_run cfg false pending t)
      rintro _ log' ⟨calls, _, rfl, hb, ⟨e, rfl, rfl⟩ | ⟨resp, rfl, rfl⟩⟩
      · exact ⟨calls, rfl, .raised hp hb⟩
      · cases hc : classifyResponse cfg false pending resp (t.record cfg calls) with
        | error e => exact ⟨calls, rfl, .failed hp hb hc⟩
        | ok r => exact ⟨calls, rfl, .done hp hb hc (classifyResponse_no_retry hc)⟩
  | succ left ih =>
    rw [fullPath]
    split
    · next hp =>
      subst hp
      exact ⟨[], (List.append_nil _).symm, .nil⟩
    · next hp =>
      rw [wp_bind]
      apply wp_mono (wp_fullRound_run cfg true pending t)
      rintro _ log' ⟨calls, _, rfl, hb, ⟨e, rfl, rfl⟩ | ⟨resp, rfl, rfl⟩⟩
      · exact ⟨calls, rfl, .raised hp hb⟩
      · cases hc : classifyResponse cfg true pending resp (t.record cfg calls) with
        | error e => exact ⟨calls, rfl, .failed hp hb hc⟩
        | ok r =>
          dsimp only
          split
          · next hr => exact ⟨calls, rfl, .done hp hb hc hr⟩
          · next hr =>
            apply wp_mono (ih r.retryLines r.tally)
            rintro out _ ⟨rest, rfl, hrest⟩
            exact ⟨calls ++ rest, List.append_assoc .., .again hp hb hc hr hrest⟩

/-- Shipping a chunk is one of its runs. -/
theorem wp_shipNdjsonChunk_run (cfg : EsWriteConfig) (lines : List Line) (t : Tally) :
    wp (anyEnv legal) (shipNdjsonChunk cfg lines t)
      (fun out log' => ∃ calls, log' = log ++ calls ∧ ChunkRun cfg lines t calls out) log := by
  rw [shipNdjsonChunk]
  split
  · next hp =>
    rw [wp_bind]
    apply wp_mono (wp_sendRetrying_burst cfg ⟨lines, fastFilterPath t⟩ _ _)
    rintro ⟨result, stats⟩ log' ⟨calls, rfl, hb, hs⟩
    dsimp only at hb hs ⊢
    rw [record_eq t hs]
    cases result with
    | error e => exact ⟨calls, rfl, .raised hp hb⟩
    | ok resp =>
      dsimp only
      split
      · next he =>
        have hclean : resp.errors = some false := by
          cases hr : resp.errors with
          | none => simp [hr] at he
          | some b => simpa [hr] using he
        exact ⟨calls, rfl, .clean hp hb hclean⟩
      · next he =>
        apply wp_mono (wp_fullPath_run cfg _ lines _)
        rintro out _ ⟨rest, rfl, hrest⟩
        exact ⟨calls ++ rest, List.append_assoc ..,
          .probed hp hb (fun hc => he (by rw [hc]; rfl)) hrest⟩
  · next hp =>
    apply wp_mono (wp_fullPath_run cfg _ lines t)
    rintro out _ ⟨calls, rfl, hrun⟩
    exact ⟨calls, rfl, .direct (Bool.not_eq_true _ |>.mp hp) hrun⟩

theorem chunkRun_of_run (h : (anyEnv legal).Run [] (shipNdjsonChunk cfg lines t) log out) :
    ChunkRun cfg lines t log out ∧ ∀ c ∈ log, legal c.1 c.2 := by
  obtain ⟨calls, hlog, hrun⟩ := Env.Run.ensures h (wp_shipNdjsonChunk_run cfg lines t)
  rw [List.nil_append] at hlog
  exact ⟨hlog ▸ hrun, Env.Reach.replies h fun c hc => absurd hc List.not_mem_nil⟩

end Rules

end EsConnector
