import EsConnector.BulkLedger
import EsConnector.Elasticsearch

namespace EsConnector
set_option autoImplicit true

open Interaction

variable {Line : Type}

/-- An Elasticsearch whose answer to a request of index lines depends on the lines only: it raises,
or it has a body for each line. -/
structure FixedEs (Line : Type) where
  answer : List Line → Except BulkException (List ItemBody)
  onePerLine : ∀ lines bodies, answer lines = .ok bodies → bodies.length = lines.length

def indexItems (bodies : List ItemBody) : List Item := bodies.map fun body => some (.index, body)

theorem FixedEs.length_indexItems (es : FixedEs Line) (h : es.answer lines = .ok bodies) :
    (indexItems bodies).length = lines.length := by
  rw [indexItems, List.length_map]
  exact es.onePerLine _ _ h

/-- The body of a line that was accepted. -/
def ItemBody.accepted (body : ItemBody) : Bool := isOk body.statusCode

/-- The replies of a fixed Elasticsearch. The flag of a probe is truthful. -/
def FixedEs.Replies (es : FixedEs Line) (q : BulkRequest Line) (reply : BulkReply) : Prop :=
  match es.answer q.operations, reply.result with
  | .error e, .error e' => e' = e
  | .ok bodies, .ok resp =>
    if q.filterPath.isProbe then resp.errors = some !(bodies.all ItemBody.accepted)
    else resp.items = some (indexItems bodies)
  | _, _ => False

theorem FixedEs.exists_reply (es : FixedEs Line) (q : BulkRequest Line) :
    ∃ reply, es.Replies q reply := by
  cases ha : es.answer q.operations with
  | error e => exact ⟨{ result := .error e }, by simp [Replies, ha]⟩
  | ok bodies =>
    let resp : BulkResponse :=
      { errors := some (!(bodies.all ItemBody.accepted)), items := some (indexItems bodies) }
    exact ⟨{ result := .ok resp }, by simp [Replies, ha, resp]⟩

section Store

variable {Id Src : Type} [DecidableEq Id]

/-- An index action with an `_id` puts its source under it. -/
def putDoc (doc : Line → Id × Src) (st : Store Id Src) (line : Line) : Store Id Src :=
  Function.update st (doc line).1 (some (doc line).2)

/-- The lines that a request has accepted. -/
def acceptedLines (lines : List Line) (bodies : List ItemBody) : List Line :=
  ((lines.zip bodies).filter (·.2.accepted)).map Prod.fst

/-- What a request does to the store: the accepted lines are applied in order. What a request that
raises does is given. -/
def FixedEs.apply (es : FixedEs Line) (doc : Line → Id × Src)
    (onRaise : List Line → Store Id Src → Store Id Src) (st : Store Id Src) (lines : List Line) :
    Store Id Src :=
  match es.answer lines with
  | .error _ => onRaise lines st
  | .ok bodies => (acceptedLines lines bodies).foldl (putDoc doc) st

/-- The store after some calls. -/
def FixedEs.storeAfter (es : FixedEs Line) (doc : Line → Id × Src)
    (onRaise : List Line → Store Id Src → Store Id Src) (st : Store Id Src)
    (calls : List (BulkCall Line)) : Store Id Src :=
  (calls.map fun c => c.1.operations).foldl (es.apply doc onRaise) st

theorem foldl_putDoc_unnamed (doc : Line → Id × Src) (lines : List Line) (st : Store Id Src)
    (h : ∀ line ∈ lines, (doc line).1 ≠ i) : lines.foldl (putDoc doc) st i = st i := by
  induction lines generalizing st with
  | nil => rfl
  | cons line lines ih =>
    rw [List.foldl_cons, ih _ fun l hl => h l (List.mem_cons_of_mem _ hl)]
    exact Function.update_of_ne (h line List.mem_cons_self).symm _ _

theorem foldl_putDoc_named (doc : Line → Id × Src) (lines : List Line) (st st' : Store Id Src)
    (h : ∃ line ∈ lines, (doc line).1 = i) :
    lines.foldl (putDoc doc) st i = lines.foldl (putDoc doc) st' i := by
  induction lines generalizing st st' with
  | nil =>
    obtain ⟨line, hl, -⟩ := h
    exact absurd hl List.not_mem_nil
  | cons line lines ih =>
    rw [List.foldl_cons, List.foldl_cons]
    by_cases hrest : ∃ l ∈ lines, (doc l).1 = i
    · exact ih _ _ hrest
    · have hno : ∀ l ∈ lines, (doc l).1 ≠ i := fun l hl he => hrest ⟨l, hl, he⟩
      rw [foldl_putDoc_unnamed doc lines _ hno, foldl_putDoc_unnamed doc lines _ hno]
      obtain ⟨l, hl, rfl⟩ := h
      rcases List.mem_cons.mp hl with rfl | hl
      · simp [putDoc]
      · exact absurd rfl (hno l hl)

theorem foldl_putDoc_twice (doc : Line → Id × Src) (lines : List Line) (st : Store Id Src) :
    lines.foldl (putDoc doc) (lines.foldl (putDoc doc) st) = lines.foldl (putDoc doc) st := by
  funext i
  by_cases h : ∃ line ∈ lines, (doc line).1 = i
  · exact foldl_putDoc_named doc lines _ _ h
  · exact foldl_putDoc_unnamed doc lines _ fun line hl he => h ⟨line, hl, he⟩

theorem FixedEs.apply_twice (es : FixedEs Line) (doc : Line → Id × Src)
    (onRaise : List Line → Store Id Src → Store Id Src) (st : Store Id Src)
    (h : es.answer lines = .ok bodies) :
    es.apply doc onRaise (es.apply doc onRaise st lines) lines = es.apply doc onRaise st lines := by
  simp only [apply, h]
  exact foldl_putDoc_twice doc _ st

end Store

/-- The accumulators without the record of the sends. -/
def Tally.books (t : Tally) : Tally := { t with stats := none }

/-- How often a request that raises is sent. -/
def EsWriteConfig.attempts (cfg : EsWriteConfig) (e : BulkException) : Nat :=
  if cfg.retriesTransport e then cfg.transportMaxRetries.toNat + 1 else 1

/-- The accumulators after a round whose items are answered. -/
def settleRound (cfg : EsWriteConfig) (m : Bool) (pending : List Line) (bodies : List ItemBody)
    (t : Tally) : Tally :=
  ((iterBulkResponseOutcomes (indexItems bodies)).foldl (itemTally cfg m) t).addDiag
    { docsRetried :=
        (retriedLines cfg m pending (iterBulkResponseOutcomes (indexItems bodies))).length }

/-- What the full path makes of a fixed Elasticsearch: the accumulators and the requests. -/
def settle (cfg : EsWriteConfig) (es : FixedEs Line) :
    (left : Nat) → List Line → Tally → Tally × List (List Line)
  | 0, pending, t =>
    if pending = [] then (t, [])
    else match es.answer pending with
      | .error e => (t.failRequest pending.length e, List.replicate (cfg.attempts e) pending)
      | .ok bodies => (settleRound cfg false pending bodies t, [pending])
  | left + 1, pending, t =>
    if pending = [] then (t, [])
    else match es.answer pending with
      | .error e => (t.failRequest pending.length e, List.replicate (cfg.attempts e) pending)
      | .ok bodies =>
        let rest := settle cfg es left
          (retriedLines cfg true pending (iterBulkResponseOutcomes (indexItems bodies)))
          (settleRound cfg true pending bodies t)
        (rest.1, pending :: rest.2)

/-- The calls of a request that is answered or raised always the same way. -/
theorem Burst.fixed {es : FixedEs Line}
    (h : Burst cfg (q : BulkRequest Line) result left calls)
    (hlegal : ∀ c ∈ calls, es.Replies c.1 c.2) :
    match es.answer q.operations with
    | .error e => result = .error e ∧ calls.map (fun c => c.1.operations) =
        List.replicate (if cfg.retriesTransport e then left + 1 else 1) q.operations
    | .ok bodies => ∃ resp, result = .ok resp ∧ calls.map (fun c => c.1.operations) =
          [q.operations] ∧ if q.filterPath.isProbe
        then resp.errors = some !(bodies.all ItemBody.accepted)
        else resp.items = some (indexItems bodies) := by
  induction h with
  | last reply h hend =>
    have hreply := hlegal _ List.mem_cons_self
    simp only [FixedEs.Replies, h] at hreply
    cases ha : es.answer q.operations with
    | error e =>
      cases result with
      | ok resp => simp only [ha] at hreply
      | error e' =>
        simp only [ha] at hreply
        subst hreply
        refine ⟨rfl, ?_⟩
        rcases hend with rfl | hno
        · cases cfg.retriesTransport e' <;> rfl
        · rw [hno e' rfl]
          rfl
    | ok bodies =>
      cases result with
      | error e => simp only [ha] at hreply
      | ok resp =>
        simp only [ha] at hreply
        exact ⟨resp, rfl, rfl, hreply⟩
  | @again e left calls reply he hresend _ ih =>
    have hreply := hlegal _ List.mem_cons_self
    have hrest := ih fun c hc => hlegal c (List.mem_cons_of_mem _ hc)
    simp only [FixedEs.Replies, he] at hreply
    cases ha : es.answer q.operations with
    | ok bodies => simp only [ha] at hreply
    | error e' =>
      simp only [ha] at hreply hrest
      subst hreply
      obtain ⟨hresult, hcalls⟩ := hrest
      refine ⟨hresult, ?_⟩
      rw [List.map_cons, hcalls, hresend, if_pos rfl, if_pos rfl, ← List.replicate_succ]

theorem Burst.raisedFixed {es : FixedEs Line}
    (h : Burst cfg (q : BulkRequest Line) (.error e) left calls)
    (hlegal : ∀ c ∈ calls, es.Replies c.1 c.2) :
    es.answer q.operations = .error e ∧ calls.map (fun c => c.1.operations) =
      List.replicate (if cfg.retriesTransport e then left + 1 else 1) q.operations := by
  have hfixed := h.fixed hlegal
  cases ha : es.answer q.operations with
  | ok bodies =>
    simp only [ha] at hfixed
    obtain ⟨resp, hr, -⟩ := hfixed
    cases hr
  | error e' =>
    simp only [ha] at hfixed
    obtain ⟨hr, hcalls⟩ := hfixed
    cases hr
    exact ⟨rfl, hcalls⟩

theorem Burst.answeredFixed {es : FixedEs Line}
    (h : Burst cfg (q : BulkRequest Line) (.ok resp) left calls)
    (hlegal : ∀ c ∈ calls, es.Replies c.1 c.2) :
    ∃ bodies, es.answer q.operations = .ok bodies ∧
      calls.map (fun c => c.1.operations) = [q.operations] ∧
      if q.filterPath.isProbe then resp.errors = some !(bodies.all ItemBody.accepted)
      else resp.items = some (indexItems bodies) := by
  have hfixed := h.fixed hlegal
  cases ha : es.answer q.operations with
  | error e =>
    simp only [ha] at hfixed
    cases hfixed.1
  | ok bodies =>
    simp only [ha] at hfixed
    obtain ⟨resp', hr, hcalls, hreply⟩ := hfixed
    cases hr
    exact ⟨bodies, rfl, hcalls, hreply⟩

theorem Burst.itemsFixed {es : FixedEs Line}
    (h : Burst cfg (⟨pending, fullFilterPath t⟩ : BulkRequest Line) (.ok resp) left calls)
    (hlegal : ∀ c ∈ calls, es.Replies c.1 c.2) :
    ∃ bodies, es.answer pending = .ok bodies ∧
      calls.map (fun c => c.1.operations) = [pending] ∧
      resp.items = some (indexItems bodies) := by
  obtain ⟨bodies, ha, hcalls, hreply⟩ := h.answeredFixed hlegal
  rw [fullFilterPath_isProbe] at hreply
  exact ⟨bodies, ha, hcalls, hreply⟩

theorem settleRound_books (cfg : EsWriteConfig) (m : Bool) (pending : List Line)
    (bodies : List ItemBody) (t : Tally) :
    (settleRound cfg m pending bodies t).books = settleRound cfg m pending bodies t.books := by
  unfold settleRound
  apply Tally.ext
  · simp only [Tally.books, Tally.addDiag_counts, foldl_itemTally_counts]
  · simp only [Tally.books, Tally.addDiag_errorSamples, foldl_itemTally_errorSamples]
  · rw [Tally.addDiag_stats, foldl_itemTally_stats]
    rfl
  · simp only [Tally.books, Tally.addDiag_diag, foldl_itemTally_diag]

theorem failRequest_books (t : Tally) (n : Nat) (e : BulkException) :
    (t.failRequest n e).books = t.books.failRequest n e := by
  apply Tally.ext
  · simp only [Tally.books, Tally.failRequest_counts]
  · simp only [Tally.books, Tally.failRequest_errorSamples]
  · exact (Tally.addSample_stats (t.books.addCounts { errors := n }) _).symm
  · simp only [Tally.books, Tally.failRequest, Tally.addSample_diag, Tally.addCounts_diag]

theorem settle_nil (cfg : EsWriteConfig) (es : FixedEs Line) (left : Nat) (t : Tally) :
    settle cfg es left [] t = (t, []) := by
  cases left <;> rfl

theorem settle_raised (cfg : EsWriteConfig) {es : FixedEs Line} (left : Nat) (t : Tally)
    (hp : pending ≠ []) (ha : es.answer pending = .error e) : settle cfg es left pending t =
      (t.failRequest pending.length e, List.replicate (cfg.attempts e) pending) := by
  cases left <;> simp only [settle, if_neg hp, ha]

theorem settle_zero (cfg : EsWriteConfig) {es : FixedEs Line} (t : Tally) (hp : pending ≠ [])
    (ha : es.answer pending = .ok bodies) :
    settle cfg es 0 pending t = (settleRound cfg false pending bodies t, [pending]) := by
  simp only [settle, if_neg hp, ha]

theorem settle_succ (cfg : EsWriteConfig) {es : FixedEs Line} (left : Nat) (t : Tally)
    (hp : pending ≠ []) (ha : es.answer pending = .ok bodies) :
    settle cfg es (left + 1) pending t =
      let rest := settle cfg es left
        (retriedLines cfg true pending (iterBulkResponseOutcomes (indexItems bodies)))
        (settleRound cfg true pending bodies t)
      (rest.1, pending :: rest.2) := by
  simp only [settle, if_neg hp, ha]

theorem settle_bypass (cfg : EsWriteConfig) (b : Bool) (es : FixedEs Line) (left : Nat)
    (pending : List Line) (t : Tally) :
    settle { cfg with bypassFastPath := b } es left pending t = settle cfg es left pending t := by
  induction left generalizing pending t with
  | zero =>
    simp only [settle]
    rfl
  | succ left ih =>
    simp only [settle, ih]
    rfl

theorem settleRound_eq {es : FixedEs Line} {cfg : EsWriteConfig} {m : Bool} {pending : List Line}
    {r : Round Line} (ha : es.answer pending = .ok bodies)
    (hi : resp.items = some (indexItems bodies))
    (hc : classifyResponse cfg m pending resp t = .ok r) :
    r.tally = settleRound cfg m pending bodies t ∧
      r.retryLines = retriedLines cfg m pending (iterBulkResponseOutcomes (indexItems bodies)) := by
  obtain rfl := classifyResponse_round hi (es.length_indexItems ha).le hc
  exact ⟨rfl, rfl⟩

theorem settle_head (cfg : EsWriteConfig) {es : FixedEs Line} (left : Nat) (t : Tally)
    (hp : pending ≠ []) (ha : es.answer pending = .ok bodies) :
    ∃ rest, (settle cfg es left pending t).2 = pending :: rest := by
  cases left with
  | zero =>
    rw [settle_zero cfg t hp ha]
    exact ⟨[], rfl⟩
  | succ left =>
    rw [settle_succ cfg left t hp ha]
    exact ⟨_, rfl⟩

theorem retryable_accepted (cfg : EsWriteConfig) {body : ItemBody} (h : body.accepted = true) :
    retryable cfg (itemOutcome (some (.index, body))) = false := by
  have hok : (itemOutcome (some (.index, body))).ok = true := h
  rw [retryable, hok, Bool.not_true, Bool.false_and, Bool.false_and]

theorem itemTally_accepted (cfg : EsWriteConfig) (m : Bool) (t : Tally) {body : ItemBody}
    (h : body.accepted = true) :
    itemTally cfg m t (itemOutcome (some (.index, body))) = t.addCounts (.one .written) := by
  have hok : (itemOutcome (some (.index, body))).ok = true := h
  have hout : (itemOutcome (some (.index, body))).outcome = .written :=
    classifyBulkResult_written_iff.mpr ⟨hok, by simp⟩
  rw [itemTally, retryable_accepted cfg h, Bool.false_and, if_neg Bool.false_ne_true, tallyItem,
    hout, bumpReject, hok]
  rfl

theorem settleRound_accepted (cfg : EsWriteConfig) (m : Bool) (t : Tally) {pending : List Line}
    {bodies : List ItemBody} (hlen : bodies.length = pending.length)
    (h : bodies.all ItemBody.accepted = true) :
    settleRound cfg m pending bodies t = t.addCounts { written := pending.length } ∧
      retriedLines cfg m pending (iterBulkResponseOutcomes (indexItems bodies)) = [] := by
  have hretried : retriedLines cfg m pending (iterBulkResponseOutcomes (indexItems bodies)) = [] := by
    rw [retriedLines, List.map_eq_nil_iff, List.filter_eq_nil_iff]
    intro p hp
    obtain ⟨item, hitem, he⟩ := List.mem_map.mp (List.of_mem_zip hp).2
    obtain ⟨body, hbody, rfl⟩ := List.mem_map.mp hitem
    rw [← he, retryable_accepted cfg (List.all_eq_true.mp h body hbody), Bool.false_and]
    exact Bool.false_ne_true
  refine ⟨?_, hretried⟩
  rw [settleRound, hretried, ← hlen]
  have hfold (t : Tally) : (iterBulkResponseOutcomes (indexItems bodies)).foldl (itemTally cfg m) t =
      t.addCounts { written := bodies.length } := by
    clear hlen hretried
    induction bodies generalizing t with
    | nil =>
      apply Tally.ext
      · exact (add_zero t.counts).symm
      · rfl
      · rfl
      · rfl
    | cons body bodies ih =>
      simp only [indexItems, iterBulkResponseOutcomes, List.map_cons, List.foldl_cons,
        List.all_cons, Bool.and_eq_true] at h ih ⊢
      rw [itemTally_accepted cfg m t h.1, ih h.2]
      apply Tally.ext
      · simp only [Tally.addCounts_counts, add_assoc]
        congr 1
        apply Counts.ext
        · exact Nat.add_comm ..
        · rfl
        · rfl
        · rfl
      · rfl
      · rfl
      · rfl
  rw [hfold]
  apply Tally.ext
  · rfl
  · rfl
  · rfl
  · exact map_add_zero _

theorem settle_accepted (cfg : EsWriteConfig) {es : FixedEs Line} (left : Nat) (t : Tally)
    (hp : pending ≠ []) (ha : es.answer pending = .ok bodies)
    (h : bodies.all ItemBody.accepted = true) : settle cfg es left pending t =
      (t.addCounts { written := pending.length }, [pending]) := by
  have hlen := es.onePerLine _ _ ha
  cases left with
  | zero => rw [settle_zero cfg t hp ha, (settleRound_accepted cfg false t hlen h).1]
  | succ left =>
    obtain ⟨hround, hretried⟩ := settleRound_accepted cfg true t hlen h
    rw [settle_succ cfg left t hp ha, hround, hretried, settle_nil]

section Runs

variable [NdjsonLine Line] {es : FixedEs Line}

/-- A run of the full path ends as it is settled. -/
theorem FullRun.settles (h : FullRun cfg left (pending : List Line) t calls out)
    (hlegal : ∀ c ∈ calls, es.Replies c.1 c.2) :
    ∃ t', out = .ok t' ∧ t'.books = (settle cfg es left pending t.books).1 ∧
      calls.map (fun c => c.1.operations) = (settle cfg es left pending t.books).2 := by
  induction h with
  | @nil left t =>
    rw [settle_nil]
    exact ⟨t, rfl, rfl, rfl⟩
  | @raised pending t e calls left hp hb =>
    obtain ⟨ha, hcalls⟩ := hb.raisedFixed hlegal
    rw [settle_raised cfg left _ hp ha]
    exact ⟨_, rfl, failRequest_books .., hcalls⟩
  | @failed pending t resp calls left e hp hb hc =>
    obtain ⟨bodies, ha, -, hi⟩ := hb.itemsFixed hlegal
    exact absurd hc (classifyResponse_ne_error cfg _ hi (es.length_indexItems ha).le _ e)
  | @done pending t resp calls left r hp hb hc hr =>
    obtain ⟨bodies, ha, hcalls, hi⟩ := hb.itemsFixed hlegal
    obtain ⟨htally, hretry⟩ := settleRound_eq ha hi hc
    refine ⟨_, rfl, ?_⟩
    rw [htally, settleRound_books, hcalls]
    cases left with
    | zero =>
      rw [settle_zero cfg _ hp ha]
      exact ⟨rfl, rfl⟩
    | succ left =>
      have hnil : retriedLines cfg true pending
          (iterBulkResponseOutcomes (indexItems bodies)) = [] := hretry.symm.trans hr
      rw [settle_succ cfg left _ hp ha, hnil, settle_nil]
      exact ⟨rfl, rfl⟩
  | @again pending t resp calls r left rest out hp hb hc hr _ ih =>
    obtain ⟨bodies, ha, hcalls, hi⟩ :=
      hb.itemsFixed fun c hc => hlegal c (List.mem_append_left _ hc)
    obtain ⟨t', rfl, hbooks, hrest⟩ := ih fun c hc => hlegal c (List.mem_append_right _ hc)
    obtain ⟨htally, hretry⟩ := settleRound_eq ha hi hc
    have hround : r.tally.books = settleRound cfg true pending bodies t.books := by
      rw [htally, settleRound_books]
      rfl
    rw [hretry, hround] at hbooks hrest
    rw [settle_succ cfg left _ hp ha]
    refine ⟨t', rfl, hbooks, ?_⟩
    rw [List.map_append, hcalls, hrest]
    rfl

/-- Without the probe a chunk ends as its full path is settled. -/
theorem ChunkRun.plain (hp : cfg.probes = false) (h : ChunkRun cfg (lines : List Line) t calls out)
    (hlegal : ∀ c ∈ calls, es.Replies c.1 c.2) :
    ∃ t', out = .ok t' ∧
      t'.books = (settle cfg es cfg.maxRetriesPerDoc.toNat lines t.books).1 ∧
      calls.map (fun c => c.1.operations) =
        (settle cfg es cfg.maxRetriesPerDoc.toNat lines t.books).2 := by
  cases h with
  | raised hprobe _ => rw [hp] at hprobe; cases hprobe
  | clean hprobe _ _ => rw [hp] at hprobe; cases hprobe
  | probed hprobe _ _ _ => rw [hp] at hprobe; cases hprobe
  | direct _ hf => exact hf.settles hlegal

/-- With the probe a chunk ends in the same accumulators. Its requests are the same too, but for one
more request with all lines where the probe did not come back clean. -/
theorem ChunkRun.fast (hp : cfg.probes = true) (hlines : lines ≠ [])
    (h : ChunkRun cfg (lines : List Line) t calls out) (hlegal : ∀ c ∈ calls, es.Replies c.1 c.2) :
    ∃ t', out = .ok t' ∧
      t'.books = (settle cfg es cfg.maxRetriesPerDoc.toNat lines t.books).1 ∧
      (calls.map (fun c => c.1.operations) =
          (settle cfg es cfg.maxRetriesPerDoc.toNat lines t.books).2 ∨
        (∃ bodies, es.answer lines = .ok bodies) ∧ calls.map (fun c => c.1.operations) =
          lines :: (settle cfg es cfg.maxRetriesPerDoc.toNat lines t.books).2) := by
  cases h with
  | @raised _ calls hprobe hb =>
    obtain ⟨ha, hcalls⟩ := hb.raisedFixed hlegal
    rw [settle_raised cfg _ _ hlines ha]
    exact ⟨_, rfl, failRequest_books .., .inl hcalls⟩
  | @clean resp _ hprobe hb hc =>
    obtain ⟨bodies, ha, hcalls, hflag⟩ := hb.answeredFixed hlegal
    rw [fastFilterPath_isProbe, if_pos rfl, hc, Option.some_inj] at hflag
    have hall : bodies.all ItemBody.accepted = true := by
      rw [← Bool.not_not (bodies.all _), ← hflag]
      rfl
    rw [settle_accepted cfg _ _ hlines ha hall]
    exact ⟨_, rfl, rfl, .inl hcalls⟩
  | @probed resp calls rest _ hprobe hb hc hf =>
    obtain ⟨bodies, ha, hcalls, -⟩ := hb.answeredFixed fun c hc => hlegal c (List.mem_append_left _ hc)
    obtain ⟨t', rfl, hbooks, hrest⟩ := hf.settles fun c hc => hlegal c (List.mem_append_right _ hc)
    refine ⟨t', rfl, hbooks, .inr ⟨⟨bodies, ha⟩, ?_⟩⟩
    rw [List.map_append, hcalls, hrest]
    rfl
  | direct hprobe _ => rw [hp] at hprobe; cases hprobe

/-- The fast path agrees with the plain path: against an Elasticsearch whose answers depend on the
lines only both come to an end, count the same, keep the same samples and diagnostics, and leave the
same store where each line has an `_id`. -/
theorem fast_path_agrees {Id Src : Type} [DecidableEq Id] (es : FixedEs Line)
    {cfg : EsWriteConfig} {lines : List Line} (t : Tally) (hdel : cfg.hasDeletes = false)
    (hlines : lines ≠ []) :
    (∃ calls out, (anyEnv es.Replies).Run []
      (shipNdjsonChunk { cfg with bypassFastPath := false } lines t) calls out) ∧
    (∃ calls out, (anyEnv es.Replies).Run []
      (shipNdjsonChunk { cfg with bypassFastPath := true } lines t) calls out) ∧
    ∀ calls out calls' out',
      (anyEnv es.Replies).Run []
        (shipNdjsonChunk { cfg with bypassFastPath := false } lines t) calls out →
      (anyEnv es.Replies).Run []
        (shipNdjsonChunk { cfg with bypassFastPath := true } lines t) calls' out' →
      ∃ u u', out = .ok u ∧ out' = .ok u' ∧ u.counts = u'.counts ∧
        u.errorSamples = u'.errorSamples ∧ u.diag = u'.diag ∧
        ∀ (doc : Line → Id × Src) (onRaise : List Line → Store Id Src → Store Id Src)
          (st : Store Id Src),
          es.storeAfter doc onRaise st calls = es.storeAfter doc onRaise st calls' := by
  have hanswers (log : List (BulkCall Line)) (q : BulkRequest Line) :
      ∃ r log', (anyEnv es.Replies).answers log q r log' := by
    obtain ⟨reply, hreply⟩ := es.exists_reply q
    exact ⟨reply, _, hreply, rfl⟩
  refine ⟨exists_completion hanswers _ _, exists_completion hanswers _ _, ?_⟩
  intro calls out calls' out' hfast hplain
  obtain ⟨hchunk, hlegal⟩ := chunkRun_of_run hfast
  obtain ⟨hchunk', hlegal'⟩ := chunkRun_of_run hplain
  obtain ⟨u, rfl, hu, hcalls⟩ := hchunk.fast (by simp [EsWriteConfig.probes, hdel]) hlines hlegal
  obtain ⟨u', rfl, hu', hcalls'⟩ := hchunk'.plain (by simp [EsWriteConfig.probes]) hlegal'
  rw [settle_bypass] at hu hu' hcalls hcalls'
  have hbooks : u.books = u'.books := hu.trans hu'.symm
  have hcounts : u.books.counts = u'.books.counts := congrArg Tally.counts hbooks
  have hsamples : u.books.errorSamples = u'.books.errorSamples :=
    congrArg Tally.errorSamples hbooks
  have hdiag : u.books.diag = u'.books.diag := congrArg Tally.diag hbooks
  refine ⟨u, u', rfl, rfl, hcounts, hsamples, hdiag, ?_⟩
  intro doc onRaise st
  unfold FixedEs.storeAfter
  rw [hcalls']
  rcases hcalls with hcalls | ⟨⟨bodies, ha⟩, hcalls⟩
  · rw [hcalls]
  · obtain ⟨rest, hrest⟩ := settle_head cfg cfg.maxRetriesPerDoc.toNat t.books hlines ha
    rw [hcalls, hrest, List.foldl_cons, List.foldl_cons, List.foldl_cons,
      es.apply_twice doc onRaise st ha]

end Runs

/-- An Elasticsearch that rejects one line. -/
def pickyEs : FixedEs String where
  answer lines := .ok (lines.map fun line => { status := some (if line = "b" then 400 else 201) })
  onePerLine lines bodies h := by
    cases h
    exact List.length_map _

def pickyProbe : BulkCall String :=
  ⟨⟨["a", "b"], .errorsTook⟩, { result := .ok { errors := some true } }⟩

def pickyRound : BulkCall String :=
  ⟨⟨["a", "b"], .tookItems⟩,
    itemsReply [some (.index, { status := some 201 }), some (.index, { status := some 400 })]⟩

/-- A chunk with a line that is rejected for good ends the same with the probe and without it. -/
theorem picky_chunk_agrees : ∃ u u' : Tally, u.counts = u'.counts ∧ u.diag = u'.diag ∧
    pickyEs.storeAfter (fun line => (line, line)) (fun _ st => st) (fun _ => none)
        [pickyProbe, pickyRound] =
      pickyEs.storeAfter (fun line => (line, line)) (fun _ st => st) (fun _ => none)
        [pickyRound] := by
  have hprobe : pickyEs.Replies pickyProbe.1 pickyProbe.2 := rfl
  have hround : pickyEs.Replies pickyRound.1 pickyRound.2 := rfl
  obtain ⟨-, -, hagree⟩ := @fast_path_agrees String _ String String _ pickyEs { hosts := "h" }
    ["a", "b"] (.start true) rfl (List.cons_ne_nil _ _)
  obtain ⟨u, u', -, -, hcounts, -, hdiag, hstore⟩ := hagree [pickyProbe, pickyRound] _ [pickyRound]
    _ (.step ⟨hprobe, rfl⟩ (.step ⟨hround, rfl⟩ (.refl _ _))) (.step ⟨hround, rfl⟩ (.refl _ _))
  exact ⟨u, u', hcounts, hdiag, hstore _ _ _⟩

end EsConnector
