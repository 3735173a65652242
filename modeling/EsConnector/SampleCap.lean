import EsConnector.BulkLedger
import EsConnector.PartitionAccounts

namespace EsConnector
set_option autoImplicit true

open Interaction

variable {Line : Type}

/-- The items of a full-path response that are errors for now. -/
def errorItems (c : BulkCall Line) : Nat :=
  match c.2.result with
  | .error _ => 0
  | .ok resp =>
    if c.1.filterPath.isProbe then 0
    else (iterBulkResponseOutcomes (resp.items.getD [])).countP (·.outcome == .error)

/-- The item-level errors of a chunk: the error items, less those whose lines were sent again. -/
def itemErrors (calls : List (BulkCall Line)) : Nat :=
  (calls.map errorItems).sum - ((pendingLists calls).tail.map List.length).sum

/-- What a chunk has to show a diagnostic for: its item-level errors and the send that terminally
raised. -/
def failures (calls : List (BulkCall Line)) : Nat :=
  itemErrors calls + if (terminalRaise calls).isSome then 1 else 0

theorem retryable_itemOutcome (cfg : EsWriteConfig) (item : Item)
    (h : retryable cfg (itemOutcome item) = true) : (itemOutcome item).outcome = .error := by
  have hrej : rejected (itemOutcome item) = true := by
    simp only [retryable, Bool.and_eq_true] at h
    simp only [rejected, Bool.and_eq_true]
    exact h.1
  rw [rejected_itemOutcome] at hrej
  exact beq_iff_eq.mp hrej

theorem errors_add_retried (cfg : EsWriteConfig) (m : Bool) {lines : List Line} {items : List Item}
    (h : items.length ≤ lines.length) :
    (errorSamplesOf cfg m (iterBulkResponseOutcomes items)).length +
      (retriedLines cfg m lines (iterBulkResponseOutcomes items)).length =
        (iterBulkResponseOutcomes items).countP (·.outcome == .error) := by
  induction items generalizing lines with
  | nil => simp [errorSamplesOf, settled, retriedLines, iterBulkResponseOutcomes]
  | cons item items ih =>
    cases lines with
    | nil => simp at h
    | cons line lines =>
      have hih := ih (Nat.le_of_succ_le_succ h)
      have hretry := retryable_itemOutcome cfg item
      simp only [errorSamplesOf, iterBulkResponseOutcomes, List.map_cons, List.length_map] at hih ⊢
      rw [settled_cons, retriedLines_cons, List.filter_append, List.length_append,
        List.length_append, List.countP_cons]
      cases hr : retryable cfg (itemOutcome item) && m with
      | true =>
        rw [Bool.and_eq_true] at hr
        simp only [if_true, List.filter_nil, List.length_nil, List.length_singleton,
          hretry hr.1, beq_self_eq_true]
        omega
      | false =>
        simp only [Bool.false_eq_true, if_false, List.filter_singleton, List.length_nil]
        cases (itemOutcome item).outcome == .error
        · simp only [cond_false, Bool.false_eq_true, if_false, List.length_nil]
          omega
        · simp only [cond_true, if_true, List.length_singleton]
          omega

theorem errors_settled (cfg : EsWriteConfig) (m : Bool) (os : List ItemOutcome) :
    (((settled cfg m os).map fun o => Counts.one o.outcome).sum).errors =
      (errorSamplesOf cfg m os).length := by
  rw [errorSamplesOf, List.length_map]
  induction settled cfg m os with
  | nil => rfl
  | cons o os ih =>
    rw [List.map_cons, List.sum_cons, Counts.errors_add, ih, List.filter_cons]
    cases o.outcome <;> simp [Counts.one, Nat.add_comm]

/-- What a run of the full path that started with `pending` leaves of its failures: as many samples
before the cap as there were failures, and an error for each line of them. -/
structure Sampled (pending : List Line) (calls : List (BulkCall Line)) (c : Counts)
    (xs : List ErrorSample) : Prop where
  first : (pendingLists calls).headD [] = pending
  errors : c.errors + ((pendingLists calls).tail.map List.length).sum =
    (calls.map errorItems).sum + raisedPending calls
  samples : xs.length + ((pendingLists calls).tail.map List.length).sum =
    (calls.map errorItems).sum + if (terminalRaise calls).isSome then 1 else 0
  retried : ((pendingLists calls).tail.map List.length).sum ≤ (calls.map errorItems).sum
  nonempty : ∀ call ∈ calls, call.1.operations ≠ []

theorem Burst.errorItems_raised (h : Burst cfg (q : BulkRequest Line) (.error e) left calls) :
    (calls.map errorItems).sum = 0 := by
  induction h with
  | last reply h _ => simp [errorItems, h]
  | again reply he _ _ ih => simpa [errorItems, he] using ih

theorem Burst.errorItems_answered
    (h : Burst cfg (q : BulkRequest Line) (.ok resp) left calls) :
    (calls.map errorItems).sum = if q.filterPath.isProbe then 0
      else (iterBulkResponseOutcomes (resp.items.getD [])).countP (·.outcome == .error) := by
  induction h with
  | last reply h _ => simp [errorItems, h]
  | again reply he _ _ ih => simpa [errorItems, he] using ih

theorem Sampled.nil : Sampled ([] : List Line) [] 0 [] :=
  ⟨rfl, rfl, rfl, le_refl 0, fun _ hc => absurd hc List.not_mem_nil⟩

theorem Sampled.raised {pending : List Line} {calls : List (BulkCall Line)} (hp : pending ≠ [])
    (hb : Burst cfg ⟨pending, fp⟩ (.error e) left calls) (hfp : fp.isProbe = false)
    (x : ErrorSample) : Sampled pending calls { errors := pending.length } [x] := by
  have hlists : pendingLists calls = [pending] := by
    rw [hb.pendingLists_raised, hfp]
    rfl
  obtain ⟨reply, hraise⟩ := hb.terminalRaise_raised
  refine ⟨?_, ?_, ?_, ?_, ?_⟩
  · rw [hlists, List.headD_cons]
  · rw [hlists, hb.errorItems_raised, hb.raisedPending_raised]
    exact Nat.add_comm ..
  · rw [hlists, hb.errorItems_raised, hraise]
    rfl
  · rw [hlists]
    exact Nat.zero_le _
  · intro call hc
    rw [hb.calls_eq call hc]
    exact hp

/-- One round in front of a run that goes on with the lines to retry. -/
theorem Sampled.round {cfg : EsWriteConfig} {pending : List Line} {calls : List (BulkCall Line)}
    {m : Bool} (hp : pending ≠ []) (hb : Burst cfg ⟨pending, fp⟩ (.ok resp) left calls)
    (hfp : fp.isProbe = false) (hi : resp.items = some items)
    (hlen : items.length = pending.length)
    (hrest : Sampled (retriedLines cfg m pending (iterBulkResponseOutcomes items)) rest c xs) :
    Sampled pending (calls ++ rest)
      (((settled cfg m (iterBulkResponseOutcomes items)).map fun o => Counts.one o.outcome).sum + c)
      (errorSamplesOf cfg m (iterBulkResponseOutcomes items) ++ xs) := by
  have hlists : pendingLists (calls ++ rest) = pending :: pendingLists rest := by
    rw [hb.pendingLists_append, hfp]
    rfl
  have hsum : ((pendingLists (calls ++ rest)).tail.map List.length).sum =
      (retriedLines cfg m pending (iterBulkResponseOutcomes items)).length +
        ((pendingLists rest).tail.map List.length).sum := by
    rw [hlists, List.tail_cons, sum_lengths, hrest.first]
  have hitems : ((calls ++ rest).map errorItems).sum =
      (iterBulkResponseOutcomes items).countP (·.outcome == .error) +
        (rest.map errorItems).sum := by
    rw [List.map_append, List.sum_append, hb.errorItems_answered, hi]
    simp only [hfp, Bool.false_eq_true, if_false, Option.getD_some]
  have hsplit := errors_add_retried cfg m hlen.le
  have herrors := errors_settled cfg m (iterBulkResponseOutcomes items)
  refine ⟨?_, ?_, ?_, ?_, ?_⟩
  · rw [hlists, List.headD_cons]
  · have he := hrest.errors
    rw [hsum, hitems, hb.raisedPending_append, Counts.errors_add]
    omega
  · have hs := hrest.samples
    rw [hsum, hitems, hb.terminalRaise_append, List.length_append]
    omega
  · have hr := hrest.retried
    rw [hsum, hitems]
    omega
  · intro call hc
    rcases List.mem_append.mp hc with hc | hc
    · rw [hb.calls_eq call hc]
      exact hp
    · exact hrest.nonempty call hc

/-- What a chunk adds to the counts and to the samples, before the cap. -/
structure ChunkFailures (calls : List (BulkCall Line)) (c : Counts) (xs : List ErrorSample) :
    Prop where
  samples : xs.length = failures calls
  errors : c.errors = itemErrors calls + raisedPending calls
  nonempty : ∀ call ∈ calls, call.1.operations ≠ []

theorem Sampled.failures {pending : List Line} (h : Sampled pending calls c xs) :
    ChunkFailures calls c xs where
  samples := by
    have hs := h.samples
    have hr := h.retried
    rw [EsConnector.failures, itemErrors]
    omega
  errors := by
    have he := h.errors
    have hr := h.retried
    rw [itemErrors]
    omega
  nonempty := h.nonempty

/-- A chunk fails in no more ways than it counts errors, and counts errors only if it fails. -/
theorem ChunkFailures.le (h : ChunkFailures (calls : List (BulkCall Line)) c xs) :
    xs.length ≤ c.errors ∧ (xs.length = 0 ↔ c.errors = 0) := by
  rw [h.samples, h.errors, EsConnector.failures]
  cases hraise : terminalRaise calls with
  | none => simp [raisedPending, hraise]
  | some call =>
    have hmem := List.mem_of_getLast? (Option.filter_eq_some_iff.mp hraise).1
    have hpos := List.length_pos_iff.mpr (h.nonempty call hmem)
    simp only [raisedPending, hraise, Option.isSome_some, if_true]
    omega

/-- A response to the full path has one item for each line. -/
def OneItem (q : BulkRequest Line) (reply : BulkReply) : Prop := OneItemPerLine ⟨q, reply⟩

/-- A run ends with accumulators to which it has added `c`, and the samples `xs` under the cap. -/
def EndsWith (t : Tally) (out : ChunkResult) (added : Counts → List ErrorSample → Prop) : Prop :=
  ∃ t' c xs, out = .ok t' ∧ t'.counts = t.counts + c ∧
    t'.errorSamples = capped t.errorSamples xs ∧ added c xs

theorem Burst.oneItem (h : Burst cfg (q : BulkRequest Line) (.ok resp) left calls)
    (hlegal : ∀ c ∈ calls, OneItem c.1 c.2) (hfp : q.filterPath.isProbe = false) :
    ∃ items, resp.items = some items ∧ items.length = q.operations.length := by
  obtain ⟨reply, hl, hr⟩ := h.getLast
  exact hlegal _ (List.mem_of_getLast? hl) resp hr hfp

theorem ChunkFailures.probed {lines : List Line} {calls rest : List (BulkCall Line)}
    (hlines : lines ≠ []) (hb : Burst cfg ⟨lines, fp⟩ (.ok resp) left calls)
    (hfp : fp.isProbe = true) (h : ChunkFailures rest c xs) :
    ChunkFailures (calls ++ rest) c xs := by
  have hitems : itemErrors (calls ++ rest) = itemErrors rest := by
    rw [itemErrors, hb.pendingLists_append, if_pos hfp, List.nil_append, List.map_append,
      List.sum_append, hb.errorItems_answered, if_pos hfp, Nat.zero_add, itemErrors]
  refine ⟨?_, ?_, ?_⟩
  · rw [h.samples, EsConnector.failures, EsConnector.failures, hitems, hb.terminalRaise_append]
  · rw [h.errors, hitems, hb.raisedPending_append]
  · intro call hc
    rcases List.mem_append.mp hc with hc | hc
    · rw [hb.calls_eq call hc]
      exact hlines
    · exact h.nonempty call hc

theorem ChunkFailures.raised {lines : List Line} {calls : List (BulkCall Line)}
    (hlines : lines ≠ []) (hb : Burst cfg ⟨lines, fp⟩ (.error e) left calls) (x : ErrorSample) :
    ChunkFailures calls { errors := lines.length } [x] := by
  have hitems : itemErrors calls = 0 := by
    rw [itemErrors, hb.errorItems_raised, Nat.zero_sub]
  obtain ⟨reply, hraise⟩ := hb.terminalRaise_raised
  refine ⟨?_, ?_, ?_⟩
  · rw [EsConnector.failures, hitems, hraise]
    rfl
  · rw [hitems, hb.raisedPending_raised, Nat.zero_add]
  · intro call hc
    rw [hb.calls_eq call hc]
    exact hlines

theorem ChunkFailures.clean {lines : List Line} {calls : List (BulkCall Line)}
    (hlines : lines ≠ []) (hb : Burst cfg ⟨lines, fp⟩ (.ok resp) left calls)
    (hfp : fp.isProbe = true) : ChunkFailures calls { written := lines.length } [] := by
  have hempty : ChunkFailures ([] : List (BulkCall Line)) { written := lines.length } [] :=
    ⟨rfl, rfl, fun _ hc => absurd hc List.not_mem_nil⟩
  have h := hempty.probed hlines hb hfp
  rwa [List.append_nil] at h

section Runs

variable [NdjsonLine Line]

theorem round_samples {cfg : EsWriteConfig} {m : Bool} {t : Tally} {pending : List Line}
    {calls : List (BulkCall Line)} {r : Round Line} (hi : resp.items = some items)
    (hlen : items.length = pending.length)
    (hc : classifyResponse cfg m pending resp (t.record cfg calls) = .ok r) :
    r.tally.errorSamples =
      capped t.errorSamples (errorSamplesOf cfg m (iterBulkResponseOutcomes items)) := by
  obtain rfl := classifyResponse_round hi hlen.le hc
  rw [Tally.addDiag_errorSamples, foldl_itemTally_errorSamples]
  rfl

theorem FullRun.sampled (h : FullRun cfg left (pending : List Line) t calls out)
    (hlegal : ∀ c ∈ calls, OneItem c.1 c.2) : EndsWith t out (Sampled pending calls) := by
  induction h with
  | @nil _ t => exact ⟨t, 0, [], rfl, (add_zero _).symm, (capped_nil _).symm, .nil⟩
  | @raised pending t e calls left hp hb =>
    exact ⟨_, _, _, rfl, Tally.failRequest_counts .., Tally.failRequest_errorSamples ..,
      .raised hp hb (fullFilterPath_isProbe t) _⟩
  | @failed pending t resp calls left e hp hb hc =>
    obtain ⟨items, hi, hlen⟩ := hb.oneItem hlegal (fullFilterPath_isProbe t)
    exact absurd hc (classifyResponse_ne_error cfg _ hi hlen.le _ e)
  | @done pending t resp calls left r hp hb hc hr =>
    obtain ⟨items, hi, hlen⟩ := hb.oneItem hlegal (fullFilterPath_isProbe t)
    obtain ⟨hcounts, -, -, hretry⟩ := round_tally hi hlen hc
    refine ⟨_, _, _, rfl, hcounts, round_samples hi hlen hc, ?_⟩
    have hrest : Sampled (retriedLines cfg (decide (0 < left)) pending
        (iterBulkResponseOutcomes items)) [] 0 [] := by
      rw [← hretry, hr]
      exact .nil
    have hround := Sampled.round hp hb (fullFilterPath_isProbe t) hi hlen hrest
    rwa [List.append_nil, List.append_nil, add_zero] at hround
  | @again pending t resp calls r left rest out hp hb hc hr _ ih =>
    obtain ⟨items, hi, hlen⟩ := hb.oneItem
      (fun c hc => hlegal c (List.mem_append_left _ hc)) (fullFilterPath_isProbe t)
    obtain ⟨hcounts, -, -, hretry⟩ := round_tally hi hlen hc
    obtain ⟨t', c, xs, rfl, hc', hx, hrest⟩ := ih fun c hc => hlegal c (List.mem_append_right _ hc)
    rw [hretry] at hrest
    refine ⟨t', _, _, rfl, ?_, ?_, .round hp hb (fullFilterPath_isProbe t) hi hlen hrest⟩
    · rw [hc', hcounts, add_assoc]
    · rw [hx, round_samples hi hlen hc, capped_capped]

/-- Each failure of a chunk leaves a sample, up to the cap. -/
theorem ChunkRun.failures (h : ChunkRun cfg (lines : List Line) t calls out) (hlines : lines ≠ [])
    (hlegal : ∀ c ∈ calls, OneItem c.1 c.2) : EndsWith t out (ChunkFailures calls) := by
  cases h with
  | raised hp hb =>
    exact ⟨_, _, _, rfl, Tally.failRequest_counts .., Tally.failRequest_errorSamples ..,
      .raised hlines hb _⟩
  | clean hp hb hc =>
    exact ⟨_, _, [], rfl, rfl, (capped_nil _).symm, .clean hlines hb (fastFilterPath_isProbe t)⟩
  | @probed _ calls rest _ hp hb hc hf =>
    obtain ⟨t', c, xs, rfl, hcounts, hx, hs⟩ :=
      hf.sampled fun c hc => hlegal c (List.mem_append_right _ hc)
    exact ⟨t', c, xs, rfl, hcounts, hx,
      hs.failures.probed hlines hb (fastFilterPath_isProbe t)⟩
  | direct hp hf =>
    obtain ⟨t', c, xs, rfl, hcounts, hx, hs⟩ := hf.sampled hlegal
    exact ⟨t', c, xs, rfl, hcounts, hx, hs.failures⟩

end Runs

theorem min_sum_min (cap : Nat) (ns : List Nat) :
    min cap (ns.map fun n => min cap n).sum = min cap ns.sum := by
  induction ns with
  | nil => rfl
  | cons n ns ih =>
    rw [List.map_cons, List.sum_cons, List.sum_cons]
    omega

theorem foldl_mergeRow_samples (rows : List SummaryRow) (s : MergeState) :
    min errorSampleCap (rows.foldl mergeRow s).samples.length = min errorSampleCap
      (s.samples.length + (rows.map fun r => (r.errorSamples.getD []).length).sum) := by
  induction rows generalizing s with
  | nil => rfl
  | cons r rows ih =>
    rw [List.foldl_cons, ih, List.map_cons, List.sum_cons, mergeRow]
    dsimp only
    split
    · rw [List.length_append, Nat.add_assoc]
    · omega

theorem mergePartitionResults_samples (rows : List SummaryRow) :
    ∃ xs, (mergePartitionResults rows).errorSamples = some xs ∧ xs.length =
      min errorSampleCap (rows.map fun r => (r.errorSamples.getD []).length).sum := by
  refine ⟨_, rfl, ?_⟩
  have hfold := foldl_mergeRow_samples rows {}
  rw [List.length_nil, Nat.zero_add] at hfold
  rw [List.length_take, hfold]

section Partitions

variable [NdjsonLine Line]

/-- The counts and the samples of a partition, followed through its chunks. -/
def followSamples (cfg : EsWriteConfig) :
    Followed Line (Counts × List ErrorSample) (Counts × List ErrorSample) where
  view t := (t.counts, t.errorSamples)
  add a d := (a.1 + d.1, capped a.2 d.2)
  adds chunk calls d := ChunkFailures calls d.1 d.2 ∧ ∃ t out, ChunkRun cfg chunk t calls out

theorem followSamples_merges (cfg : EsWriteConfig) (bulkStats : Bool) :
    (followSamples cfg : Followed Line _ _).Merges bulkStats := by
  intro t u d hu
  obtain ⟨hcounts, hsamples⟩ := Prod.mk.inj hu
  have hcounts' : u.counts = d.1 := hcounts.trans (zero_add d.1)
  apply Prod.ext
  · exact (Tally.merge_counts t u).trans (congrArg (t.counts + ·) hcounts')
  · change (t.merge u).errorSamples = capped t.errorSamples d.2
    rw [Tally.merge_errorSamples, hsamples]
    exact capped_capped_right t.errorSamples d.2

theorem ships_samples (cfg : EsWriteConfig) {batches : List (List (Option Line))} :
    ∀ chunk ∈ chunkPlan cfg batches, ∀ t log, wp (anyEnv OneItem) (shipNdjsonChunk cfg chunk t)
      ((followSamples cfg).Ships chunk t log) log := by
  intro chunk hchunk t log
  apply wp_mono (wp_legal (wp_shipNdjsonChunk_run cfg chunk t))
  rintro out log' ⟨⟨calls, rfl, hrun⟩, calls', hcalls, hlegal⟩
  obtain rfl := List.append_cancel_left hcalls
  obtain ⟨t', c, xs, rfl, hc, hx, hfail⟩ := hrun.failures (mem_chunkPlan hchunk).1 hlegal
  exact ⟨t', calls, (c, xs), rfl, rfl, ⟨hfail, t, _, hrun⟩, Prod.ext hc hx⟩

theorem foldl_samples (cfg : EsWriteConfig) (a : Counts × List ErrorSample)
    (order : List (Counts × List ErrorSample)) :
    order.foldl (followSamples cfg : Followed Line _ _).add a =
      (a.1 + (order.map Prod.fst).sum, capped a.2 (order.flatMap Prod.snd)) := by
  induction order generalizing a with
  | nil => exact Prod.ext (add_zero a.1).symm (capped_nil a.2).symm
  | cons d order ih =>
    rw [List.foldl_cons, ih]
    apply Prod.ext
    · exact (add_assoc ..).trans (congrArg (a.1 + ·) List.sum_cons.symm)
    · exact capped_capped ..

theorem sum_errors (cs : List Counts) : cs.sum.errors = (cs.map Counts.errors).sum := by
  induction cs with
  | nil => rfl
  | cons c cs ih => rw [List.sum_cons, Counts.errors_add, ih, List.map_cons, List.sum_cons]

/-- A partition that ends with a row, beside an Elasticsearch that answers the full path with one
item for each line. -/
structure PartitionRun (Line : Type) [NdjsonLine Line] where
  cfg : EsWriteConfig
  clock : PartitionClock
  batches : List (List (Option Line))
  row : SummaryRow
  calls : List (BulkCall Line)
  finishes : ∃ (S P : Type) (V : Server S P (BulkRequest Line) (fun _ => BulkReply)) (s s' : S)
    (x : Process P (BulkRequest Line) (fun _ => BulkReply) (List Line) ChunkResult
      (Except WriteError SummaryRow)),
    (∀ s q p r, V.reply s q p r → OneItem q r) ∧
      V.Run (shipOne cfg) (write cfg (shipInto cfg) clock batches) s s' x ∧
      x.rest = .ret (.ok row) ∧ x.calls = calls

/-- The calls of a partition, put together chunk by chunk. -/
def PartitionRun.ByChunk (p : PartitionRun Line) (groups : List (List (BulkCall Line))) : Prop :=
  p.calls.Perm groups.flatten ∧
    List.Forall₂ (fun chunk calls => ∃ t out, ChunkRun p.cfg chunk t calls out)
      (chunkPlan p.cfg p.batches) groups

/-- What a partition has to show a diagnostic for, over all its chunks. -/
def allFailures (groups : List (List (BulkCall Line))) : Nat := (groups.map failures).sum

/-- A partition keeps a sample of each failure up to the cap, and counts an error for each. -/
theorem PartitionRun.samples (p : PartitionRun Line) :
    ∃ groups, p.ByChunk groups ∧ ∃ xs n, p.row.errorSamples = some xs ∧ p.row.errors = some n ∧
      xs.length = min errorSampleCap (allFailures groups) ∧ allFailures groups ≤ n ∧
      (allFailures groups = 0 ↔ n = 0) := by
  obtain ⟨S, P, V, s, s', x, hV, hrun, hend, hcalls⟩ := p.finishes
  have hsound : x.Sound OneItem (partitionAsks (fun _ => True) p.cfg p.batches) (fun _ => True)
      (shipOne p.cfg) (write p.cfg (shipInto p.cfg) p.clock p.batches) := .run hV hrun
  obtain ⟨-, t, hrow, parts, order, hparts, horder, hview, hperm⟩ :=
    write_ends (followSamples_merges p.cfg _) (ships_samples p.cfg) hsound hend
  rw [foldl_samples] at hview
  obtain ⟨hcounts, hsamples⟩ := Prod.mk.inj hview
  have hchunk : ∀ q ∈ parts, ChunkFailures q.1 q.2.1 q.2.2 := by
    intro q hq
    obtain ⟨i, hi, rfl⟩ := List.getElem_of_mem hq
    have hi' : i < (chunkPlan p.cfg p.batches).length := hparts.length_eq ▸ hi
    exact (hparts.get hi' hi).1
  have hlength : (order.flatMap Prod.snd).length = allFailures (parts.map Prod.fst) := by
    rw [List.length_flatMap, (horder.map _).sum_eq, List.map_map, allFailures, List.map_map]
    exact congrArg List.sum (List.map_congr_left fun q hq => (hchunk q hq).samples)
  have herrors : t.counts.errors = (parts.map fun q => q.2.1.errors).sum := by
    rw [hcounts, Counts.errors_add, (horder.map _).sum_eq, List.map_map, sum_errors, List.map_map]
    exact Nat.zero_add _
  have hle : allFailures (parts.map Prod.fst) ≤ t.counts.errors ∧
      (allFailures (parts.map Prod.fst) = 0 ↔ t.counts.errors = 0) := by
    rw [herrors, allFailures, List.map_map]
    clear hparts horder hperm hcounts hlength herrors
    induction parts with
    | nil => exact ⟨le_refl 0, Iff.rfl⟩
    | cons q parts ih =>
      have hq := hchunk q List.mem_cons_self
      have hone := hq.le
      rw [hq.samples] at hone
      have hrest := ih fun q' hq' => hchunk q' (List.mem_cons_of_mem _ hq')
      simp only [List.map_cons, List.sum_cons, Function.comp_apply] at hrest ⊢
      omega
  refine ⟨parts.map Prod.fst, ⟨?_, ?_⟩, _, _, by rw [hrow]; rfl, by rw [hrow]; rfl, ?_, hle⟩
  · rw [← hcalls]
    exact hperm
  · rw [List.forall₂_map_right_iff]
    exact hparts.imp fun _ _ h => h.2
  · rw [hsamples, length_capped (Nat.zero_le _), hlength]
    exact congrArg (min errorSampleCap) (Nat.zero_add _)

theorem PartitionRun.groups (runs : List (PartitionRun Line)) :
    ∃ groups : List (List (List (BulkCall Line))), List.Forall₂ PartitionRun.ByChunk runs groups ∧
      (runs.map fun p => (p.row.errorSamples.getD []).length) =
        groups.map (fun g => min errorSampleCap (allFailures g)) ∧
      ((groups.map allFailures).sum : Int) ≤ (runs.map fun p => orZero p.row.errors).sum ∧
      ((groups.map allFailures).sum = 0 ↔ (runs.map fun p => orZero p.row.errors).sum = 0) := by
  induction runs with
  | nil => exact ⟨[], .nil, rfl, le_refl 0, by simp⟩
  | cons p runs ih =>
    obtain ⟨groups, hgroups, hlengths, hle, hzero⟩ := ih
    obtain ⟨g, hg, xs, n, hxs, hn, hlen, hple, hpzero⟩ := p.samples
    have hnonneg : 0 ≤ (runs.map fun p => orZero p.row.errors).sum := by omega
    refine ⟨g :: groups, .cons hg hgroups, ?_, ?_, ?_⟩
    · rw [List.map_cons, List.map_cons, hlengths, hxs, Option.getD_some, hlen]
    · simp only [List.map_cons, List.sum_cons, hn, orZero, Option.getD_some] at hle ⊢
      omega
    · simp only [List.map_cons, List.sum_cons, hn, orZero, Option.getD_some] at hzero hnonneg ⊢
      omega

/-- Each failure leaves a diagnostic, and the diagnostics stay within the cap: in the list a chunk
is shipped into, in the list the chunks of a partition are merged into, and in the result. -/
theorem failure_leaves_diagnostic :
    (∀ (cfg : EsWriteConfig) (lines : List Line) (t : Tally) (calls : List (BulkCall Line))
        (out : ChunkResult), lines ≠ [] → t.errorSamples.length ≤ errorSampleCap →
      (anyEnv OneItem).Run [] (shipNdjsonChunk cfg lines t) calls out →
        ∃ t', out = .ok t' ∧ t'.errorSamples.length =
          min errorSampleCap (t.errorSamples.length + failures calls)) ∧
    (∀ t u : Tally, t.errorSamples.length ≤ errorSampleCap →
      (t.merge u).errorSamples.length ≤ errorSampleCap) ∧
    ∀ runs : List (PartitionRun Line), ∃ groups : List (List (List (BulkCall Line))),
      List.Forall₂ PartitionRun.ByChunk runs groups ∧
      (∀ p ∈ runs, ∃ xs, p.row.errorSamples = some xs ∧ xs.length ≤ errorSampleCap) ∧
      ∃ xs errors, (mergePartitionResults (runs.map PartitionRun.row)).errorSamples = some xs ∧
        (mergePartitionResults (runs.map PartitionRun.row)).errors = some errors ∧
        xs.length = min errorSampleCap (groups.map allFailures).sum ∧
        (xs = [] ↔ errors = 0) ∧ (xs.length : Int) ≤ errors := by
  refine ⟨?_, ?_, ?_⟩
  · intro cfg lines t calls out hlines ht hrun
    obtain ⟨hchunk, hlegal⟩ := chunkRun_of_run hrun
    obtain ⟨t', c, xs, rfl, -, hx, hfail⟩ := hchunk.failures hlines hlegal
    refine ⟨t', rfl, ?_⟩
    rw [hx, length_capped ht, hfail.samples]
  · intro t u ht
    have hmerge : (t.merge u).errorSamples = capped t.errorSamples u.errorSamples :=
      Tally.merge_errorSamples t u
    rw [hmerge, length_capped ht]
    exact Nat.min_le_left ..
  · intro runs
    obtain ⟨groups, hgroups, hlengths, hle, hzero⟩ := PartitionRun.groups runs
    obtain ⟨xs, hxs, hlen⟩ := mergePartitionResults_samples (runs.map PartitionRun.row)
    obtain ⟨-, -, herrors, -⟩ := mergePartitionResults_numbers (runs.map PartitionRun.row)
    have hsum : xs.length = min errorSampleCap (groups.map allFailures).sum := by
      have hmap : (runs.map PartitionRun.row).map (fun r => (r.errorSamples.getD []).length) =
          (groups.map allFailures).map fun n => min errorSampleCap n := by
        rw [List.map_map, List.map_map]
        exact hlengths
      rw [hlen, hmap, min_sum_min]
    rw [List.map_map] at herrors
    change _ = some (runs.map fun p => orZero p.row.errors).sum at herrors
    refine ⟨groups, hgroups, ?_, xs, _, hxs, herrors, hsum, ?_, ?_⟩
    · intro p _
      obtain ⟨g, -, ys, n, hys, -, hylen, -⟩ := p.samples
      exact ⟨ys, hys, hylen ▸ Nat.min_le_left ..⟩
    · rw [← hzero, ← List.length_eq_zero_iff, hsum]
      rw [errorSampleCap]
      omega
    · rw [hsum]
      omega

end Partitions

/-- A partition whose only request raises, and one with two chunks of which each is accepted. -/
theorem refused_row_leaves_diagnostic : ∃ p q : PartitionRun String, ∃ xs,
    p.batches = [[some "{}"]] ∧ q.batches = [[some "{}", some "[]"]] ∧
      (mergePartitionResults [p.row, q.row]).errors = some 1 ∧
      (mergePartitionResults [p.row, q.row]).errorSamples = some xs ∧ xs.length = 1 := by
  let refused : BulkReply := { result := .error ⟨"ConnectionError", "refused", false⟩ }
  let clean : BulkReply := { result := .ok { errors := some false } }
  let V : Server Unit Unit (BulkRequest String) (fun _ => BulkReply) :=
    { fresh := fun _ => ()
      work := fun _ _ _ _ _ => False
      reply := fun _ q _ r => q.filterPath.isProbe = true ∧ (r = refused ∨ r = clean) }
  have hone : ∀ s q p r, V.reply s q p r → OneItem q r := by
    intro _ q _ r hr resp _ hfp
    exact absurd (hr.1.symm.trans hfp) Bool.noConfusion
  let p : PartitionRun String :=
    { cfg := { hosts := "h" }, clock := {}, batches := [[some "{}"]], row := _, calls := _
      finishes := ⟨Unit, Unit, V, (), (), _, hone,
        (Server.Run.start V _ _ ()).step
          (.reply (q := ⟨["{}"], .errors⟩) (r := refused) rfl ⟨rfl, .inl rfl⟩), rfl, rfl⟩ }
  let q : PartitionRun String :=
    { cfg := { hosts := "h", chunkSize := 1 }, clock := {}, batches := [[some "{}", some "[]"]]
      row := _, calls := _
      finishes := ⟨Unit, Unit, V, (), (), _, hone,
        ((Server.Run.start V _ _ ()).step
          (.reply (q := ⟨["{}"], .errors⟩) (r := clean) rfl ⟨rfl, .inr rfl⟩)).step
          (.reply (q := ⟨["[]"], .errors⟩) (r := clean) rfl ⟨rfl, .inr rfl⟩), rfl, rfl⟩ }
  obtain ⟨-, -, hruns⟩ := @failure_leaves_diagnostic String _
  obtain ⟨groups, -, -, xs, errors, hxs, herrors, -, hempty, hle⟩ := hruns [p, q]
  have hone : (mergePartitionResults [p.row, q.row]).errors = some 1 := rfl
  have herrors' : some errors = some (1 : Int) := herrors.symm.trans hone
  cases herrors'
  refine ⟨p, q, xs, rfl, rfl, hone, hxs, ?_⟩
  have hpos : xs ≠ [] := fun h => absurd (hempty.mp h) (by decide)
  have := List.length_pos_iff.mpr hpos
  omega

end EsConnector
