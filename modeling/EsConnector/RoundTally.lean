import EsConnector.ShipRules

namespace EsConnector
set_option autoImplicit true

/-- `xs` with as many of `ys` behind it as the cap leaves room for. -/
def capped (xs ys : List ErrorSample) : List ErrorSample :=
  xs ++ ys.take (errorSampleCap - xs.length)

@[simp] theorem capped_nil (xs : List ErrorSample) : capped xs [] = xs := by
  simp [capped]

theorem capped_capped (xs ys zs : List ErrorSample) :
    capped (capped xs ys) zs = capped xs (ys ++ zs) := by
  simp only [capped, List.append_assoc, List.take_append, List.length_append, List.length_take]
  congr 3
  omega

/-- What was cut off is not missed under the same cap. -/
theorem capped_capped_right (xs ys : List ErrorSample) : capped xs (capped [] ys) = capped xs ys := by
  simp only [capped, List.nil_append, List.take_take, List.length_nil]
  congr 2
  omega

theorem length_capped (h : xs.length ≤ errorSampleCap) (ys : List ErrorSample) :
    (capped xs ys).length = min errorSampleCap (xs.length + ys.length) := by
  rw [capped, List.length_append, List.length_take]
  omega

theorem Tally.addSample_errorSamples (t : Tally) (x : ErrorSample) :
    (t.addSample x).errorSamples = capped t.errorSamples [x] := by
  rw [addSample, capped]
  split
  · next h => rw [List.take_of_length_le (by simp; omega)]
  · next h =>
    rw [Nat.sub_eq_zero_of_le (Nat.not_lt.mp h), List.take_zero, List.append_nil]

theorem Tally.failRequest_errorSamples (t : Tally) (n : Nat) (e : BulkException) :
    (t.failRequest n e).errorSamples = capped t.errorSamples [requestErrorSample e] := by
  rw [failRequest, addSample_errorSamples, addCounts_errorSamples]

/-- The item counts against a reject bucket. -/
def rejected (o : ItemOutcome) : Bool := !o.ok && o.outcome != .ignored

/-- A create that found its document. -/
def deduped (o : ItemOutcome) : Bool :=
  o.outcome == .ignored && o.opType == .create && o.body.statusCode == 409

/-- What an item adds to the diagnostics. -/
def itemDiag (cfg : EsWriteConfig) (m : Bool) (o : ItemOutcome) : Diag :=
  (if rejected o then rejectBucket o.body.statusCode else 0) +
    if deduped o && !(retryable cfg o && m) then { docsDeduped := 1 } else 0

def sampleOf (o : ItemOutcome) : ErrorSample := extractErrorSample o.opType o.body

/-- The samples of the items that a round settles as errors. -/
def errorSamplesOf (cfg : EsWriteConfig) (m : Bool) (os : List ItemOutcome) : List ErrorSample :=
  ((settled cfg m os).filter (·.outcome == .error)).map sampleOf

theorem bumpReject_diag (o : ItemOutcome) (t : Tally) :
    (bumpReject o t).diag =
      t.diag.map (· + if rejected o then rejectBucket o.body.statusCode else 0) := by
  rw [bumpReject, rejected]
  split
  · rfl
  · exact (map_add_zero t.diag).symm

theorem tallyItem_diag (o : ItemOutcome) (t : Tally) :
    (tallyItem o t).diag = t.diag.map (· + if deduped o then { docsDeduped := 1 } else 0) := by
  rw [tallyItem, deduped]
  cases ho : o.outcome with
  | ignored =>
    by_cases hc : o.opType = .create ∧ o.body.statusCode = 409
    · simp [hc]
    · dsimp only
      rw [if_neg hc, if_neg (by simpa using hc)]
      exact (map_add_zero t.diag).symm
  | written => exact (map_add_zero t.diag).symm
  | deleted => exact (map_add_zero t.diag).symm
  | error => exact (Tally.addSample_diag ..).trans (map_add_zero t.diag).symm

theorem bumpReject_errorSamples (o : ItemOutcome) (t : Tally) :
    (bumpReject o t).errorSamples = t.errorSamples := by
  rw [bumpReject]
  split <;> rfl

theorem tallyItem_errorSamples (o : ItemOutcome) (t : Tally) :
    (tallyItem o t).errorSamples =
      capped t.errorSamples (if o.outcome == .error then [sampleOf o] else []) := by
  rw [tallyItem]
  cases ho : o.outcome with
  | ignored =>
    dsimp only
    split <;> exact (capped_nil t.errorSamples).symm
  | written => exact (capped_nil t.errorSamples).symm
  | deleted => exact (capped_nil t.errorSamples).symm
  | error => exact Tally.addSample_errorSamples ..

theorem bumpReject_stats (o : ItemOutcome) (t : Tally) : (bumpReject o t).stats = t.stats := by
  rw [bumpReject]
  split <;> rfl

theorem tallyItem_stats (o : ItemOutcome) (t : Tally) : (tallyItem o t).stats = t.stats := by
  rw [tallyItem]
  split
  · rfl
  · rfl
  · dsimp only
    split <;> rfl
  · exact Tally.addSample_stats ..

theorem itemTally_diag (cfg : EsWriteConfig) (m : Bool) (t : Tally) (o : ItemOutcome) :
    (itemTally cfg m t o).diag = t.diag.map (· + itemDiag cfg m o) := by
  rw [itemTally, itemDiag]
  cases hr : retryable cfg o && m
  · simp only [Bool.false_eq_true, if_false, tallyItem_diag, bumpReject_diag, Option.map_map,
      Bool.not_false, Bool.and_true]
    congr 1
    funext d
    exact add_assoc ..
  · simp only [if_true, bumpReject_diag, Bool.not_true, Bool.and_false, Bool.false_eq_true,
      if_false, add_zero]

theorem foldl_itemTally_diag (os : List ItemOutcome) (t : Tally) :
    (os.foldl (itemTally cfg m) t).diag = t.diag.map (· + (os.map (itemDiag cfg m)).sum) := by
  induction os generalizing t with
  | nil => exact (map_add_zero t.diag).symm
  | cons o os ih =>
    rw [List.foldl_cons, ih, itemTally_diag, Option.map_map]
    congr 1
    funext d
    exact add_assoc ..

theorem foldl_itemTally_errorSamples (os : List ItemOutcome) (t : Tally) :
    (os.foldl (itemTally cfg m) t).errorSamples =
      capped t.errorSamples (errorSamplesOf cfg m os) := by
  induction os generalizing t with
  | nil => exact (capped_nil t.errorSamples).symm
  | cons o os ih =>
    rw [List.foldl_cons, ih, errorSamplesOf, errorSamplesOf, settled_cons]
    rw [itemTally]
    cases hr : retryable cfg o && m
    · simp only [Bool.false_eq_true, if_false, tallyItem_errorSamples, bumpReject_errorSamples,
        capped_capped, List.filter_append, List.map_append, List.filter_singleton]
      cases o.outcome == .error <;> rfl
    · simp only [if_true, bumpReject_errorSamples, List.nil_append]

theorem foldl_itemTally_stats (os : List ItemOutcome) (t : Tally) :
    (os.foldl (itemTally cfg m) t).stats = t.stats := by
  induction os generalizing t with
  | nil => rfl
  | cons o os ih =>
    rw [List.foldl_cons, ih]
    rw [itemTally]
    split
    · exact bumpReject_stats ..
    · exact (tallyItem_stats ..).trans (bumpReject_stats ..)

/-- Items, at most one a line, never fail the chunk. -/
theorem classifyResponse_ne_error (cfg : EsWriteConfig) (m : Bool) {pending : List Line}
    (hi : resp.items = some items) (hl : items.length ≤ pending.length) (t : Tally)
    (e : ShipError) : classifyResponse cfg m pending resp t ≠ .error e := by
  rw [classifyResponse_tally cfg m (BulkResponse.itemList_of_items hi) hl]
  intro h
  cases h

theorem classifyResponse_round {cfg : EsWriteConfig} {m : Bool} {pending : List Line}
    {r : Round Line} (hi : resp.items = some items) (hl : items.length ≤ pending.length)
    (hc : classifyResponse cfg m pending resp t = .ok r) :
    r = { tally := ((iterBulkResponseOutcomes items).foldl (itemTally cfg m) t).addDiag
            { docsRetried := (retriedLines cfg m pending (iterBulkResponseOutcomes items)).length }
          retryLines := retriedLines cfg m pending (iterBulkResponseOutcomes items) } := by
  rw [classifyResponse_tally cfg m (BulkResponse.itemList_of_items hi) hl] at hc
  exact (Except.ok.inj hc).symm

end EsConnector
