import EsConnector.ShipChunk

namespace EsConnector
set_option autoImplicit true

open Interaction

variable {Line C : Type}

/-- The lines a round sends again: those whose own item is retryable, while the budget lasts. -/
def retriedLines (cfg : EsWriteConfig) (mayRetry : Bool) (lines : List Line)
    (os : List ItemOutcome) : List Line :=
  ((lines.zip os).filter fun p => retryable cfg p.2 && mayRetry).map Prod.fst

/-- The outcomes a round tallies: those of the items that are not retried. -/
def settled (cfg : EsWriteConfig) (mayRetry : Bool) (os : List ItemOutcome) :
    List ItemOutcome :=
  os.filter fun o => !(retryable cfg o && mayRetry)

def itemTally (cfg : EsWriteConfig) (mayRetry : Bool) (t : Tally) (o : ItemOutcome) : Tally :=
  if retryable cfg o && mayRetry then bumpReject o t else tallyItem o (bumpReject o t)

@[simp] theorem bumpReject_counts (o : ItemOutcome) (t : Tally) :
    (bumpReject o t).counts = t.counts := by
  rw [bumpReject]
  split <;> rfl

@[simp] theorem tallyItem_counts (o : ItemOutcome) (t : Tally) :
    (tallyItem o t).counts = t.counts + .one o.outcome := by
  rw [tallyItem]
  split
  · simp_all
  · simp_all
  · split <;> simp_all
  · simp_all

theorem settled_cons (o : ItemOutcome) (os : List ItemOutcome) :
    settled cfg m (o :: os) =
      (if retryable cfg o && m then [] else [o]) ++ settled cfg m os := by
  unfold settled
  rw [List.filter_cons]
  cases retryable cfg o && m <;> rfl

theorem foldl_itemTally_counts (os : List ItemOutcome) (t : Tally) :
    (os.foldl (itemTally cfg m) t).counts =
      t.counts + ((settled cfg m os).map fun o => Counts.one o.outcome).sum := by
  induction os generalizing t with
  | nil => simp [settled]
  | cons o os ih =>
    rw [List.foldl_cons, ih, settled_cons]
    by_cases hr : (retryable cfg o && m) = true
    · simp only [itemTally, if_pos hr, bumpReject_counts, List.nil_append]
    · simp only [itemTally, if_neg hr, tallyItem_counts, bumpReject_counts, List.map_append,
        List.map_cons, List.map_nil, List.sum_append, List.sum_singleton, add_assoc]

theorem retriedLines_cons (line : Line) (lines : List Line) (o : ItemOutcome)
    (os : List ItemOutcome) :
    retriedLines cfg m (line :: lines) (o :: os) =
      (if retryable cfg o && m then [line] else []) ++ retriedLines cfg m lines os := by
  unfold retriedLines
  rw [List.zip_cons_cons, List.filter_cons]
  split <;> simp_all

theorem roundLoop_eq (os : List ItemOutcome) (h : idx + os.length ≤ pending.length)
    (r : Round Line) : roundLoop cfg m pending idx os r = .ok
      { tally := os.foldl (itemTally cfg m) r.tally,
        retryLines := r.retryLines ++ retriedLines cfg m (pending.drop idx) os } := by
  induction os generalizing idx r with
  | nil => simp [roundLoop, retriedLines]
  | cons o os ih =>
    rw [List.length_cons] at h
    have hidx : idx < pending.length := by omega
    have hdrop : pending.drop idx = pending[idx] :: pending.drop (idx + 1) :=
      List.drop_eq_getElem_cons hidx
    have hstep : roundStep cfg m pending idx o r = .ok
        { tally := itemTally cfg m r.tally o,
          retryLines := r.retryLines ++ if retryable cfg o && m then [pending[idx]] else [] } := by
      rw [roundStep, itemTally]
      split
      · simp only [List.getElem?_eq_getElem hidx]
      · rw [List.append_nil]
    rw [roundLoop, hstep]
    change roundLoop cfg m pending (idx + 1) os _ = _
    rw [ih (by omega), hdrop, retriedLines_cons, List.foldl_cons, List.append_assoc]

theorem roundLoop_no_retry (os : List ItemOutcome) (r : Round Line)
    (h : roundLoop cfg false pending idx os r = .ok r') : r'.retryLines = r.retryLines := by
  induction os generalizing idx r with
  | nil =>
    cases h
    rfl
  | cons o os ih =>
    simp only [roundLoop, roundStep, Bool.and_false, Bool.false_eq_true, if_false] at h
    exact (ih (r := { r with tally := tallyItem o (bumpReject o r.tally) }) h)

theorem classifyResponse_ok {pending : List Line} {r : Round Line}
    (h : classifyResponse cfg m pending resp t = .ok r) :
    ∃ items r', resp.itemList = .ok items ∧
      roundLoop cfg m pending 0 (iterBulkResponseOutcomes items) { tally := t } = .ok r' ∧
      r.retryLines = r'.retryLines := by
  rw [classifyResponse] at h
  cases hi : resp.itemList with
  | error e => simp only [hi, bind, Except.bind, reduceCtorEq] at h
  | ok items =>
    simp only [hi, bind, Except.bind] at h
    cases hl : roundLoop cfg m pending 0 (iterBulkResponseOutcomes items) { tally := t } with
    | error e => simp only [hl, reduceCtorEq] at h
    | ok r' =>
      simp only [hl] at h
      refine ⟨items, r', rfl, hl, ?_⟩
      split at h <;> cases h <;> rfl

theorem classifyResponse_no_retry (h : classifyResponse cfg false pending resp t = .ok r) :
    r.retryLines = ([] : List Line) := by
  obtain ⟨items, r', -, hloop, hr⟩ := classifyResponse_ok h
  rw [hr]
  exact roundLoop_no_retry _ _ hloop

theorem roundLoop_retry_sublist (os : List ItemOutcome) (r : Round Line)
    (h : roundLoop cfg m pending idx os r = .ok r') :
    ∃ extra, r'.retryLines = r.retryLines ++ extra ∧ extra.Sublist (pending.drop idx) := by
  induction os generalizing idx r with
  | nil =>
    cases h
    exact ⟨[], (List.append_nil _).symm, List.nil_sublist _⟩
  | cons o os ih =>
    rw [roundLoop, roundStep] at h
    split at h
    · cases hp : pending[idx]? with
      | none => simp only [hp, bind, Except.bind, reduceCtorEq] at h
      | some line =>
        simp only [hp] at h
        obtain ⟨extra, he, hs⟩ := ih _ h
        refine ⟨line :: extra, ?_, ?_⟩
        · rw [he, List.append_assoc]
          rfl
        · obtain ⟨hlt, rfl⟩ := List.getElem?_eq_some_iff.mp hp
          rw [List.drop_eq_getElem_cons hlt]
          exact hs.cons_cons _
    · obtain ⟨extra, he, hs⟩ := ih _ h
      exact ⟨extra, he, hs.trans (List.drop_sublist_drop_left pending (Nat.le_succ idx))⟩

theorem classifyResponse_retry_sublist (h : classifyResponse cfg m pending resp t = .ok r) :
    r.retryLines.Sublist (pending : List Line) := by
  obtain ⟨items, r', -, hloop, hr⟩ := classifyResponse_ok h
  obtain ⟨extra, he, hs⟩ := roundLoop_retry_sublist _ _ hloop
  rw [List.nil_append] at he
  rw [hr, he]
  exact hs

theorem classifyResponse_tally (cfg : EsWriteConfig) (m : Bool) {pending : List Line}
    (hi : resp.itemList = .ok items) (hl : items.length ≤ pending.length) (t : Tally) :
    classifyResponse cfg m pending resp t = .ok
      { tally := ((iterBulkResponseOutcomes items).foldl (itemTally cfg m) t).addDiag
          { docsRetried := (retriedLines cfg m pending (iterBulkResponseOutcomes items)).length }
        retryLines := retriedLines cfg m pending (iterBulkResponseOutcomes items) } := by
  rw [classifyResponse]
  have hloop := @roundLoop_eq Line 0 cfg m pending (iterBulkResponseOutcomes items)
    (by simpa using hl) { tally := t }
  rw [hi, show ∀ f : List Item → Except ShipError (Round Line), (Except.ok items >>= f) = f items
    from fun _ => rfl, hloop]
  simp only [List.nil_append, List.drop_zero, bind, Except.bind]
  split
  · next hr =>
    rw [hr]
    simp only [Tally.addDiag, List.length_nil, pure, Except.pure]
    rw [show ({ docsRetried := 0 } : Diag) = 0 from rfl, map_add_zero]
  · rfl

/-- The counts and the retry list of one round, for a response with at most one item a line. -/
theorem classifyResponse_eq (cfg : EsWriteConfig) (m : Bool) (hi : resp.itemList = .ok items)
    (hl : items.length ≤ pending.length) (t : Tally) :
    ∃ r : Round Line, classifyResponse cfg m pending resp t = .ok r ∧
      r.tally.counts = t.counts +
        ((settled cfg m (iterBulkResponseOutcomes items)).map fun o => Counts.one o.outcome).sum ∧
      r.retryLines = retriedLines cfg m pending (iterBulkResponseOutcomes items) := by
  refine ⟨_, classifyResponse_tally cfg m hi hl t, ?_, rfl⟩
  rw [Tally.addDiag_counts]
  exact foldl_itemTally_counts _ _

/-- The outcome of `_send_retrying`: some attempts may raise before the last one ends. -/
inductive Sends (E : BulkEnv C Line) (q : BulkRequest Line) :
    C → Except BulkException BulkResponse → C → Prop where
  | last (h : E.answers s q reply s') : Sends E q s reply.result s'
  | again (h : E.answers s q reply s') (he : reply.result = .error e)
      (hr : Sends E q s' result t) : Sends E q s result t

/-- The part of the log that a send with its repetitions leaves behind. -/
theorem Sends.appends {legal : BulkRequest Line → BulkReply → Prop}
    (h : Sends (callEnv legal demands) q log result log') :
    ∃ raised reply, log' = log ++ raised ++ [⟨q, reply⟩] ∧ reply.result = result ∧
      legal q reply ∧ ∀ c ∈ raised, c.1 = q ∧ ∃ e, c.2.result = .error e := by
  induction h with
  | last h =>
    obtain ⟨hl, rfl⟩ := h
    exact ⟨[], _, by simp, rfl, hl, fun c hc => absurd hc List.not_mem_nil⟩
  | @again _ first _ _ _ _ h he _ ih =>
    obtain ⟨-, rfl⟩ := h
    obtain ⟨raised, reply, rfl, hr, hl, hraised⟩ := ih
    refine ⟨⟨q, first⟩ :: raised, reply, by simp, hr, hl, ?_⟩
    intro c hc
    rcases List.mem_cons.mp hc with rfl | hc
    · exact ⟨rfl, _, he⟩
    · exact hraised c hc

/-- Where no call raises, a send is a single call. -/
theorem Sends.once {legal : BulkRequest Line → BulkReply → Prop}
    (hno : ∀ q r e, legal q r → r.result ≠ .error e)
    (h : Sends (callEnv legal demands) q log result log') :
    ∃ reply, log' = log ++ [⟨q, reply⟩] ∧ reply.result = result ∧ legal q reply := by
  cases h with
  | last h => exact ⟨_, h.2, rfl, h.1⟩
  | again h he => exact absurd he (hno _ _ _ h.1)

section Rules

variable [NdjsonLine Line] {E : BulkEnv C Line}

theorem wp_send {post : SendResult → C → Prop} (ha : E.asks s ⟨ops, fp⟩)
    (h : ∀ reply s', E.answers s ⟨ops, fp⟩ reply s' → ∀ stats, post (reply.result, stats) s') :
    wp E (send cfg ops fp stats) post s := by
  rw [send, wp_bind, wp_query]
  exact ⟨ha, fun reply s' hr => h reply s' hr _⟩

theorem wp_sendRetrying {post : SendResult → C → Prop}
    (ha : ∀ s, E.asks s ⟨ops, fp⟩)
    (h : ∀ result s', Sends E ⟨ops, fp⟩ s result s' → ∀ stats, post (result, stats) s') :
    wp E (sendRetrying cfg ops fp left stats) post s := by
  induction left generalizing s stats with
  | zero => exact wp_send (ha s) fun reply s' hr stats => h _ _ (.last hr) stats
  | succ left ih =>
    rw [sendRetrying, wp_bind]
    apply wp_send (ha s)
    intro reply s' hr stats
    have hs := h _ _ (.last hr) stats
    cases he : reply.result with
    | ok resp => rwa [he] at hs
    | error e =>
      rw [he] at hs
      dsimp only
      split
      · exact ih fun result t ht => h result t (.again hr he ht)
      · exact hs

theorem fullFilterPath_isProbe (t : Tally) : (fullFilterPath t).isProbe = false := by
  rw [fullFilterPath]
  split <;> rfl

theorem wp_fullRound {post : Except ShipError (Round Line) → C → Prop}
    (ha : ∀ s fp, fp.isProbe = false → E.asks s ⟨pending, fp⟩)
    (raised : ∀ fp e s', fp.isProbe = false → Sends E ⟨pending, fp⟩ s (.error e) s' →
      ∀ stats, post (.ok { tally := Tally.failRequest { t with stats } pending.length e }) s')
    (answered : ∀ fp resp s', fp.isProbe = false → Sends E ⟨pending, fp⟩ s (.ok resp) s' →
      ∀ stats, post (classifyResponse cfg m pending resp { t with stats }) s') :
    wp E (fullRound cfg m pending t) post s := by
  have hfp := fullFilterPath_isProbe t
  rw [fullRound, wp_bind]
  apply wp_sendRetrying (fun s => ha s _ hfp)
  intro result s' hs stats
  cases result with
  | error e => exact raised _ e s' hfp hs stats
  | ok resp => exact answered _ resp s' hfp hs stats

/-- The invariant rule of the full path: one round either ends the chunk or hands a smaller
budget, the lines to retry and the new tally to the next round. -/
theorem wp_fullPath {I : Nat → List Line → Tally → C → Prop}
    {post : Except ShipError Tally → C → Prop}
    (ha : ∀ s q, q.operations.Sublist lines → q.filterPath.isProbe = false → E.asks s q)
    (nil : ∀ left t s, I left [] t s → post (.ok t) s)
    (raised : ∀ left pending t fp s e s', I left pending t s → fp.isProbe = false →
      Sends E ⟨pending, fp⟩ s (.error e) s' →
      ∀ stats, post (.ok (Tally.failRequest { t with stats } pending.length e)) s')
    (failed : ∀ left pending t fp s resp s', I left pending t s → fp.isProbe = false →
      Sends E ⟨pending, fp⟩ s (.ok resp) s' →
      ∀ stats e, classifyResponse cfg (decide (0 < left)) pending resp { t with stats } =
        .error e → post (.error e) s')
    (round : ∀ left pending t fp s resp s', I left pending t s → fp.isProbe = false →
      Sends E ⟨pending, fp⟩ s (.ok resp) s' →
      ∀ stats r, classifyResponse cfg (decide (0 < left)) pending resp { t with stats } = .ok r →
        (r.retryLines = [] → post (.ok r.tally) s') ∧
        (r.retryLines ≠ [] → ∀ left', left = left' + 1 → I left' r.retryLines r.tally s'))
    (hsub : pending.Sublist lines) (h : I left pending t s) :
    wp E (fullPath cfg left pending t) post s := by
  induction left generalizing pending t s with
  | zero =>
    rw [fullPath]
    split
    · next hp => exact nil 0 t s (hp ▸ h)
    · rw [wp_bind]
      apply wp_fullRound (fun s _ hfp => ha s _ hsub hfp)
      · intro fp e s' hfp hs stats
        exact raised 0 pending t fp s e s' h hfp hs stats
      · intro fp resp s' hfp hs stats
        cases hr : classifyResponse cfg false pending resp { t with stats } with
        | error e => exact failed 0 pending t fp s resp s' h hfp hs stats e hr
        | ok r =>
          exact (round 0 pending t fp s resp s' h hfp hs stats r hr).1
            (classifyResponse_no_retry hr)
  | succ left ih =>
    rw [fullPath]
    split
    · next hp => exact nil _ t s (hp ▸ h)
    · rw [wp_bind]
      have hm : decide (0 < left + 1) = true := decide_eq_true (Nat.succ_pos left)
      apply wp_fullRound (fun s _ hfp => ha s _ hsub hfp)
      · intro fp e s' hfp hs stats
        exact raised _ pending t fp s e s' h hfp hs stats
      · intro fp resp s' hfp hs stats
        cases hr : classifyResponse cfg true pending resp { t with stats } with
        | error e => exact failed _ pending t fp s resp s' h hfp hs stats e (hm ▸ hr)
        | ok r =>
          have hround := round _ pending t fp s resp s' h hfp hs stats r (hm ▸ hr)
          dsimp only
          split
          · next hn => exact hround.1 hn
          · next hn =>
            exact ih ((classifyResponse_retry_sublist hr).trans hsub) (hround.2 hn left rfl)

/-- A chunk is one probe and, unless the probe came back clean, the full path. -/
theorem wp_shipNdjsonChunk {post : Except ShipError Tally → C → Prop}
    (ha : ∀ s fp, fp.isProbe = true → cfg.probes = true → E.asks s ⟨lines, fp⟩)
    (raised : ∀ fp e s', fp.isProbe = true → Sends E ⟨lines, fp⟩ s (.error e) s' →
      ∀ stats, post (.ok (Tally.failRequest { t with stats } lines.length e)) s')
    (clean : ∀ fp resp s', fp.isProbe = true → Sends E ⟨lines, fp⟩ s (.ok resp) s' →
      resp.errors = some false →
      ∀ stats, post (.ok (Tally.addCounts { t with stats } { written := lines.length })) s')
    (probed : ∀ fp resp s', fp.isProbe = true → Sends E ⟨lines, fp⟩ s (.ok resp) s' →
      resp.errors ≠ some false →
      ∀ stats, wp E (fullPath cfg cfg.maxRetriesPerDoc.toNat lines { t with stats }) post s')
    (direct : cfg.probes = false →
      wp E (fullPath cfg cfg.maxRetriesPerDoc.toNat lines t) post s) :
    wp E (shipNdjsonChunk cfg lines t) post s := by
  have hfp : (fastFilterPath t).isProbe = true := by
    rw [fastFilterPath]
    split <;> rfl
  rw [shipNdjsonChunk]
  split
  · next hb =>
    rw [wp_bind]
    apply wp_sendRetrying (fun s => ha s _ hfp hb)
    intro result s' hs stats
    cases result with
    | error e => exact raised _ e s' hfp hs stats
    | ok resp =>
      dsimp only
      split
      · next he =>
        have hc : resp.errors = some false := by
          cases hr : resp.errors with
          | none => simp [hr] at he
          | some b => simpa [hr] using he
        exact clean _ resp s' hfp hs hc stats
      · next he =>
        exact probed _ resp s' hfp hs (fun hc => he (by rw [hc]; rfl)) stats
  · next hb => exact direct (Bool.not_eq_true _ |>.mp hb)

end Rules

end EsConnector
