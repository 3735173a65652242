import EsConnector.ServerLedger

namespace EsConnector
set_option autoImplicit true

open Interaction

variable {Line : Type}

/-- The outcomes of the items of a response. -/
def callOutcomes (c : BulkCall Line) : List ItemOutcome :=
  match c.2.result with
  | .error _ => []
  | .ok resp => iterBulkResponseOutcomes (resp.items.getD [])

/-- The outcomes of the lines of a request: its own item decides a line, unless the line is sent
again and the rounds that follow decide it. -/
def weave (cfg : EsWriteConfig) (mayRetry : Bool) : List ItemOutcome → List Outcome → List Outcome
  | [], _ => []
  | o :: os, later =>
    if retryable cfg o && mayRetry then
      later.headD .error :: weave cfg mayRetry os later.tail
    else o.outcome :: weave cfg mayRetry os later

/-- What each line of a chunk was counted as, read off the requests and responses of the full path
with `left` retries. -/
def fates (cfg : EsWriteConfig) : (left : Nat) → List (BulkCall Line) → List Outcome
  | _, [] => []
  | left, c :: calls =>
    weave cfg (decide (0 < left)) (callOutcomes c) (fates cfg (left - 1) calls)

def Outcome.applies : Outcome → Bool
  | .written => true
  | .deleted => true
  | _ => false

/-- The lines that were counted written or deleted. -/
def countedApplied (lines : List Line) (os : List Outcome) : List Line :=
  ((lines.zip os).filter (·.2.applies)).map Prod.fst

/-- The rounds of the full path when no send raises and every line has its item. -/
inductive Rounds (cfg : EsWriteConfig) : Nat → List Line → List (BulkCall Line) → Prop where
  | done : Rounds cfg left [] []
  | round (hne : pending ≠ []) (hfp : fp.isProbe = false) (hres : reply.result = .ok resp)
      (hi : resp.items = some items) (hlen : items.length = pending.length)
      (h : Rounds cfg (left - 1)
        (retriedLines cfg (decide (0 < left)) pending (iterBulkResponseOutcomes items)) calls) :
      Rounds cfg left pending (⟨⟨pending, fp⟩, reply⟩ :: calls)

theorem callOutcomes_eq (hres : reply.result = .ok resp) (hi : resp.items = some items) :
    callOutcomes ⟨(q : BulkRequest Line), reply⟩ = iterBulkResponseOutcomes items := by
  simp only [callOutcomes, hres, hi, Option.getD_some]

@[simp] theorem weave_length (os : List ItemOutcome) (later : List Outcome) :
    (weave cfg m os later).length = os.length := by
  induction os generalizing later with
  | nil => rfl
  | cons o os ih =>
    rw [weave]
    split <;> rw [List.length_cons, List.length_cons, ih]

theorem countedApplied_cons (line : Line) (lines : List Line) (o : Outcome) (os : List Outcome) :
    countedApplied (line :: lines) (o :: os) =
      (if o.applies then [line] else []) ++ countedApplied lines os := by
  unfold countedApplied
  rw [List.zip_cons_cons, List.filter_cons]
  split <;> simp_all

theorem exists_later_of_retried
    (hl : later.length = (retriedLines cfg m (line :: lines : List Line) (o :: os)).length)
    (hr : (retryable cfg o && m) = true) :
    ∃ f rest, later = (f : Outcome) :: rest ∧
      rest.length = (retriedLines cfg m lines os).length := by
  rw [retriedLines_cons, if_pos hr] at hl
  cases later with
  | nil => simp at hl
  | cons f rest => exact ⟨f, rest, rfl, by simpa using hl⟩

theorem sum_weave (pending : List Line) (os : List ItemOutcome)
    (hlen : pending.length = os.length)
    (hl : later.length = (retriedLines cfg m pending os).length) :
    ((weave cfg m os later).map Counts.one).sum =
      ((settled cfg m os).map fun o => Counts.one o.outcome).sum +
        (later.map Counts.one).sum := by
  induction os generalizing pending later with
  | nil =>
    have hnil : later = [] := List.length_eq_zero_iff.mp (by simpa [retriedLines] using hl)
    rw [hnil]
    rfl
  | cons o os ih =>
    obtain ⟨line, lines, rfl⟩ := List.exists_cons_of_length_eq_add_one hlen
    have htail : lines.length = os.length := Nat.succ_inj.mp hlen
    rw [weave, settled_cons]
    by_cases hr : (retryable cfg o && m) = true
    · obtain ⟨f, rest, rfl, hrest⟩ := exists_later_of_retried hl hr
      rw [if_pos hr, if_pos hr, List.headD_cons, List.tail_cons, List.map_cons, List.sum_cons,
        ih lines htail hrest, List.nil_append, List.map_cons, List.sum_cons]
      exact add_left_comm _ _ _
    · rw [retriedLines_cons, if_neg hr, List.nil_append] at hl
      rw [if_neg hr, if_neg hr, List.map_cons, List.sum_cons, ih lines htail hl, List.map_append,
        List.sum_append, List.map_singleton, List.sum_singleton, add_assoc]

theorem countedApplied_weave (os : List ItemOutcome)
    (hok : ∀ o ∈ os, o.outcome.applies = o.ok)
    (hlen : (pending : List Line).length = os.length)
    (hl : later.length = (retriedLines cfg m pending os).length) :
    (countedApplied pending (weave cfg m os later)).Perm
      (((pending.zip os).filter (·.2.ok)).map Prod.fst ++
        countedApplied (retriedLines cfg m pending os) later) := by
  induction os generalizing pending later with
  | nil =>
    have hnil : later = [] := List.length_eq_zero_iff.mp (by simpa [retriedLines] using hl)
    simp [hnil, weave, countedApplied]
  | cons o os ih =>
    obtain ⟨line, lines, rfl⟩ := List.exists_cons_of_length_eq_add_one hlen
    have htail : lines.length = os.length := Nat.succ_inj.mp hlen
    have hoks : ∀ o ∈ os, o.outcome.applies = o.ok := fun o ho => hok o (List.mem_cons_of_mem _ ho)
    have ho := hok o List.mem_cons_self
    rw [weave, retriedLines_cons, List.zip_cons_cons, List.filter_cons]
    by_cases hr : (retryable cfg o && m) = true
    · obtain ⟨f, rest, rfl, hrest⟩ := exists_later_of_retried hl hr
      have hnot : o.ok = false := by
        simp only [retryable, Bool.and_eq_true, Bool.not_eq_true'] at hr
        exact hr.1.1.1
      rw [if_pos hr, if_pos hr, List.headD_cons, List.tail_cons, countedApplied_cons,
        List.singleton_append, countedApplied_cons, hnot, if_neg Bool.false_ne_true]
      apply ((ih hoks htail hrest).append_left _).trans
      rw [← List.append_assoc, ← List.append_assoc]
      exact List.perm_append_comm.append_right _
    · rw [retriedLines_cons, if_neg hr, List.nil_append] at hl
      rw [if_neg hr, if_neg hr, List.nil_append, countedApplied_cons, ho]
      apply ((ih hoks htail hl).append_left _).trans
      cases o.ok <;> simp

theorem itemOutcome_applies (item : Item) :
    (itemOutcome item).outcome.applies = (itemOutcome item).ok := by
  have h := itemOutcome_applied item
  cases hout : (itemOutcome item).outcome <;> cases hok : (itemOutcome item).ok <;>
    simp_all [Outcome.applies, Counts.one]

theorem Rounds.fates_length (h : Rounds cfg left pending (calls : List (BulkCall Line))) :
    (fates cfg left calls).length = pending.length := by
  cases h with
  | done => rfl
  | round hne hfp hres hi hlen h =>
    rw [fates, weave_length, callOutcomes_eq hres hi, iterBulkResponseOutcomes_length, hlen]

/-- Over all rounds, the lines counted as applied are the lines the responses acknowledged. -/
theorem Rounds.acked (h : Rounds cfg left pending (calls : List (BulkCall Line))) :
    (countedApplied pending (fates cfg left calls)).Perm (calls.flatMap ackedLines) := by
  induction h with
  | done => exact .nil
  | @round pending items left calls fp reply resp hne hfp hres hi hlen h ih =>
    have hack : ackedLines ⟨(⟨pending, fp⟩ : BulkRequest Line), reply⟩ =
        ((pending.zip (iterBulkResponseOutcomes items)).filter (·.2.ok)).map Prod.fst := by
      simp only [ackedLines, hres, hfp, hi, Bool.false_eq_true, if_false, Option.getD_some]
    rw [fates, callOutcomes_eq hres hi, List.flatMap_cons, hack]
    refine (countedApplied_weave _ ?_ (by simpa using hlen.symm) h.fates_length).trans
      (ih.append_left _)
    intro o ho
    obtain ⟨item, -, rfl⟩ := List.mem_map.mp ho
    exact itemOutcome_applies item

/-- A later send carries the lines whose own item in the send before asked for it. -/
def Resends (cfg : EsWriteConfig) (c c' : BulkCall Line) : Prop :=
  c'.1.operations =
    ((c.1.operations.zip (callOutcomes c)).filter fun p => retryable cfg p.2).map Prod.fst

theorem Rounds.head (h : Rounds cfg left pending (calls : List (BulkCall Line))) :
    ∀ c ∈ calls.head?, c.1.operations = pending := by
  cases h with
  | done => simp
  | round => simp

theorem Rounds.pending_ne_nil
    (h : Rounds cfg left pending (c :: calls : List (BulkCall Line))) : pending ≠ [] := by
  cases h with
  | round hne => exact hne

theorem Rounds.not_probe (h : Rounds cfg left pending (calls : List (BulkCall Line))) :
    ∀ c ∈ calls, c.1.filterPath.isProbe = false := by
  induction h with
  | done => exact fun c hc => absurd hc List.not_mem_nil
  | round hne hfp hres hi hlen h ih =>
    intro c hc
    rcases List.mem_cons.mp hc with rfl | hc
    · exact hfp
    · exact ih c hc

theorem Rounds.isChain (h : Rounds cfg left pending (calls : List (BulkCall Line))) :
    calls.IsChain (Resends cfg) := by
  induction h with
  | done => exact .nil
  | @round pending items left calls fp reply resp hne hfp hres hi hlen h ih =>
    cases calls with
    | nil => exact .singleton _
    | cons c calls =>
      refine .cons_cons ?_ ih
      rw [Resends, h.head c rfl, callOutcomes_eq hres hi]
      have hretry := h.pending_ne_nil
      cases hleft : decide (0 < left) with
      | true => simp only [retriedLines, Bool.and_true]
      | false =>
        rw [hleft] at hretry
        exact absurd (by simp [retriedLines]) hretry

/-- A call does not raise, and a full-path response has one item for each line. -/
def Complete (q : BulkRequest Line) (reply : BulkReply) : Prop :=
  ∃ resp, reply.result = .ok resp ∧ (q.filterPath.isProbe = false →
    ∃ items, resp.items = some items ∧ items.length = q.operations.length)

theorem Complete.not_raised {q : BulkRequest Line} {r : BulkReply} (h : Complete q r) :
    r.result ≠ .error e := by
  obtain ⟨resp, hres, -⟩ := h
  simp [hres]

section Runs

variable [NdjsonLine Line]

/-- The environment of the full path when no send raises. -/
def completeEnv (Line : Type) : BulkEnv (List (BulkCall Line)) Line :=
  callEnv Complete fun q => q.filterPath.isProbe = false

theorem wp_fullRound_complete (cfg : EsWriteConfig) (m : Bool) (pending : List Line) (t : Tally)
    (log : List (BulkCall Line)) :
    wp (completeEnv Line) (fullRound cfg m pending t) (fun out log' =>
      ∃ r fp reply resp items, out = .ok r ∧ log' = log ++ [⟨⟨pending, fp⟩, reply⟩] ∧
        fp.isProbe = false ∧ reply.result = .ok resp ∧ resp.items = some items ∧
        items.length = pending.length ∧
        r.tally.counts = t.counts +
          ((settled cfg m (iterBulkResponseOutcomes items)).map fun o => Counts.one o.outcome).sum ∧
        r.retryLines = retriedLines cfg m pending (iterBulkResponseOutcomes items)) log := by
  apply wp_fullRound (fun _ fp hfp => hfp)
  · intro fp e log' hfp hs
    obtain ⟨reply, -, hres, hl⟩ := hs.once fun _ _ _ => Complete.not_raised
    exact absurd hres hl.not_raised
  · intro fp resp log' hfp hs stats
    obtain ⟨reply, rfl, hres, resp', hres', hfull⟩ := hs.once fun _ _ _ => Complete.not_raised
    rw [hres] at hres'
    cases hres'
    obtain ⟨items, hi, hlen⟩ := hfull hfp
    obtain ⟨r, hr, hcounts, hretry⟩ := classifyResponse_eq cfg m
      (BulkResponse.itemList_of_items hi) hlen.le { t with stats }
    exact ⟨r, fp, reply, resp, items, hr, rfl, hfp, hres, hi, hlen, hcounts, hretry⟩

/-- Without exceptions the full path runs its rounds, and its counts are those of the fates. -/
theorem wp_fullPath_rounds (cfg : EsWriteConfig) (left : Nat) (pending : List Line) (t : Tally)
    (log : List (BulkCall Line)) :
    wp (completeEnv Line) (fullPath cfg left pending t) (fun out log' =>
      ∃ t' calls, out = .ok t' ∧ log' = log ++ calls ∧ Rounds cfg left pending calls ∧
        t'.counts = t.counts + ((fates cfg left calls).map Counts.one).sum) log := by
  induction left generalizing pending t log with
  | zero =>
    rw [fullPath]
    split
    · next hp =>
      subst hp
      exact ⟨t, [], rfl, (List.append_nil _).symm, .done, (add_zero _).symm⟩
    · next hp =>
      rw [wp_bind]
      apply wp_mono (wp_fullRound_complete cfg false pending t log)
      rintro _ _ ⟨r, fp, reply, resp, items, rfl, rfl, hfp, hres, hi, hlen, hcounts, hretry⟩
      have hnone : retriedLines cfg false pending (iterBulkResponseOutcomes items) = [] := by
        simp [retriedLines]
      have hround : Rounds cfg 0 pending [⟨⟨pending, fp⟩, reply⟩] :=
        .round hp hfp hres hi hlen (by rw [decide_eq_false (Nat.lt_irrefl 0), hnone]; exact .done)
      refine ⟨r.tally, _, rfl, rfl, hround, ?_⟩
      rw [hcounts, fates, callOutcomes_eq hres hi, decide_eq_false (Nat.lt_irrefl 0),
        sum_weave pending _ (by simpa using hlen.symm) (by rw [hnone]; rfl)]
      simp [fates]
  | succ left ih =>
    rw [fullPath]
    split
    · next hp =>
      subst hp
      exact ⟨t, [], rfl, (List.append_nil _).symm, .done, (add_zero _).symm⟩
    · next hp =>
      rw [wp_bind]
      apply wp_mono (wp_fullRound_complete cfg true pending t log)
      rintro _ _ ⟨r, fp, reply, resp, items, rfl, rfl, hfp, hres, hi, hlen, hcounts, hretry⟩
      have hm : decide (0 < left + 1) = true := decide_eq_true (Nat.succ_pos left)
      -- whatever the rounds that follow, this round goes before them
      have hcons : ∀ calls (t' : Tally), Rounds cfg left r.retryLines calls →
          t'.counts = r.tally.counts + ((fates cfg left calls).map Counts.one).sum →
          Rounds cfg (left + 1) pending (⟨⟨pending, fp⟩, reply⟩ :: calls) ∧
            t'.counts = t.counts + ((fates cfg (left + 1)
              (⟨⟨pending, fp⟩, reply⟩ :: calls)).map Counts.one).sum := by
        intro calls t' hrounds hc
        have hlater := hrounds.fates_length
        rw [hretry] at hrounds hlater
        refine ⟨.round hp hfp hres hi hlen (by rw [hm]; exact hrounds), ?_⟩
        rw [hc, hcounts, fates, callOutcomes_eq hres hi, hm, Nat.add_sub_cancel,
          sum_weave pending _ (by simpa using hlen.symm) hlater, add_assoc]
      dsimp only
      split
      · next hn =>
        obtain ⟨hrounds, hc⟩ := hcons [] r.tally (by rw [hn]; exact .done) (add_zero _).symm
        exact ⟨r.tally, _, rfl, rfl, hrounds, hc⟩
      · apply wp_mono (ih r.retryLines r.tally _)
        rintro _ _ ⟨t', calls, rfl, rfl, hrounds, hc⟩
        obtain ⟨hrounds', hc'⟩ := hcons calls t' hrounds hc
        exact ⟨t', _, rfl, by simp, hrounds', hc'⟩

variable {Id Src : Type} [DecidableEq Id] {act : Line → Action Id Src} {rules : EsRules}
  {s s₀ : EsState Id Src Line} {cfg : EsWriteConfig} {lines : List Line} {t t' : Tally}

omit [NdjsonLine Line] in
theorem Replies.complete (hraise : rules.mayRaise = false) (hall : rules.allItems = true)
    {q : BulkRequest Line} (h : Replies rules q p r) : Complete q r := by
  cases hres : r.result with
  | error e =>
    simp only [Replies, hres, hraise] at h
    cases h
  | ok resp =>
    simp only [Replies, hres] at h
    obtain ⟨done, -, hlen, -, hfull⟩ := h
    refine ⟨resp, hres, ?_⟩
    intro hfp
    obtain ⟨items, hi, -, heq⟩ := hfull hfp
    exact ⟨items, hi, heq hall ▸ hlen⟩

theorem probes_eq_false (h : cfg.bypassFastPath = true ∨ cfg.hasDeletes = true) :
    cfg.probes = false := by
  rcases h with h | h <;> simp [EsWriteConfig.probes, h]

/-- What a chunk has become after its calls: `fates` says what each line was counted as, and the
lines counted written or deleted, no others, have taken effect, each once. -/
structure AppliedOnce (cfg : EsWriteConfig) (lines : List Line) (t t' : Tally)
    (s₀ s : EsState Id Src Line) (calls : List (BulkCall Line)) (os : List Outcome) : Prop where
  fates_length : os.length = lines.length
  counted : t'.counts = t.counts + (os.map Counts.one).sum
  once : ∃ h, s.applied = s₀.applied ++ h ∧ h.Perm (countedApplied lines os)
  first : ∀ c ∈ calls.head?, c.1.operations = lines
  resends : calls.IsChain (Resends cfg)

theorem additive_of_solo (hadds : ∀ line ∈ lines, (act line).Adds) {th : BulkThread Line ChunkResult}
    (hrun : (elasticsearch act rules).Solo (shipNdjsonChunk cfg lines t) s₀ s th) :
    Additive s₀ s th := by
  have hwp : wp (callEnv FewItems fun (q : BulkRequest Line) =>
      q.operations ⊆ lines) (shipNdjsonChunk cfg lines t) (Accounts lines t []) [] :=
    wp_shipNdjsonChunk_accounts (fun _ _ h => h) (fun _ hq _ => hq) t []
  have hstart : Thread.Sound FewItems (fun q => q.operations ⊆ lines) (shipNdjsonChunk cfg lines t)
      ({ rest := shipNdjsonChunk cfg lines t } : BulkThread Line ChunkResult) := .refl _ _
  exact hrun.invariant (I := Additive s₀) (fun _ _ _ _ h => Replies.fewItems h) hwp hstart
    (.start s₀ _) fun _ _ _ _ hsub _ h hs => h.step hadds hsub hs

/-- On the full path every line is applied exactly once or reported, when no send raises and every
response has one item for each line. Lines are of any type, so two lines of one text may be told
apart. -/
theorem full_path_exactly_once (act : Line → Action Id Src) (hraise : rules.mayRaise = false)
    (hall : rules.allItems = true) (cfg : EsWriteConfig)
    (hpath : cfg.bypassFastPath = true ∨ cfg.hasDeletes = true) (lines : List Line) (t : Tally)
    (s₀ s : EsState Id Src Line) (th : BulkThread Line ChunkResult) (r : ChunkResult)
    (hrun : (elasticsearch act rules).Solo (shipNdjsonChunk cfg lines t) s₀ s th)
    (hend : th.rest = .ret r) :
    ∃ t', r = .ok t' ∧
      AppliedOnce cfg lines t t' s₀ s th.log (fates cfg cfg.maxRetriesPerDoc.toNat th.log) ∧
      ((∀ line ∈ lines, (act line).Adds) → (newIds s₀.store s.store).Finite ∧
        t'.counts.written = t.counts.written + (newIds s₀.store s.store).ncard) := by
  have hfull : shipNdjsonChunk cfg lines t = fullPath cfg cfg.maxRetriesPerDoc.toNat lines t := by
    rw [shipNdjsonChunk, probes_eq_false hpath, if_neg Bool.false_ne_true]
  have hrun' := hfull ▸ hrun
  have hsound : th.Sound Complete (fun q => q.filterPath.isProbe = false)
      (fullPath cfg cfg.maxRetriesPerDoc.toNat lines t) :=
    .solo (fun _ _ _ _ h => Replies.complete hraise hall h) hrun'
  have haccounts : th.Sound FewItems (fun q => q.operations ⊆ lines)
      (shipNdjsonChunk cfg lines t) :=
    .solo (fun _ _ _ _ h => Replies.fewItems h) hrun
  rw [Thread.Sound, hend] at hsound haccounts
  obtain ⟨t', calls, rfl, hlog, hrounds, hcounts⟩ :=
    Env.Run.ensures hsound (wp_fullPath_rounds cfg _ lines t [])
  obtain ⟨t'', c, calls', ht, hc, hlog', hacc⟩ := Env.Run.ensures haccounts
    (wp_shipNdjsonChunk_accounts (fun _ _ h => h) (fun _ hq _ => hq) t [])
  cases ht
  rw [List.nil_append] at hlog hlog'
  subst hlog hlog'
  obtain ⟨h, lost, hledger⟩ := applied_ledger hall hrun
  have hperm := hledger.perm
  rw [hledger.nothing_lost hraise hrounds.not_probe, BulkThread.current, hend, List.append_nil,
    List.append_nil] at hperm
  refine ⟨t', rfl, ⟨hrounds.fates_length, hcounts,
    ⟨h, hledger.applied, hperm.trans hrounds.acked.symm⟩, hrounds.head, hrounds.isChain⟩, ?_⟩
  intro hadds
  have hadd := additive_of_solo hadds hrun
  obtain ⟨h', happ, hgrown⟩ := hadd.grown
  obtain rfl := List.append_cancel_left (hledger.applied.symm.trans happ)
  have hacked := hacc.acked
  have hdel := hacc.noDeletes hadd.noDeletes
  refine ⟨hgrown.finite, ?_⟩
  rw [hc, Counts.written_add, hgrown.card, hperm.length_eq, ← hacked, hdel, Nat.add_zero]

end Runs

/-- A line without an id that is throttled, sent again and then applied. -/
theorem full_path_exactly_once_retried :
    ∃ (s : EsState Nat String String) (th : BulkThread String ChunkResult) (t' : Tally),
      th.log.length = 2 ∧
      AppliedOnce { hosts := "h", bypassFastPath := true } ["a"] (.start false) t'
        ⟨fun _ => none, []⟩ s th.log [.written] ∧
      t'.counts.written = (newIds (fun _ => none) s.store).ncard := by
  let act : String → Action Nat String := fun line => .index none line
  let reply (status : Int) : BulkReply :=
    { result := .ok { items := some [some (.index, { status := some status })] } }
  let s₀ : EsState Nat String String := ⟨fun _ => none, []⟩
  have hanswers (status : Int) : Answers (act "a") (some (.index, { status := some status })) := by
    rintro op body ⟨⟩
    rfl
  have hreplies (status : Int) : Replies ⟨false, true, true⟩ (⟨["a"], .items⟩ : BulkRequest String)
      [some (some (.index, { status := some status }))] (reply status) :=
    ⟨_, rfl, rfl, fun h => absurd h Bool.false_ne_true, fun _ => ⟨_, rfl, List.prefix_refl _,
      fun _ => rfl⟩⟩
  have hrun : (elasticsearch act ⟨false, true, true⟩).Solo
      (shipNdjsonChunk { hosts := "h", bypassFastPath := true } ["a"] (.start false)) s₀ _ _ :=
    (Steps.single (.refused_single (hanswers 429) rfl fun _ => trivial) (hreplies 429)).trans
      (Steps.single (.applied_single (hanswers 201) rfl (.auto (i := 0) rfl)) (hreplies 201))
  obtain ⟨t', -, honce, hnew⟩ := full_path_exactly_once act rfl rfl _ (.inl rfl) ["a"] (.start false)
    s₀ _ _ _ hrun rfl
  exact ⟨_, _, t', rfl, honce, ((hnew fun _ _ => trivial).2).trans (Nat.zero_add _)⟩
end EsConnector
