import EsConnector.LaterRow

namespace EsConnector
set_option autoImplicit true

open Interaction

variable {Id Src Line : Type} {act : Line → Action Id Src} {cfg : EsWriteConfig}
  {batches : List (List Line)}

/-- The writer of a partition whose lines all have an action. -/
def serialWriter [NdjsonLine Line] (cfg : EsWriteConfig) (clock : PartitionClock)
    (batches : List (List Line)) : PartitionProg Line (Except WriteError SummaryRow) :=
  write cfg (shipInto cfg) clock (batches.map (·.map some))

abbrev serialPlan (cfg : EsWriteConfig) (batches : List (List Line)) : List (List Line) :=
  chunkPlan cfg (batches.map (·.map some))

theorem serialPlan_flatten (h : 0 < cfg.chunkSize) (batches : List (List Line)) :
    (serialPlan cfg batches).flatten = batches.flatten := by
  rw [chunkPlan_flatten_of_pos h, List.flatMap_map, ← List.flatMap_id]
  exact List.flatMap_congr fun lines _ => by simp [List.reduceOption]

theorem not_batchFault (h : 0 < cfg.chunkSize) :
    ¬BatchFault cfg (batches.map (·.map some)) := by
  rintro (⟨col, hcol, hnone⟩ | hzero)
  · obtain ⟨lines, -, rfl⟩ := List.mem_map.mp hcol
    obtain ⟨line, -, hl⟩ := List.mem_map.mp hnone
    cases hl
  · omega

theorem not_pooled (h : cfg.writeConcurrency = 1) : cfg.pooled = false := by
  rw [EsWriteConfig.pooled, h]
  rfl

theorem LastNamed.of_append (h : LastNamed act i (lines ++ lines') last)
    (hun : Unnamed act i lines') : LastNamed act i lines last := by
  rcases unnamed_or_lastNamed act i lines with hun' | ⟨last', hlast⟩
  · exact absurd h.named ((hun'.append hun) last h.mem)
  · rwa [h.unique (hlast.extend hun)]

variable [DecidableEq Id] [NdjsonLine Line]

/-- In every run of a serial partition beside an ordered Elasticsearch that counts no error, each
named id ends as its last line wants it. -/
def LaterRowWins (act : Line → Action Id Src) (cfg : EsWriteConfig) (batches : List (List Line)) :
    Prop :=
  ∀ (clock : PartitionClock) (st₀ st : Store Id Src)
    (x : Process (List Item) (BulkRequest Line) (fun _ => BulkReply) (List Line) ChunkResult
      (Except WriteError SummaryRow)) (row : SummaryRow),
    (orderedElasticsearch act).Run (shipOne cfg) (serialWriter cfg clock batches) st₀ st x →
    x.rest = .ret (.ok row) → row.errors = some 0 →
    ∀ i last, LastNamed act i batches.flatten last → InEffect act last st

/-- The last line of `i` in the chunks so far is in effect, unless a later chunk names `i`. -/
def SettledFor (act : Line → Action Id Src) (i : Id) (plan done : List (List Line)) (t : Tally)
    (st : Store Id Src) : Prop :=
  t.counts.errors = 0 → ∀ after, plan = done ++ after → Unnamed act i after.flatten →
    ∀ last, LastNamed act i done.flatten last → st i = (act last).value

theorem wp_true {E : Env C Q R} (hE : ∀ s q, E.asks s q) (p : Prog Q R α) :
    wp E p (fun _ _ => True) s := by
  induction p generalizing s with
  | ret a => trivial
  | ask q k ih => exact ⟨hE s q, fun r s' _ => ih r⟩

/-- Shipping the next chunk settles it too. -/
theorem SettledFor.ship (hs : ∀ line ∈ chunk, (act line).Sets)
    (hagree : 0 < cfg.maxRetriesPerDoc → ResendsAgree act cfg plan)
    (hp : done ++ [chunk] <+: plan) (h : SettledFor act i plan done t st) :
    wp (orderedElasticsearch act).env (shipNdjsonChunk cfg chunk t)
      (fun r st' => ∀ t', r = .ok t' → SettledFor act i plan (done ++ [chunk]) t' st') st := by
  obtain ⟨after, rfl⟩ := hp
  by_cases hafter : Unnamed act i after.flatten
  · rcases unnamed_or_lastNamed act i chunk with hun | ⟨last, hlast⟩
    · -- the chunk leaves the id alone
      have hhead : Heading act cfg i (st i) cfg.maxRetriesPerDoc.toNat chunk st :=
        ⟨fun _ line hl hi => absurd hi (hun line hl),
          fun line hl => absurd hl.named (hun line hl.mem), fun _ => rfl⟩
      apply wp_mono (wp_shipNdjsonChunk_heading hs hhead t)
      intro r st' hr t' he ht'
      obtain ⟨ht, hst⟩ := hr t' he ht'
      intro _ _ _ last hlast
      rw [List.flatten_append, List.flatten_singleton] at hlast
      rw [hst]
      refine h ht ([chunk] ++ after) (List.append_assoc ..) ?_ last (hlast.of_append hun)
      rw [List.flatten_append, List.flatten_singleton]
      exact hun.append hafter
    · have hhead : Heading act cfg i (act last).value cfg.maxRetriesPerDoc.toNat chunk st := by
        refine ⟨fun hleft => ?_, fun line hl => by rw [hl.unique hlast],
          fun hun => absurd hlast.named (hun last hlast.mem)⟩
        have hsplit : done ++ [chunk] ++ after = done ++ chunk :: after := by simp
        exact hagree (by omega) done chunk after hsplit i last hafter hlast
      apply wp_mono (wp_shipNdjsonChunk_heading hs hhead t)
      intro r st' hr t' he ht'
      obtain ⟨-, hst⟩ := hr t' he ht'
      intro _ _ _ last' hlast'
      rw [List.flatten_append, List.flatten_singleton] at hlast'
      rw [hst, hlast'.unique (hlast.prepend _)]
  · apply wp_mono (wp_true (fun _ _ => trivial) _)
    intro r st' _ t' _ _ after' he hafter'
    rw [List.append_cancel_left he] at hafter
    exact absurd hafter' hafter

/-- Where the lines that are sent again agree with the last line, the later row wins. -/
theorem laterRowWins_of_agree (hsets : ∀ line ∈ batches.flatten, (act line).Sets)
    (hchunk : 0 < cfg.chunkSize) (hserial : cfg.writeConcurrency = 1)
    (h : cfg.maxRetriesPerDoc ≤ 0 ∨ ResendsAgree act cfg (serialPlan cfg batches)) :
    LaterRowWins act cfg batches := by
  intro clock st₀ st x row hrun hx hrow i last hlast
  have hwp := wp_write_serial (E := (orderedElasticsearch act).env.callsOnly) (g := st₀)
    (SettledFor act i (serialPlan cfg batches)) (fun _ => True) (not_pooled hserial)
    (shipInto cfg) clock (batches.map (·.map some)) ?_ (fun _ _ _ _ _ => trivial) ?_
  · obtain ⟨t, hsettled, rfl, -⟩ := hrun.ensures_alone hwp hx
    have ht : t.counts.errors = 0 := Option.some_inj.mp hrow
    have hmem := hsets last hlast.mem
    rw [← serialPlan_flatten hchunk] at hlast
    exact (inEffect_iff hmem hlast.named).mpr
      (hsettled ht [] (List.append_nil _).symm (fun line hl => absurd hl List.not_mem_nil)
        last hlast)
  · intro done chunk t st hst hp
    apply wp_embed (serves_callsOnly _) (s := st)
    have hp : done ++ [chunk] <+: serialPlan cfg batches := hp
    refine wp_mono (SettledFor.ship ?_ ?_ hp hst) ?_
    · intro line hl
      apply hsets line
      rw [← serialPlan_flatten hchunk]
      exact List.mem_flatten.mpr ⟨chunk, hp.subset (by simp), hl⟩
    · intro hpos
      rcases h with hle | hagree
      · omega
      · exact hagree
    · intro r st' hr
      cases r with
      | error e => trivial
      | ok t' => exact hr t' rfl
  · intro _ _ _ _ last' hlast'
    exact absurd hlast'.mem List.not_mem_nil

section Throttling

/-- The item of a line that is taken. -/
def acceptedItem (act : Line → Action Id Src) (line : Line) : Item :=
  some ((act line).opType, { status := some 200 })

/-- The item of a line that is turned away. -/
def rejectedItem (act : Line → Action Id Src) (status : Int) (line : Line) : Item :=
  some ((act line).opType, { status := some status })

/-- The store once a line has taken effect. -/
def putLine (act : Line → Action Id Src) (st : Store Id Src) (line : Line) : Store Id Src :=
  match (act line).id with
  | some i => Function.update st i (act line).value
  | none => st

def fullAnswer (items : List Item) : BulkReply where
  result := .ok
    { errors := some (items.any fun item => !(itemOutcome item).ok)
      items := some items }

/-- A cluster that turns away `line` in the request `before ++ line :: after` and takes every
other line. -/
def throttling (act : Line → Action Id Src) (status : Int) (before : List Line) (line : Line)
    (after : List Line) : BulkEnv (Store Id Src) Line where
  asks _ q := ∀ l ∈ q.operations, (act l).Sets
  answers st q reply st' :=
    (q.operations = before ++ line :: after →
      reply = fullAnswer (before.map (acceptedItem act) ++
        rejectedItem act status line :: after.map (acceptedItem act)) ∧
      st' = after.foldl (putLine act) (before.foldl (putLine act) st)) ∧
    (q.operations ≠ before ++ line :: after →
      reply = fullAnswer (q.operations.map (acceptedItem act)) ∧
      st' = q.operations.foldl (putLine act) st)

omit [DecidableEq Id] [NdjsonLine Line] in
theorem itemOutcome_accepted (act : Line → Action Id Src) (line : Line) :
    (itemOutcome (acceptedItem act line)).ok = true ∧
      (itemOutcome (acceptedItem act line)).outcome ≠ .error := by
  have hok : isOk (ItemBody.statusCode { status := some 200 }) = true := by decide
  simp only [acceptedItem, itemOutcome, classifyBulkResult, hok, if_true, true_and]
  split <;> simp

omit [NdjsonLine Line] in
theorem handlesAll_accepted (lines : List Line) (hs : ∀ line ∈ lines, (act line).Sets)
    (st : Store Id Src) :
    HandlesAll act st lines (lines.map (acceptedItem act)) (lines.foldl (putLine act) st) := by
  induction lines generalizing st with
  | nil => exact .nil
  | cons line lines ih =>
    obtain ⟨hline, hlines⟩ := List.forall_mem_cons.mp hs
    refine .cons (.applied ?_ (itemOutcome_accepted act line).1 ?_) (ih hlines _)
    · intro op body he
      cases he
      rfl
    · rcases hline with ⟨i, src, he⟩ | ⟨i, he⟩ <;> simp only [putLine, he, Action.id, Action.value]
      · exact .index
      · exact .delete

/-- A status with which a line may be turned away and sent again. -/
def ResendStatus (cfg : EsWriteConfig) (op : OpType) (status : Int) : Prop :=
  status ∈ cfg.retryOnDocStatus ∧ status ≠ 0 ∧ isOk status = false ∧
    ¬(op = .delete ∧ status = 404)

omit [DecidableEq Id] [NdjsonLine Line] in
theorem exists_resendStatus {op : OpType} (h : cfg.resends op = true) :
    ∃ status, ResendStatus cfg op status := by
  obtain ⟨status, hmem, h⟩ := List.any_eq_true.mp h
  exact ⟨status, hmem, of_decide_eq_true h⟩

omit [DecidableEq Id] [NdjsonLine Line] in
theorem itemOutcome_rejected (hs : (act line).Sets)
    (h : ResendStatus cfg (act line).opType status) :
    (itemOutcome (rejectedItem act status line)).body.statusCode = status ∧
      (itemOutcome (rejectedItem act status line)).ok = false ∧
      retryable cfg (itemOutcome (rejectedItem act status line)) = true := by
  obtain ⟨hmem, hzero, hok, hgone⟩ := h
  have hcode : ItemBody.statusCode { status := some status } = status := by
    rw [ItemBody.statusCode]
    split <;> simp_all
  have hcreate : (act line).opType ≠ .create := by
    rcases hs with ⟨i, src, he⟩ | ⟨i, he⟩ <;> rw [he] <;> exact OpType.noConfusion
  have hig : classifyBulkResult false (act line).opType status ≠ .ignored := by
    intro hig
    obtain ⟨-, hg | hc⟩ := classifyBulkResult_ignored_iff.mp hig
    · exact hgone hg
    · exact hcreate hc.1
  refine ⟨hcode, by simpa only [rejectedItem, itemOutcome, hcode] using hok, ?_⟩
  simp [rejectedItem, itemOutcome, retryable, hcode, hok, hig, hmem]

omit [NdjsonLine Line] in
theorem handlesAll_throttled (hs : ∀ l ∈ before ++ line :: after, (act l).Sets)
    (h : ResendStatus cfg (act line).opType status) (st : Store Id Src) :
    HandlesAll act st (before ++ line :: after)
      (before.map (acceptedItem act) ++
        rejectedItem act status line :: after.map (acceptedItem act))
      (after.foldl (putLine act) (before.foldl (putLine act) st)) := by
  have hline : (act line).Sets := hs line (by simp)
  obtain ⟨hcode, hok, -⟩ := itemOutcome_rejected hline h
  refine (handlesAll_accepted before (fun l hl => hs l (by simp [hl])) st).append
    (.cons (.refused ?_ hok ?_) (handlesAll_accepted after (fun l hl => hs l (by simp [hl])) _))
  · intro op body he
    cases he
    rfl
  · rw [hcode]
    rcases hline with ⟨i, src, he⟩ | ⟨i, he⟩ <;> rw [he] at h ⊢
    · trivial
    · exact fun h404 => absurd ⟨rfl, h404⟩ h.2.2.2

omit [NdjsonLine Line] in
theorem repliesInFull_fullAnswer (h : HandlesAll act st q.operations items st') :
    RepliesInFull q items (fullAnswer items) := by
  refine ⟨h.length_eq, _, rfl, fun _ => ⟨_, rfl, fun hflag item hitem => ?_, fun hflag => ?_⟩,
    fun _ => rfl⟩
  · have hok := List.any_eq_false.mp hflag item hitem
    simp only [Bool.not_eq_true', Bool.not_eq_false] at hok
    intro herr
    cases item with
    | none => cases hok
    | some item =>
      simp only [itemOutcome] at hok herr
      simp only [classifyBulkResult, hok, if_true] at herr
      split at herr <;> cases herr
  · obtain ⟨item, hitem, hok⟩ := List.any_eq_true.mp hflag
    exact ⟨item, hitem, by simpa using hok⟩

omit [NdjsonLine Line] in
/-- The throttling cluster is an ordered, truthful Elasticsearch. -/
theorem throttling_answers (h : ResendStatus cfg (act line).opType status)
    (hs : ∀ l ∈ q.operations, (act l).Sets) (st : Store Id Src) :
    ∃ reply st', (throttling act status before line after).answers st q reply st' ∧
      (orderedElasticsearch act).env.answers st q reply st' := by
  by_cases hq : q.operations = before ++ line :: after
  · have hall := handlesAll_throttled (hq ▸ hs) h st
    rw [← hq] at hall
    exact ⟨_, _, ⟨fun _ => ⟨rfl, rfl⟩, fun hne => absurd hq hne⟩,
      orderedElasticsearch_answers.mpr ⟨_, hall, repliesInFull_fullAnswer hall⟩⟩
  · have hall := handlesAll_accepted q.operations hs st
    exact ⟨_, _, ⟨fun he => absurd he hq, fun _ => ⟨rfl, rfl⟩⟩,
      orderedElasticsearch_answers.mpr ⟨_, hall, repliesInFull_fullAnswer hall⟩⟩

omit [DecidableEq Id] [NdjsonLine Line] in
theorem retriedLines_accepted (lines : List Line) :
    retriedLines cfg m lines (iterBulkResponseOutcomes (lines.map (acceptedItem act))) = [] := by
  induction lines with
  | nil => rfl
  | cons line lines ih =>
    have hkept : retryable cfg (itemOutcome (acceptedItem act line)) = false := by
      simp [retryable, (itemOutcome_accepted act line).1]
    change retriedLines cfg m (line :: lines) (itemOutcome (acceptedItem act line) ::
      iterBulkResponseOutcomes (lines.map (acceptedItem act))) = []
    rw [retriedLines_cons, hkept, ih]
    rfl

theorem errors_sum_eq_zero {os : List ItemOutcome} (h : ∀ o ∈ os, o.outcome ≠ .error) :
    ((os.map fun o => Counts.one o.outcome).sum).errors = 0 := by
  induction os with
  | nil => rfl
  | cons o os ih =>
    obtain ⟨ho, hos⟩ := List.forall_mem_cons.mp h
    rw [List.map_cons, List.sum_cons, Counts.errors_add, ih hos]
    cases he : o.outcome <;> simp_all [Counts.one]

/-- What is known of a round that counts no error. -/
def QuietRound (t : Tally) (resent : List Line) (r : Except ShipError (Round Line)) : Prop :=
  ∃ r', r = .ok r' ∧ r'.tally.counts.errors = t.counts.errors ∧ r'.retryLines = resent

omit [NdjsonLine Line] in
theorem quietRound_of_items {items : List Item} (hlen : items.length ≤ lines.length)
    (hno : ∀ o ∈ settled cfg m (iterBulkResponseOutcomes items), o.outcome ≠ .error)
    (hr : retriedLines cfg m lines (iterBulkResponseOutcomes items) = resent)
    (hitems : resp.items = some items) (t : Tally) :
    QuietRound t resent (classifyResponse cfg m lines resp t) := by
  obtain ⟨r, he, hcounts, hretry⟩ :=
    classifyResponse_eq cfg m (BulkResponse.itemList_of_items hitems) hlen t
  refine ⟨r, he, ?_, hretry.trans hr⟩
  rw [hcounts, Counts.errors_add, errors_sum_eq_zero hno, Nat.add_zero]

omit [NdjsonLine Line] in
theorem sends_throttling {q : BulkRequest Line} {st st' : Store Id Src}
    (h : Sends (throttling act status before line after) q st result st') :
    ∃ items, result = (fullAnswer items).result ∧
      (throttling act status before line after).answers st q (fullAnswer items) st' := by
  have hfull : ∀ {st st' : Store Id Src} {reply},
      (throttling act status before line after).answers st q reply st' →
        ∃ items, reply = fullAnswer items := by
    intro st st' reply ha
    by_cases hq : q.operations = before ++ line :: after
    · exact ⟨_, (ha.1 hq).1⟩
    · exact ⟨_, (ha.2 hq).1⟩
  cases h with
  | last ha =>
    obtain ⟨items, rfl⟩ := hfull ha
    exact ⟨items, rfl, ha⟩
  | again ha he =>
    obtain ⟨items, rfl⟩ := hfull ha
    cases he

omit [NdjsonLine Line] in
theorem throttling_not_raised {q : BulkRequest Line} {st st' : Store Id Src} :
    ¬Sends (throttling act status before line after) q st (.error e) st' := by
  intro hsend
  obtain ⟨items, he, -⟩ := sends_throttling hsend
  cases he

omit [NdjsonLine Line] in
theorem sends_accepted {q : BulkRequest Line} {st st' : Store Id Src}
    (hsend : Sends (throttling act status before line after) q st result st')
    (hne : q.operations ≠ before ++ line :: after) :
    result = (fullAnswer (q.operations.map (acceptedItem act))).result ∧
      st' = q.operations.foldl (putLine act) st := by
  obtain ⟨items, he, ha⟩ := sends_throttling hsend
  obtain ⟨hitems, hst⟩ := ha.2 hne
  rw [he, hitems]
  exact ⟨rfl, hst⟩

omit [NdjsonLine Line] in
theorem sends_throttled {fp : FilterPath} {st st' : Store Id Src}
    (hsend : Sends (throttling act status before line after) ⟨before ++ line :: after, fp⟩ st
      result st') :
    result = (fullAnswer (before.map (acceptedItem act) ++
      rejectedItem act status line :: after.map (acceptedItem act))).result := by
  obtain ⟨items, he, ha⟩ := sends_throttling hsend
  rw [he, (ha.1 rfl).1]

theorem wp_fullRound_accepted (hs : ∀ l ∈ lines, (act l).Sets)
    (hne : lines ≠ before ++ line :: after) (t : Tally) :
    wp (throttling act status before line after) (fullRound cfg m lines t)
      (fun r st' => QuietRound t [] r ∧ st' = lines.foldl (putLine act) st) st := by
  apply wp_fullRound fun _ _ _ => hs
  · intro fp e s' hfp hsend
    exact absurd hsend throttling_not_raised
  · intro fp resp s' hfp hsend stats
    obtain ⟨hresult, rfl⟩ := sends_accepted hsend hne
    cases hresult
    refine ⟨quietRound_of_items (List.length_map ..).le ?_ (retriedLines_accepted lines) rfl _, rfl⟩
    intro o ho
    obtain ⟨item, hitem, rfl⟩ := List.mem_map.mp (List.mem_filter.mp ho).1
    obtain ⟨l, -, rfl⟩ := List.mem_map.mp hitem
    exact (itemOutcome_accepted act l).2

theorem wp_fullRound_throttled (hs : ∀ l ∈ before ++ line :: after, (act l).Sets)
    (h : ResendStatus cfg (act line).opType status) (t : Tally) :
    wp (throttling act status before line after) (fullRound cfg true (before ++ line :: after) t)
      (fun r _ => QuietRound t [line] r) st := by
  have hr := (itemOutcome_rejected (hs line (by simp)) h).2.2
  apply wp_fullRound fun _ _ _ => hs
  · intro fp e s' hfp hsend
    exact absurd hsend throttling_not_raised
  · intro fp resp s' hfp hsend stats
    cases sends_throttled hsend
    refine quietRound_of_items (by simp) ?_ ?_ rfl _
    · intro o ho
      obtain ⟨hmem, hkept⟩ := List.mem_filter.mp ho
      obtain ⟨item, hitem, rfl⟩ := List.mem_map.mp hmem
      rcases List.mem_append.mp hitem with hi | hi
      · obtain ⟨l, -, rfl⟩ := List.mem_map.mp hi
        exact (itemOutcome_accepted act l).2
      · rcases List.mem_cons.mp hi with rfl | hi
        · simp [hr] at hkept
        · obtain ⟨l, -, rfl⟩ := List.mem_map.mp hi
          exact (itemOutcome_accepted act l).2
    · rw [iterBulkResponseOutcomes, List.map_append,
        retriedLines_append (by simp), List.map_cons, retriedLines_cons, hr]
      have hquiet (lines : List Line) :
          retriedLines cfg true lines ((lines.map (acceptedItem act)).map itemOutcome) = [] :=
        retriedLines_accepted lines
      rw [hquiet before, hquiet after]
      rfl

theorem wp_fullPath_accepted (hs : ∀ l ∈ lines, (act l).Sets)
    (hne : lines ≠ before ++ line :: after) (left : Nat) (t : Tally) :
    wp (throttling act status before line after) (fullPath cfg left lines t)
      (fun r st' => (∃ t', r = .ok t' ∧ t'.counts.errors = t.counts.errors) ∧
        st' = lines.foldl (putLine act) st) st := by
  cases left with
  | zero =>
    rw [fullPath]
    split
    · next hnil =>
      rw [hnil]
      exact ⟨⟨t, rfl, rfl⟩, rfl⟩
    · rw [wp_bind]
      apply wp_mono (wp_fullRound_accepted hs hne t)
      rintro _ st' ⟨⟨r, rfl, herr, -⟩, hst⟩
      exact ⟨⟨r.tally, rfl, herr⟩, hst⟩
  | succ left =>
    rw [fullPath]
    split
    · next hnil =>
      rw [hnil]
      exact ⟨⟨t, rfl, rfl⟩, rfl⟩
    · rw [wp_bind]
      apply wp_mono (wp_fullRound_accepted hs hne t)
      rintro _ st' ⟨⟨r, rfl, herr, hnil⟩, hst⟩
      simp only [hnil, if_true]
      exact ⟨⟨r.tally, rfl, herr⟩, hst⟩

omit [NdjsonLine Line] in
theorem foldl_putLine_frame (hun : Unnamed act i lines) (st : Store Id Src) :
    lines.foldl (putLine act) st i = st i := by
  induction lines generalizing st with
  | nil => rfl
  | cons line lines ih =>
    obtain ⟨hne, hun⟩ := List.forall_mem_cons.mp hun
    rw [List.foldl_cons, ih hun]
    cases hj : (act line).id with
    | none => simp only [putLine, hj]
    | some j =>
      simp only [putLine, hj]
      exact Function.update_of_ne (fun he : i = j => hne (he ▸ hj)) ..

theorem wp_shipNdjsonChunk_accepted (hs : ∀ l ∈ lines, (act l).Sets)
    (hne : lines ≠ before ++ line :: after) (t : Tally) :
    wp (throttling act status before line after) (shipNdjsonChunk cfg lines t)
      (fun r st' => (∃ t', r = .ok t' ∧ t'.counts.errors = t.counts.errors) ∧
        ∀ i, Unnamed act i lines → st' i = st i) st := by
  apply wp_shipNdjsonChunk fun _ _ _ _ => hs
  · intro fp e s' hfp hsend
    exact absurd hsend throttling_not_raised
  · intro fp resp s' hfp hsend _ stats
    refine ⟨⟨_, rfl, by simp⟩, ?_⟩
    intro i hun
    rw [(sends_accepted hsend hne).2, foldl_putLine_frame hun]
  · intro fp resp s' hfp hsend _ stats
    apply wp_mono (wp_fullPath_accepted hs hne _ _)
    rintro r st' ⟨hr, rfl⟩
    refine ⟨hr, ?_⟩
    intro i hun
    rw [foldl_putLine_frame hun, (sends_accepted hsend hne).2, foldl_putLine_frame hun]
  · intro _
    apply wp_mono (wp_fullPath_accepted hs hne _ _)
    rintro r st' ⟨hr, rfl⟩
    refine ⟨hr, ?_⟩
    intro i hun
    rw [foldl_putLine_frame hun]

theorem wp_fullPath_throttled (hs : ∀ l ∈ before ++ line :: after, (act l).Sets)
    (h : ResendStatus cfg (act line).opType status) (hne : [line] ≠ before ++ line :: after)
    (hi : (act line).id = some i) (hleft : 0 < left) (t : Tally) :
    wp (throttling act status before line after) (fullPath cfg left (before ++ line :: after) t)
      (fun r st' => (∃ t', r = .ok t' ∧ t'.counts.errors = t.counts.errors) ∧
        st' i = (act line).value) st := by
  obtain ⟨left, rfl⟩ : ∃ n, left = n + 1 := ⟨left - 1, by omega⟩
  rw [fullPath, if_neg (by simp), wp_bind]
  apply wp_mono (wp_fullRound_throttled hs h t)
  rintro _ st₁ ⟨r, rfl, herr, hretry⟩
  simp only [hretry, reduceCtorEq, if_false]
  have hline : ∀ l ∈ [line], (act l).Sets :=
    fun l hl => hs l (List.mem_singleton.mp hl ▸ by simp)
  apply wp_mono (wp_fullPath_accepted hline hne left r.tally)
  rintro _ st₂ ⟨⟨t', rfl, herr'⟩, rfl⟩
  refine ⟨⟨t', rfl, herr'.trans herr⟩, ?_⟩
  simp only [List.foldl_cons, List.foldl_nil, putLine, hi, Function.update_self]

theorem wp_shipNdjsonChunk_throttled (hs : ∀ l ∈ before ++ line :: after, (act l).Sets)
    (h : ResendStatus cfg (act line).opType status) (hne : [line] ≠ before ++ line :: after)
    (hi : (act line).id = some i) (hretries : 0 < cfg.maxRetriesPerDoc) (t : Tally) :
    wp (throttling act status before line after)
      (shipNdjsonChunk cfg (before ++ line :: after) t)
      (fun r st' => (∃ t', r = .ok t' ∧ t'.counts.errors = t.counts.errors) ∧
        st' i = (act line).value) st := by
  have hleft : 0 < cfg.maxRetriesPerDoc.toNat := by omega
  apply wp_shipNdjsonChunk fun _ _ _ _ => hs
  · intro fp e s' hfp hsend
    exact absurd hsend throttling_not_raised
  · intro fp resp s' hfp hsend hclean stats
    cases sends_throttled hsend
    have hok := (itemOutcome_rejected (hs line (by simp)) h).2.1
    have hall := List.any_eq_false.mp (Option.some_inj.mp hclean) (rejectedItem act status line)
      (by simp)
    rw [hok] at hall
    exact absurd rfl hall
  · intro fp resp s' hfp hsend _ stats
    exact wp_fullPath_throttled hs h hne hi hleft { t with stats }
  · intro _
    exact wp_fullPath_throttled hs h hne hi hleft t

omit [DecidableEq Id] [NdjsonLine Line] in
theorem unnamed_behind {plan done done' rest : List (List Line)} {chunk throttled : List Line}
    (hplan : plan = done ++ throttled :: rest) (hrest : Unnamed act i rest.flatten)
    (hp : done' ++ [chunk] <+: plan) (hne : chunk ≠ throttled)
    (hlt : done.length < (done' ++ [chunk]).length) :
    done.length < done'.length ∧ Unnamed act i chunk := by
  obtain ⟨tail, htail⟩ := hp
  rw [hplan, List.append_assoc] at htail
  rcases List.append_eq_append_iff.mp htail with ⟨mid, rfl, hmid⟩ | ⟨mid, rfl, hmid⟩
  · cases mid with
    | nil => exact absurd (List.cons.inj hmid).1 hne
    | cons m mid =>
      rw [List.length_append, List.length_append, List.length_cons, List.length_singleton] at hlt
      omega
  · cases mid with
    | nil => exact absurd (List.cons.inj hmid).1.symm hne
    | cons m mid =>
      obtain ⟨-, rfl⟩ := List.cons.inj hmid
      refine ⟨?_, fun l hl => hrest l (List.mem_flatten.mpr ⟨chunk, by simp, hl⟩)⟩
      rw [List.length_append, List.length_cons]
      omega

/-- What a writer that is never refused has made of document `i` with `n` chunks: from the throttled
chunk on, which is number `k`, the line that was sent again is what is stored. -/
def ResentSoFar (act : Line → Action Id Src) (i : Id) (line : Line) (k n : Nat) (t : Tally)
    (st : Store Id Src) : Prop :=
  t.counts.errors = 0 ∧ (k < n → st i = (act line).value)

theorem wp_shipNdjsonChunk_resent (hsets : ∀ chunk ∈ serialPlan cfg batches, ∀ l ∈ chunk, (act l).Sets)
    (hretries : 0 < cfg.maxRetriesPerDoc)
    (hplan : serialPlan cfg batches = done ++ (before ++ line :: after) :: rest)
    (hrest : Unnamed act i rest.flatten) (hi : (act line).id = some i)
    (hstatus : ResendStatus cfg (act line).opType status) (hne : [line] ≠ before ++ line :: after)
    (h : ResentSoFar act i line done.length done'.length t st)
    (hp : done' ++ [chunk] <+: serialPlan cfg batches) :
    wp (throttling act status before line after) (shipNdjsonChunk cfg chunk t)
      (fun r st' => ∃ t', r = .ok t' ∧
        ResentSoFar act i line done.length (done' ++ [chunk]).length t' st') st := by
  have hchunk := hsets chunk (hp.subset (by simp))
  by_cases hc : chunk = before ++ line :: after
  · subst hc
    apply wp_mono (wp_shipNdjsonChunk_throttled hchunk hstatus hne hi hretries t)
    rintro r st' ⟨⟨t', hr, herr⟩, hst'⟩
    exact ⟨t', hr, herr.trans h.1, fun _ => hst'⟩
  · apply wp_mono (wp_shipNdjsonChunk_accepted hchunk hc t)
    rintro r st' ⟨⟨t', hr, herr⟩, hframe⟩
    refine ⟨t', hr, herr.trans h.1, fun hlt => ?_⟩
    obtain ⟨hbehind, hun⟩ := unnamed_behind hplan hrest hp hc hlt
    exact (hframe i hun).trans (h.2 hbehind)

theorem wp_write_resent (hsets : ∀ chunk ∈ serialPlan cfg batches, ∀ l ∈ chunk, (act l).Sets)
    (hchunk : 0 < cfg.chunkSize) (hserial : cfg.writeConcurrency = 1)
    (hretries : 0 < cfg.maxRetriesPerDoc)
    (hplan : serialPlan cfg batches = done ++ (before ++ line :: after) :: rest)
    (hrest : Unnamed act i rest.flatten) (hi : (act line).id = some i)
    (hstatus : ResendStatus cfg (act line).opType status) (hne : [line] ≠ before ++ line :: after) :
    wp (throttling act status before line after).callsOnly
      (write cfg (shipInto cfg) {} (batches.map (·.map some)))
      (fun r st => ∃ row t, r = .ok row ∧
        row = summaryRow ((batches.map (·.map some)).map List.length).sum t {} ∧
        t.counts.errors = 0 ∧ st i = (act line).value) fun _ => none := by
  have hwp := wp_write_serial
    (E := (throttling act status before line after).callsOnly) (g := fun _ => none)
    (fun done' t st => ResentSoFar act i line done.length done'.length t st) (fun _ => False)
    (not_pooled hserial) (shipInto cfg) {} (batches.map (·.map some)) ?_
    (fun _ _ _ _ hf => not_batchFault hchunk hf) ⟨rfl, fun hlt => absurd hlt (Nat.not_lt_zero _)⟩
  · apply wp_mono hwp
    intro r st hpost
    cases r with
    | error e => exact hpost.elim
    | ok row =>
      obtain ⟨t, ⟨ht, hst⟩, hrow, -⟩ := hpost
      refine ⟨row, t, rfl, hrow, ht, hst ?_⟩
      change done.length < (serialPlan cfg batches).length
      rw [hplan]
      simp
  · intro done' chunk t st h hp
    apply wp_embed (serves_callsOnly _) (s := st)
    apply wp_mono (wp_shipNdjsonChunk_resent hsets hretries hplan hrest hi hstatus hne h hp)
    rintro _ st' ⟨t', rfl, h'⟩
    exact h'

/-- A line that is throttled once and sent again overrides the last line of its id, and no error
is counted. -/
theorem not_laterRowWins (hsets : ∀ line ∈ batches.flatten, (act line).Sets)
    (hchunk : 0 < cfg.chunkSize) (hserial : cfg.writeConcurrency = 1)
    (hretries : 0 < cfg.maxRetriesPerDoc)
    (hplan : serialPlan cfg batches = done ++ (before ++ line :: after) :: rest)
    (hrest : Unnamed act i rest.flatten) (hi : (act line).id = some i)
    (hresends : cfg.resends (act line).opType = true)
    (hlast : LastNamed act i (before ++ line :: after) last)
    (hvalue : (act line).value ≠ (act last).value) : ¬LaterRowWins act cfg batches := by
  intro hwins
  obtain ⟨status, hstatus⟩ := exists_resendStatus hresends
  have hmem : ∀ chunk ∈ serialPlan cfg batches, ∀ l ∈ chunk, (act l).Sets := by
    intro chunk hc l hl
    apply hsets l
    rw [← serialPlan_flatten hchunk]
    exact List.mem_flatten.mpr ⟨chunk, hc, hl⟩
  have hne : [line] ≠ before ++ line :: after := by
    intro he
    have hl := hlast.mem
    rw [← he] at hl
    exact hvalue (by rw [List.mem_singleton.mp hl])
  obtain ⟨_, st, hrun, row, t, rfl, rfl, ht, hst⟩ := exists_run
    (E := (orderedElasticsearch act).env.callsOnly) (fun st q hasks => by
      cases q with
      | call q => exact throttling_answers hstatus hasks st
      | _ => exact hasks.elim)
    (wp_write_resent hmem hchunk hserial hretries hplan hrest hi hstatus hne)
  obtain ⟨x, hx, hret, -⟩ := Env.Reach.beside hrun
    ⟨_, Server.Run.start _ (shipOne cfg) _ _, rfl, rfl⟩
  have hwhole : LastNamed act i batches.flatten last := by
    rw [← serialPlan_flatten hchunk, hplan, List.flatten_append, List.flatten_cons]
    exact (hlast.extend hrest).prepend _
  have heff := hwins {} _ _ x _ hx hret (congrArg some ht) i last hwhole
  rw [inEffect_iff (hsets last hwhole.mem) hlast.named] at heff
  exact hvalue (hst.symm.trans heff)

end Throttling

/-- The later row wins exactly if no line is ever sent again, or the lines of an id that may be
sent again after its last line want what that line wants. -/
theorem later_row_wins_iff (act : Line → Action Id Src) (cfg : EsWriteConfig)
    (batches : List (List Line)) (hsets : ∀ line ∈ batches.flatten, (act line).Sets)
    (hchunk : 0 < cfg.chunkSize) (hserial : cfg.writeConcurrency = 1) :
    LaterRowWins act cfg batches ↔
      cfg.maxRetriesPerDoc ≤ 0 ∨ ResendsAgree act cfg (serialPlan cfg batches) := by
  refine ⟨fun hwins => ?_, laterRowWins_of_agree hsets hchunk hserial⟩
  by_contra hbad
  obtain ⟨hretries, hagree⟩ := not_or.mp hbad
  apply hagree
  intro done chunk rest hplan i last hrest hlast line hline hi hresends
  by_contra hvalue
  obtain ⟨before, after, rfl⟩ := List.mem_iff_append.mp hline
  exact not_laterRowWins hsets hchunk hserial (by omega) hplan hrest hi hresends hlast hvalue hwins

omit [DecidableEq Id] [NdjsonLine Line] in
theorem resendsAgree_of_singletons {plan : List (List Line)}
    (h : ∀ chunk ∈ plan, chunk.length ≤ 1) : ResendsAgree act cfg plan := by
  rintro before chunk after rfl i last - hlast line hline - -
  have hlen := h chunk (by simp)
  have hlastmem := hlast.mem
  match chunk, hlen with
  | [only], _ => rw [List.mem_singleton.mp hline, List.mem_singleton.mp hlastmem]

/-- Two rows with one `_id` in chunks of their own. -/
theorem later_row_wins_chunks_of_one :
    LaterRowWins (fun line : String => (.index (some 0) line : Action Nat String))
      { hosts := "h", chunkSize := 1 } [["a", "b"]] := by
  refine (later_row_wins_iff _ _ _ (fun line _ => .inl ⟨0, line, rfl⟩) (by decide) rfl).mpr
    (.inr (resendsAgree_of_singletons ?_))
  have hplan : serialPlan { hosts := "h", chunkSize := 1 } [["a", "b"]] = [["a"], ["b"]] := rfl
  rw [hplan]
  decide

/-- Two rows with one `_id` in one chunk: the first is throttled and sent again after the second. -/
theorem throttled_row_wins :
    ¬LaterRowWins (fun line : String => (.index (some 0) line : Action Nat String))
      { hosts := "h" } [["a", "b"]] := by
  have hplan : serialPlan { hosts := "h" } [["a", "b"]] = [] ++ ([] ++ "a" :: ["b"]) :: [] := rfl
  have hlast : LastNamed (fun line : String => (.index (some 0) line : Action Nat String)) 0
      ([] ++ "a" :: ["b"]) "b" :=
    ⟨["a"], [], rfl, rfl, fun line hl => absurd hl List.not_mem_nil⟩
  exact not_laterRowWins (fun line _ => .inl ⟨0, line, rfl⟩) (by decide) rfl (by decide) hplan
    (fun line hl => absurd hl List.not_mem_nil) rfl (by decide) hlast (by decide)

end EsConnector
