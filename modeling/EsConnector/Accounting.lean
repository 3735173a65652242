import EsConnector.PoolRules
import EsConnector.ShipRules
import EsConnector.Driver

namespace EsConnector
set_option autoImplicit true

open Interaction

variable {Line : Type}

abbrev BulkCall (Line : Type) : Type := Call (BulkRequest Line) (fun _ => BulkReply)

/-- A call raises or answers: the probe with any flag, the full path with at most one item for
each line. -/
def FewItems (q : BulkRequest Line) (reply : BulkReply) : Prop :=
  ∀ resp, reply.result = .ok resp → q.filterPath.isProbe = false →
    ∃ items, resp.items = some items ∧ items.length ≤ q.operations.length

/-- The number of items missing from a response. -/
def missingItems (c : BulkCall Line) : Nat :=
  match c.2.result with
  | .error _ => 0
  | .ok resp =>
    if c.1.filterPath.isProbe then 0
    else c.1.operations.length - (resp.items.getD []).length

def missing (calls : List (BulkCall Line)) : Nat := (calls.map missingItems).sum

/-- A response vouches for a line: a clean probe carried it, or its own item is no error. -/
def Vouches (c : BulkCall Line) (line : Line) : Prop :=
  ∃ resp, c.2.result = .ok resp ∧
    (c.1.filterPath.isProbe = true ∧ resp.errors = some false ∧ line ∈ c.1.operations ∨
      c.1.filterPath.isProbe = false ∧ ∃ items, resp.items = some items ∧
        ∃ item, (line, item) ∈ c.1.operations.zip items ∧ (itemOutcome item).outcome ≠ .error)

theorem Vouches.mem {c : BulkCall Line} (h : Vouches c line) : line ∈ c.1.operations := by
  obtain ⟨resp, -, ⟨-, -, hline⟩ | ⟨-, items, -, item, hm, -⟩⟩ := h
  · exact hline
  · exact (List.of_mem_zip hm).1

/-- The lines that a response acknowledges as applied. -/
def ackedLines (c : BulkCall Line) : List Line :=
  match c.2.result with
  | .error _ => []
  | .ok resp =>
    if c.1.filterPath.isProbe then if resp.errors = some false then c.1.operations else []
    else ((c.1.operations.zip (iterBulkResponseOutcomes (resp.items.getD []))).filter (·.2.ok)).map
      Prod.fst

/-- No item of a full-path response is a successful delete. -/
def NoDeletes (c : BulkCall Line) : Prop :=
  ∀ resp, c.2.result = .ok resp → c.1.filterPath.isProbe = false →
    ∀ o ∈ iterBulkResponseOutcomes (resp.items.getD []), o.outcome ≠ .deleted

/-- The state of a chunk of which `pending` is still to be sent: every line is counted, pending or
missing, and with no error and nothing missing it is pending or vouched for. -/
structure Accounted (lines pending : List Line) (c : Counts) (calls : List (BulkCall Line)) :
    Prop where
  total : c.total + pending.length + missing calls = lines.length
  vouched : c.errors = 0 → missing calls = 0 →
    ∀ line ∈ lines, line ∈ pending ∨ ∃ call ∈ calls, Vouches call line
  acked : c.written + c.deleted = (calls.flatMap ackedLines).length
  noDeletes : (∀ call ∈ calls, NoDeletes call) → c.deleted = 0

@[simp] theorem missing_nil : missing ([] : List (BulkCall Line)) = 0 := rfl

@[simp] theorem missing_append (l l' : List (BulkCall Line)) :
    missing (l ++ l') = missing l + missing l' := by
  simp [missing]

theorem missing_singleton (c : BulkCall Line) : missing [c] = missingItems c := by
  simp [missing]

theorem missing_raised (h : ∀ c ∈ l, ∃ e, (c : BulkCall Line).2.result = .error e) :
    missing l = 0 := by
  rw [missing, List.sum_eq_zero]
  intro n hn
  obtain ⟨c, hc, rfl⟩ := List.mem_map.mp hn
  obtain ⟨e, he⟩ := h c hc
  simp only [missingItems, he]

theorem acked_raised {l : List (BulkCall Line)} (h : ∀ c ∈ l, ∃ e, c.2.result = .error e) :
    l.flatMap ackedLines = [] := by
  rw [List.flatMap_eq_nil_iff]
  intro c hc
  obtain ⟨e, he⟩ := h c hc
  simp only [ackedLines, he]

theorem all_raised (h : ∀ c ∈ raised, c.1 = q ∧ ∃ e, (c : BulkCall Line).2.result = .error e)
    (he : reply.result = .error e) :
    ∀ c ∈ raised ++ [⟨q, reply⟩], ∃ e, c.2.result = .error e := by
  intro c hc
  rcases List.mem_append.mp hc with hc | hc
  · exact (h c hc).2
  · exact ⟨e, List.mem_singleton.mp hc ▸ he⟩

theorem settled_add_retried (cfg : EsWriteConfig) (m : Bool) (lines : List Line)
    (os : List ItemOutcome) (h : os.length ≤ lines.length) :
    (settled cfg m os).length + (retriedLines cfg m lines os).length =
      os.length := by
  induction os generalizing lines with
  | nil => simp [settled, retriedLines]
  | cons o os ih =>
    cases lines with
    | nil => simp at h
    | cons line lines =>
      have hih := ih lines (Nat.le_of_succ_le_succ h)
      rw [settled_cons, retriedLines_cons]
      cases retryable cfg o && m
      · simp only [Bool.false_eq_true, if_false, List.length_append, List.length_cons,
          List.length_nil]
        omega
      · simp only [if_true, List.length_append, List.length_cons, List.length_nil]
        omega

theorem total_sum_one (os : List ItemOutcome) :
    ((os.map fun o => Counts.one o.outcome).sum).total = os.length := by
  induction os with
  | nil => rfl
  | cons o os ih =>
    rw [List.map_cons, List.sum_cons, Counts.total_add, Counts.total_one, ih, List.length_cons,
      Nat.add_comm]

theorem errors_sum_one {os : List ItemOutcome} (h : ((os.map fun o => Counts.one o.outcome).sum).errors = 0) :
    ∀ o ∈ os, o.outcome ≠ .error := by
  induction os with
  | nil => exact fun o ho => absurd ho List.not_mem_nil
  | cons o os ih =>
    rw [List.map_cons, List.sum_cons, Counts.errors_add, Nat.add_eq_zero_iff] at h
    intro o' ho'
    rcases List.mem_cons.mp ho' with rfl | ho'
    · intro he
      rw [he] at h
      exact absurd h.1 Nat.one_ne_zero
    · exact ih h.2 o' ho'

theorem itemOutcome_applied (item : Item) :
    (Counts.one (itemOutcome item).outcome).written +
      (Counts.one (itemOutcome item).outcome).deleted = if (itemOutcome item).ok then 1 else 0 := by
  cases item with
  | none => rfl
  | some p =>
    obtain ⟨op, body⟩ := p
    rw [show (itemOutcome (some (op, body))).ok = isOk body.statusCode from rfl]
    simp only [itemOutcome, classifyBulkResult]
    cases hok : isOk body.statusCode with
    | true =>
      simp only [if_true]
      split <;> rfl
    | false =>
      simp only [Bool.false_eq_true, if_false]
      split
      · rfl
      · split <;> rfl

theorem settled_applied (cfg : EsWriteConfig) (m : Bool) (items : List Item) :
    let c := ((settled cfg m (iterBulkResponseOutcomes items)).map fun o => Counts.one o.outcome).sum
    c.written + c.deleted = ((iterBulkResponseOutcomes items).filter (·.ok)).length := by
  induction items with
  | nil => rfl
  | cons item items ih =>
    have hitem := itemOutcome_applied item
    simp only [iterBulkResponseOutcomes, List.map_cons] at ih ⊢
    rw [settled_cons]
    cases hok : (itemOutcome item).ok with
    | true =>
      have hr : retryable cfg (itemOutcome item) = false := by simp [retryable, hok]
      simp only [hr, Bool.false_and, Bool.false_eq_true, if_false, List.singleton_append,
        List.map_cons, List.sum_cons, Counts.written_add, Counts.deleted_add, List.filter_cons, hok,
        if_true, List.length_cons, ← ih]
      simp only [hok, if_true] at hitem
      omega
    | false =>
      simp only [hok, Bool.false_eq_true, if_false] at hitem
      rw [List.filter_cons, hok, if_neg Bool.false_ne_true, ← ih]
      cases retryable cfg (itemOutcome item) && m
      · simp only [Bool.false_eq_true, if_false, List.singleton_append, List.map_cons,
          List.sum_cons, Counts.written_add, Counts.deleted_add]
        omega
      · rfl

theorem deleted_sum_one {os : List ItemOutcome} (h : ∀ o ∈ os, o.outcome ≠ .deleted) :
    ((os.map fun o => Counts.one o.outcome).sum).deleted = 0 := by
  induction os with
  | nil => rfl
  | cons o os ih =>
    rw [List.map_cons, List.sum_cons, Counts.deleted_add,
      ih fun o' ho' => h o' (List.mem_cons_of_mem _ ho')]
    have ho := h o List.mem_cons_self
    cases hout : o.outcome <;> first | rfl | exact absurd hout ho

theorem length_filter_zip (lines : List Line) (os : List ItemOutcome)
    (h : os.length ≤ lines.length) :
    ((lines.zip os).filter (·.2.ok)).length = (os.filter (·.ok)).length := by
  induction os generalizing lines with
  | nil => simp
  | cons o os ih =>
    cases lines with
    | nil => simp at h
    | cons line lines =>
      have hih := ih lines (Nat.le_of_succ_le_succ h)
      rw [List.zip_cons_cons, List.filter_cons, List.filter_cons]
      cases o.ok <;> simp [hih]

/-- A request that failed as a whole. -/
theorem Accounted.failed (h : Accounted lines pending c calls)
    (hl : ∀ call ∈ l, ∃ e, (call : BulkCall Line).2.result = .error e) :
    Accounted lines [] (c + { errors := pending.length }) (calls ++ l) where
  total := by
    have ht := h.total
    rw [Counts.total_add, Counts.total_errors, missing_append, missing_raised hl, List.length_nil]
    omega
  vouched he hm line hline := by
    rw [Counts.errors_add, Nat.add_eq_zero_iff] at he
    rw [missing_append, missing_raised hl, Nat.add_zero] at hm
    rcases h.vouched he.1 hm line hline with hp | ⟨call, hcall, hv⟩
    · rw [List.length_eq_zero_iff.mp he.2] at hp
      exact .inl hp
    · exact .inr ⟨call, List.mem_append_left _ hcall, hv⟩
  acked := by
    rw [List.flatMap_append, acked_raised hl, List.append_nil]
    exact h.acked
  noDeletes hn := h.noDeletes fun call hc => hn call (List.mem_append_left _ hc)

/-- A probe that came back clean. -/
theorem Accounted.clean (hfp : fp.isProbe = true) (hres : reply.result = .ok resp)
    (he : resp.errors = some false)
    (hl : ∀ call ∈ l, ∃ e, (call : BulkCall Line).2.result = .error e) :
    Accounted lines [] { written := lines.length } (l ++ [⟨⟨lines, fp⟩, reply⟩]) where
  total := by
    simp [missing_singleton, missingItems, hres, hfp, missing_raised hl]
  vouched _ _ line hline := .inr ⟨_, List.mem_append_right _ (List.mem_singleton_self _),
    resp, hres, .inl ⟨hfp, he, hline⟩⟩
  acked := by
    rw [List.flatMap_append, acked_raised hl]
    simp [ackedLines, hres, hfp, he]
  noDeletes _ := rfl

theorem Accounted.probed (hm : missing calls = 0)
    (ha : calls.flatMap ackedLines = []) : Accounted (lines : List Line) lines 0 calls where
  total := by simp [hm]
  vouched _ _ line hline := .inl hline
  acked := by rw [ha]; rfl
  noDeletes _ := rfl

/-- One round of the full path. -/
theorem Accounted.round (cfg : EsWriteConfig) (m : Bool)
    (h : Accounted lines pending c calls) (hfp : fp.isProbe = false)
    (hres : reply.result = .ok resp) (hi : resp.items = some items)
    (hlen : items.length ≤ pending.length)
    (hl : ∀ call ∈ l, ∃ e, (call : BulkCall Line).2.result = .error e) :
    Accounted lines
      (retriedLines cfg m pending (iterBulkResponseOutcomes items))
      (c + ((settled cfg m (iterBulkResponseOutcomes items)).map
        fun o => Counts.one o.outcome).sum)
      (calls ++ (l ++ [⟨⟨pending, fp⟩, reply⟩])) where
  total := by
    have ht := h.total
    have hsplit := settled_add_retried cfg m pending (iterBulkResponseOutcomes items)
      (by simpa using hlen)
    rw [iterBulkResponseOutcomes_length] at hsplit
    simp only [Counts.total_add, total_sum_one, missing_append, missing_raised hl,
      missing_singleton, missingItems, hres, hfp, hi, Bool.false_eq_true, if_false,
      Option.getD_some]
    omega
  vouched he hm line hline := by
    rw [Counts.errors_add, Nat.add_eq_zero_iff] at he
    simp only [missing_append, missing_singleton, missingItems, hres, hfp, hi, Bool.false_eq_true,
      if_false, Option.getD_some, Nat.add_eq_zero_iff] at hm
    rcases h.vouched he.1 hm.1 line hline with hp | ⟨call, hcall, hv⟩
    · -- the line was sent in this round, and the response has an item for it
      have hsame : items.length = pending.length := by omega
      obtain ⟨i, hi', rfl⟩ := List.getElem_of_mem hp
      have hitem : i < items.length := hsame ▸ hi'
      have hbound : i < (pending.zip items).length := by
        rw [List.length_zip]
        omega
      have hzip : (pending[i], items[i]) ∈ pending.zip items := by
        rw [← List.getElem_zip]
        exact List.getElem_mem hbound
      generalize items[i] = item at hzip
      by_cases hr : (retryable cfg (itemOutcome item) && m) = true
      · refine .inl (List.mem_map.mpr ⟨(pending[i], itemOutcome item), ?_, rfl⟩)
        refine List.mem_filter.mpr ⟨?_, hr⟩
        rw [iterBulkResponseOutcomes, List.zip_map_right]
        exact List.mem_map.mpr ⟨_, hzip, rfl⟩
      · refine .inr ⟨_, List.mem_append_right _ (List.mem_append_right _
          (List.mem_singleton_self _)), resp, hres, .inr ⟨hfp, items, hi, item, hzip, ?_⟩⟩
        refine errors_sum_one he.2 _ (List.mem_filter.mpr
          ⟨?_, by rw [Bool.not_eq_true _ |>.mp hr]; rfl⟩)
        exact List.mem_map.mpr ⟨item, (List.of_mem_zip hzip).2, rfl⟩
    · exact .inr ⟨call, List.mem_append_left _ hcall, hv⟩
  acked := by
    have happ := settled_applied cfg m items
    have hc := h.acked
    have hzip := length_filter_zip pending (iterBulkResponseOutcomes items) (by simpa using hlen)
    simp only [List.flatMap_append, acked_raised hl, List.nil_append, List.flatMap_singleton,
      List.length_append, ackedLines, hres, hfp, hi, Bool.false_eq_true, if_false,
      Option.getD_some, List.length_map, hzip, Counts.written_add, Counts.deleted_add]
    dsimp only at happ
    omega
  noDeletes hn := by
    have hlast := hn _ (List.mem_append_right _ (List.mem_append_right _
      (List.mem_singleton_self _))) resp hres hfp
    rw [hi, Option.getD_some] at hlast
    rw [Counts.deleted_add, h.noDeletes fun call hc => hn call (List.mem_append_left _ hc),
      Nat.zero_add]
    exact deleted_sum_one fun o ho => hlast o (List.mem_of_mem_filter ho)

section Chunk

variable [NdjsonLine Line] {legal : BulkRequest Line → BulkReply → Prop}
  {demands : BulkRequest Line → Prop}

/-- Shipping ends without an exception, and adds to the accumulators and to the log what accounts
for every line of the chunk. -/
def Accounts (lines : List Line) (t : Tally) (log : List (BulkCall Line)) (r : ChunkResult)
    (log' : List (BulkCall Line)) : Prop :=
  ∃ t' c calls, r = .ok t' ∧ t'.counts = t.counts + c ∧ log' = log ++ calls ∧
    Accounted lines [] c calls

theorem wp_fullPath_accounts (cfg : EsWriteConfig) (left : Nat) (t : Tally)
    (stats : Option (List SendRecord)) (log : List (BulkCall Line))
    (hfew : ∀ q r, legal q r → FewItems q r)
    (hd : ∀ q : BulkRequest Line, q.operations ⊆ lines →
      (q.filterPath.isProbe = true → cfg.probes = true) → demands q)
    (hstart : Accounted lines lines 0 calls) :
    wp (callEnv legal demands) (fullPath cfg left lines { t with stats })
      (Accounts lines t log) (log ++ calls) := by
  let I : Nat → List Line → Tally → List (BulkCall Line) → Prop := fun _ pending t' log' =>
    ∃ c calls, t'.counts = t.counts + c ∧ log' = log ++ calls ∧ Accounted lines pending c calls
  refine wp_fullPath (I := I) (fun _ q hq hfp => hd q hq.subset fun h => by simp [hfp] at h)
    ?_ ?_ ?_ ?_ (List.Sublist.refl _) ⟨0, calls, (add_zero _).symm, rfl, hstart⟩
  · rintro left t' log' ⟨c, calls, hc, hl, hacc⟩
    exact ⟨t', c, calls, rfl, hc, hl, hacc⟩
  · rintro left pending t' fp log' e log'' ⟨c, calls, hc, rfl, hacc⟩ hfp hs stats
    obtain ⟨raised, reply, rfl, he, -, hraised⟩ := hs.appends
    refine ⟨_, _, _, rfl, ?_, ?_, hacc.failed (all_raised hraised he)⟩
    · rw [Tally.failRequest_counts, hc, add_assoc]
    · simp only [List.append_assoc]
  · rintro left pending t' fp log' resp log'' - hfp hs stats e he
    obtain ⟨raised, reply, rfl, hr, hl, -⟩ := hs.appends
    obtain ⟨items, hi, hlen⟩ := hfew _ _ hl resp hr hfp
    obtain ⟨r, hr, -⟩ := classifyResponse_eq cfg (decide (0 < left))
      (BulkResponse.itemList_of_items hi) hlen { t' with stats }
    rw [hr] at he
    cases he
  · rintro left pending t' fp log' resp log'' ⟨c, calls, hc, rfl, hacc⟩ hfp hs stats r hr
    obtain ⟨raised, reply, rfl, hres, hl, hraised⟩ := hs.appends
    obtain ⟨items, hi, hlen⟩ := hfew _ _ hl resp hres hfp
    obtain ⟨r', hr', hcounts, hretry⟩ := classifyResponse_eq cfg
      (decide (0 < left)) (BulkResponse.itemList_of_items hi) hlen { t' with stats }
    rw [hr'] at hr
    cases hr
    have hround := hacc.round cfg (decide (0 < left)) hfp hres hi hlen
      fun c hc => (hraised c hc).2
    rw [← hretry] at hround
    have hkeep : I left r.retryLines r.tally
        (log ++ calls ++ raised ++ [⟨⟨pending, fp⟩, reply⟩]) := by
      refine ⟨_, _, ?_, ?_, hround⟩
      · rw [hcounts, ← add_assoc, ← hc]
      · simp only [List.append_assoc]
    refine ⟨fun hn => ?_, fun _ _ _ => hkeep⟩
    obtain ⟨c', calls', hc', hl', hacc'⟩ := hkeep
    exact ⟨_, c', calls', rfl, hc', hl', hn ▸ hacc'⟩

/-- Every line of a chunk is counted once or missing from a response. -/
theorem wp_shipNdjsonChunk_accounts (hfew : ∀ q r, legal q r → FewItems q r)
    (hd : ∀ q : BulkRequest Line, q.operations ⊆ lines →
      (q.filterPath.isProbe = true → cfg.probes = true) → demands q) (t : Tally)
    (log : List (BulkCall Line)) :
    wp (callEnv legal demands) (shipNdjsonChunk cfg lines t) (Accounts lines t log) log := by
  have hempty : Accounted lines lines 0 ([] : List (BulkCall Line)) := .probed rfl rfl
  apply wp_shipNdjsonChunk (fun _ fp _ hp => hd _ (List.Subset.refl _) fun _ => hp)
  · intro fp e log' hfp hs stats
    obtain ⟨raised, reply, rfl, he, -, hraised⟩ := hs.appends
    refine ⟨_, _, _, rfl, Tally.failRequest_counts .., List.append_assoc .., ?_⟩
    have hfail := hempty.failed (all_raised hraised he)
    rwa [zero_add, List.nil_append] at hfail
  · intro fp resp log' hfp hs he stats
    obtain ⟨raised, reply, rfl, hres, -, hraised⟩ := hs.appends
    exact ⟨_, _, _, rfl, rfl, List.append_assoc .., .clean hfp hres he
      fun c hc => (hraised c hc).2⟩
  · intro fp resp log' hfp hs hne stats
    obtain ⟨raised, reply, rfl, hres, -, hraised⟩ := hs.appends
    rw [List.append_assoc]
    refine wp_fullPath_accounts cfg _ t stats log hfew hd (.probed ?_ ?_)
    · rw [missing_append, missing_raised fun c hc => (hraised c hc).2, missing_singleton,
        missingItems, hres]
      simp [hfp]
    · rw [List.flatMap_append, acked_raised fun c hc => (hraised c hc).2]
      simp [ackedLines, hres, hfp, hne]
  · intro _
    have hfull := wp_fullPath_accounts cfg cfg.maxRetriesPerDoc.toNat t t.stats log hfew hd hempty
    rwa [List.append_nil] at hfull

end Chunk

end EsConnector
