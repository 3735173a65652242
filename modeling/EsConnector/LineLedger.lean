import Mathlib.Algebra.Order.Group.Multiset
import EsConnector.BulkLedger
import EsConnector.ExactlyOnce
import EsConnector.PartitionAccounts
import EsConnector.SendBudget

namespace EsConnector
set_option autoImplicit true

open Interaction

variable {Line : Type}

/-- The lines whose own outcome in a round is of a kind. -/
def linesWhere (kind : ItemOutcome → Bool) (lines : List Line) (os : List ItemOutcome) : List Line :=
  ((lines.zip os).filter fun p => kind p.2).map Prod.fst

/-- The lines that a response reports as no-ops. -/
def noopLines (c : BulkCall Line) : List Line :=
  match c.2.result with
  | .error _ => []
  | .ok resp =>
    if c.1.filterPath.isProbe then []
    else linesWhere (·.outcome == .ignored) c.1.operations
      (iterBulkResponseOutcomes (resp.items.getD []))

/-- The lines that some calls report, call by call. -/
def linesOf (f : BulkCall Line → List Line) (calls : List (BulkCall Line)) : Multiset Line :=
  (calls.map fun c => Multiset.ofList (f c)).sum

/-- What has become of some lines after their calls: they are acknowledged, no-ops, failed or gone
without an item, and the counts say how many of each there are. Where nothing is sent again and
nothing failed, each call was answered in full. -/
structure Divided (cfg : EsWriteConfig) (lines : List Line) (calls : List (BulkCall Line))
    (c : Counts) (failed gone : Multiset Line) : Prop where
  places : Multiset.ofList lines =
    linesOf ackedLines calls + linesOf noopLines calls + failed + gone
  card_acked : c.written + c.deleted = (linesOf ackedLines calls).card
  card_noops : c.ignored = (linesOf noopLines calls).card
  card_failed : c.errors = failed.card
  card_gone : missing calls = gone.card
  quiet : cfg.probes = false → cfg.sendsPerRequest = 1 → failed = 0 →
    ∀ call ∈ calls, answered call = true ∧ call.1.filterPath.isProbe = false

theorem linesWhere_cons (kind : ItemOutcome → Bool) (line : Line) (lines : List Line)
    (o : ItemOutcome) (os : List ItemOutcome) : linesWhere kind (line :: lines) (o :: os) =
      (if kind o then [line] else []) ++ linesWhere kind lines os := by
  unfold linesWhere
  rw [List.zip_cons_cons, List.filter_cons]
  cases kind o <;> rfl

@[simp] theorem linesOf_nil (f : BulkCall Line → List Line) : linesOf f [] = 0 := rfl

@[simp] theorem linesOf_append (f : BulkCall Line → List Line) (l l' : List (BulkCall Line)) :
    linesOf f (l ++ l') = linesOf f l + linesOf f l' := by
  simp [linesOf]

theorem linesOf_perm (f : BulkCall Line → List Line) (h : l.Perm l') : linesOf f l = linesOf f l' :=
  (h.map _).sum_eq

/-- An item that a round gives up as an error. -/
def givenUp (cfg : EsWriteConfig) (m : Bool) (o : ItemOutcome) : Bool :=
  o.outcome == .error && !(retryable cfg o && m)

section Rounds

variable {cfg : EsWriteConfig} {m : Bool}

theorem retryable_error {item : Item} (h : retryable cfg (itemOutcome item) = true) :
    (itemOutcome item).ok = false ∧ (itemOutcome item).outcome = .error := by
  have happlies := itemOutcome_applies item
  simp only [retryable, Bool.and_eq_true, Bool.not_eq_true', bne_iff_ne] at h
  obtain ⟨⟨hok, hne⟩, -⟩ := h
  rw [hok] at happlies
  refine ⟨hok, ?_⟩
  cases hout : (itemOutcome item).outcome with
  | written => rw [hout] at happlies; cases happlies
  | deleted => rw [hout] at happlies; cases happlies
  | ignored => exact absurd hout hne
  | error => rfl

theorem item_places (cfg : EsWriteConfig) (m : Bool) (line : Line) (item : Item) :
    Multiset.ofList [line] =
      Multiset.ofList (if (itemOutcome item).ok then [line] else []) +
      Multiset.ofList (if (itemOutcome item).outcome == .ignored then [line] else []) +
      Multiset.ofList (if givenUp cfg m (itemOutcome item) then [line] else []) +
      Multiset.ofList (if retryable cfg (itemOutcome item) && m then [line] else []) := by
  have happlies := itemOutcome_applies item
  have hretry : retryable cfg (itemOutcome item) = true → _ := retryable_error
  cases hout : (itemOutcome item).outcome
  all_goals
    rw [hout] at happlies hretry
    simp only [Outcome.applies] at happlies
    simp only [givenUp, hout, ← happlies]
    cases hr : retryable cfg (itemOutcome item)
  all_goals simp_all
  all_goals cases m <;> rfl

theorem round_places (cfg : EsWriteConfig) (m : Bool) (items : List Item) (pending : List Line)
    (hlen : items.length ≤ pending.length) :
    Multiset.ofList pending =
      Multiset.ofList (linesWhere (·.ok) pending (iterBulkResponseOutcomes items)) +
      Multiset.ofList
        (linesWhere (·.outcome == .ignored) pending (iterBulkResponseOutcomes items)) +
      Multiset.ofList (linesWhere (givenUp cfg m) pending (iterBulkResponseOutcomes items)) +
      Multiset.ofList (retriedLines cfg m pending (iterBulkResponseOutcomes items)) +
      Multiset.ofList (pending.drop items.length) := by
  induction items generalizing pending with
  | nil => simp [linesWhere, retriedLines, iterBulkResponseOutcomes]
  | cons item items ih =>
    cases pending with
    | nil => simp at hlen
    | cons line pending =>
      have hrest := ih pending (Nat.le_of_succ_le_succ hlen)
      have hline := item_places cfg m line item
      simp only [iterBulkResponseOutcomes, List.map_cons, List.length_cons, List.drop_succ_cons]
        at hrest ⊢
      rw [linesWhere_cons, linesWhere_cons, linesWhere_cons, retriedLines_cons]
      simp only [← Multiset.coe_add]
      rw [← List.singleton_append, ← Multiset.coe_add, hline, hrest]
      abel

theorem count_settled (π : Counts → Nat) (hzero : π 0 = 0) (hadd : ∀ c c', π (c + c') = π c + π c')
    (kind : ItemOutcome → Bool)
    (hkind : ∀ item, (if retryable cfg (itemOutcome item) && m then 0
      else π (.one (itemOutcome item).outcome)) = if kind (itemOutcome item) then 1 else 0)
    (items : List Item) (pending : List Line) (hlen : items.length ≤ pending.length) :
    π ((settled cfg m (iterBulkResponseOutcomes items)).map fun o => Counts.one o.outcome).sum =
      (linesWhere kind pending (iterBulkResponseOutcomes items)).length := by
  induction items generalizing pending with
  | nil => simpa [settled, linesWhere, iterBulkResponseOutcomes] using hzero
  | cons item items ih =>
    cases pending with
    | nil => simp at hlen
    | cons line pending =>
      have hrest := ih pending (Nat.le_of_succ_le_succ hlen)
      have hcount : π ((if retryable cfg (itemOutcome item) && m then [] else [itemOutcome item]).map
          fun o => Counts.one o.outcome).sum = if retryable cfg (itemOutcome item) && m then 0
            else π (.one (itemOutcome item).outcome) := by
        split
        · exact hzero
        · rw [List.map_singleton, List.sum_singleton]
      have hplace : (if kind (itemOutcome item) then [line] else []).length =
          if kind (itemOutcome item) then 1 else 0 := by
        split <;> rfl
      simp only [iterBulkResponseOutcomes, List.map_cons] at hrest ⊢
      rw [linesWhere_cons, settled_cons, List.map_append, List.sum_append, hadd, hrest,
        List.length_append, hcount, hplace, hkind item]

theorem settled_acked (cfg : EsWriteConfig) (m : Bool) (items : List Item) (pending : List Line)
    (hlen : items.length ≤ pending.length) :
    let c := ((settled cfg m (iterBulkResponseOutcomes items)).map fun o => Counts.one o.outcome).sum
    c.written + c.deleted =
      (linesWhere (·.ok) pending (iterBulkResponseOutcomes items)).length := by
  apply count_settled (fun c => c.written + c.deleted) rfl _ (·.ok) _ items pending hlen
  · intro c c'
    rw [Counts.written_add, Counts.deleted_add]
    omega
  · intro item
    split
    · next hr =>
      rw [(retryable_error (Bool.and_eq_true _ _ |>.mp hr).1).1]
      rfl
    · exact itemOutcome_applied item

theorem settled_noops (cfg : EsWriteConfig) (m : Bool) (items : List Item) (pending : List Line)
    (hlen : items.length ≤ pending.length) :
    (((settled cfg m (iterBulkResponseOutcomes items)).map
      fun o => Counts.one o.outcome).sum).ignored =
      (linesWhere (·.outcome == .ignored) pending (iterBulkResponseOutcomes items)).length := by
  apply count_settled Counts.ignored rfl Counts.ignored_add (·.outcome == .ignored) _ items pending
    hlen
  intro item
  split
  · next hr =>
    rw [(retryable_error (Bool.and_eq_true _ _ |>.mp hr).1).2]
    rfl
  · cases (itemOutcome item).outcome <;> rfl

theorem settled_givenUp (cfg : EsWriteConfig) (m : Bool) (items : List Item) (pending : List Line)
    (hlen : items.length ≤ pending.length) :
    (((settled cfg m (iterBulkResponseOutcomes items)).map
      fun o => Counts.one o.outcome).sum).errors =
      (linesWhere (givenUp cfg m) pending (iterBulkResponseOutcomes items)).length := by
  apply count_settled Counts.errors rfl Counts.errors_add (givenUp cfg m) _ items pending hlen
  intro item
  rw [givenUp]
  split
  · next hr =>
    rw [hr, Bool.not_true, Bool.and_false]
    rfl
  · next hr =>
    rw [Bool.not_eq_true _ |>.mp hr, Bool.not_false, Bool.and_true]
    cases (itemOutcome item).outcome <;> rfl

end Rounds

theorem Burst.sum_answered [AddCommMonoid M] {f : BulkCall Line → M}
    (hf : ∀ c e, c.2.result = .error e → f c = 0)
    (h : Burst cfg (q : BulkRequest Line) (.ok resp) left calls) :
    ∃ reply : BulkReply, reply.result = .ok resp ∧ ⟨q, reply⟩ ∈ calls ∧
      (calls.map f).sum = f ⟨q, reply⟩ := by
  induction h with
  | last reply h _ =>
    refine ⟨reply, h, List.mem_cons_self, ?_⟩
    rw [List.map_singleton, List.sum_singleton]
  | again reply he _ _ ih =>
    obtain ⟨reply', hreply, hmem, hsum⟩ := ih
    refine ⟨reply', hreply, List.mem_cons_of_mem _ hmem, ?_⟩
    rw [List.map_cons, List.sum_cons, hsum, hf _ _ he, zero_add]

theorem Burst.sum_raised [AddCommMonoid M] {f : BulkCall Line → M}
    (hf : ∀ c e, c.2.result = .error e → f c = 0)
    (h : Burst cfg (q : BulkRequest Line) (.error e) left calls) : (calls.map f).sum = 0 := by
  induction h with
  | last reply h _ =>
    rw [List.map_singleton, List.sum_singleton]
    exact hf _ _ h
  | again reply he _ _ ih => rw [List.map_cons, List.sum_cons, ih, hf _ _ he, zero_add]

/-- What a call reports of its lines, and how many it has no item for. -/
def reported (c : BulkCall Line) : Multiset Line × Multiset Line × Nat :=
  (Multiset.ofList (ackedLines c), Multiset.ofList (noopLines c), missingItems c)

theorem reported_raised (c : BulkCall Line) (e : BulkException) (h : c.2.result = .error e) :
    reported c = 0 := by
  simp only [reported, ackedLines, noopLines, missingItems, h]
  rfl

theorem sum_reported (calls : List (BulkCall Line)) : (calls.map reported).sum =
    (linesOf ackedLines calls, linesOf noopLines calls, missing calls) := by
  induction calls with
  | nil => rfl
  | cons c calls ih =>
    rw [List.map_cons, List.sum_cons, ih]
    simp only [reported, linesOf, missing, List.map_cons, List.sum_cons, Prod.mk_add_mk]

section Division

variable {cfg : EsWriteConfig} {lines pending : List Line}

theorem Burst.answered_once (hsends : cfg.sendsPerRequest = 1)
    (hb : Burst cfg (q : BulkRequest Line) (.ok resp) cfg.transportMaxRetries.toNat calls) :
    ∀ call ∈ calls, answered call = true ∧ call.1 = q := by
  have hlength : calls.length ≤ cfg.sendsPerRequest := hb.length_le
  obtain ⟨reply, hlast, hres⟩ := hb.getLast
  obtain ⟨before, hcalls⟩ := List.getLast?_eq_some_iff.mp hlast
  rw [hsends, hcalls, List.length_append, List.length_singleton] at hlength
  obtain rfl : before = [] := List.eq_nil_of_length_eq_zero (by omega)
  intro call hcall
  rw [hcalls] at hcall
  obtain rfl := List.mem_singleton.mp hcall
  exact ⟨answered_of_ok hres, rfl⟩

theorem Divided.raised (hb : Burst cfg ⟨pending, fp⟩ (.error e) left calls)
    (hp : cfg.probes = false → pending ≠ []) :
    Divided cfg pending calls { errors := pending.length } (Multiset.ofList pending) 0 := by
  have hsum := hb.sum_raised reported_raised
  rw [sum_reported] at hsum
  obtain ⟨hacked, hnoops, hmissing⟩ : linesOf ackedLines calls = 0 ∧ linesOf noopLines calls = 0 ∧
      missing calls = 0 := by simpa using hsum
  constructor
  · simp [hacked, hnoops]
  · simp [hacked]
  · simp [hnoops]
  · rfl
  · simp [hmissing]
  · intro hprobes _ hnone
    exact absurd (by simpa using hnone) (hp hprobes)

/-- A round in front of the run that goes on with the lines to retry. -/
theorem Divided.round {m : Bool}
    (hb : Burst cfg ⟨pending, fp⟩ (.ok resp) cfg.transportMaxRetries.toNat calls)
    (hfp : fp.isProbe = false) (hi : resp.items = some items)
    (hlen : items.length ≤ pending.length)
    (h : Divided cfg (retriedLines cfg m pending (iterBulkResponseOutcomes items)) rest c failed
      gone) :
    Divided cfg pending (calls ++ rest)
      (((settled cfg m (iterBulkResponseOutcomes items)).map fun o => Counts.one o.outcome).sum + c)
      (Multiset.ofList (linesWhere (givenUp cfg m) pending (iterBulkResponseOutcomes items)) +
        failed)
      (Multiset.ofList (pending.drop items.length) + gone) := by
  obtain ⟨reply, hres, -, hsum⟩ := hb.sum_answered reported_raised
  rw [sum_reported] at hsum
  have hreported : reported ⟨⟨pending, fp⟩, reply⟩ =
      (Multiset.ofList (linesWhere (·.ok) pending (iterBulkResponseOutcomes items)),
        Multiset.ofList
          (linesWhere (·.outcome == .ignored) pending (iterBulkResponseOutcomes items)),
        pending.length - items.length) := by
    simp [reported, ackedLines, noopLines, missingItems, linesWhere, hres, hfp, hi]
  simp only [hreported, Prod.mk.injEq] at hsum
  obtain ⟨hacked, hnoops, hmissing⟩ := hsum
  have hplaces := round_places cfg m items pending hlen
  constructor
  · rw [hplaces, h.places, linesOf_append, linesOf_append, hacked, hnoops]
    abel
  · rw [linesOf_append, hacked, Multiset.card_add, ← h.card_acked, Multiset.coe_card,
      ← settled_acked cfg m items pending hlen, Counts.written_add, Counts.deleted_add]
    omega
  · rw [linesOf_append, hnoops, Multiset.card_add, ← h.card_noops, Multiset.coe_card,
      ← settled_noops cfg m items pending hlen, Counts.ignored_add]
  · rw [Multiset.card_add, ← h.card_failed, Multiset.coe_card,
      ← settled_givenUp cfg m items pending hlen, Counts.errors_add]
  · rw [missing_append, hmissing, Multiset.card_add, ← h.card_gone, Multiset.coe_card,
      List.length_drop]
  · intro hprobes hsends hnone call hcall
    rcases List.mem_append.mp hcall with hcall | hcall
    · obtain ⟨hanswered, hq⟩ := hb.answered_once hsends call hcall
      exact ⟨hanswered, hq ▸ hfp⟩
    · have hrest : failed = 0 := Multiset.le_zero.mp (hnone ▸ Multiset.le_add_left ..)
      exact h.quiet hprobes hsends hrest call hcall

theorem Divided.nil (cfg : EsWriteConfig) : Divided cfg ([] : List Line) [] 0 0 0 where
  places := rfl
  card_acked := rfl
  card_noops := rfl
  card_failed := rfl
  card_gone := rfl
  quiet _ _ _ _ hcall := absurd hcall List.not_mem_nil

/-- A probe that came back clean. -/
theorem Divided.clean (hb : Burst cfg ⟨lines, fp⟩ (.ok resp) left calls) (hfp : fp.isProbe = true)
    (hprobes : cfg.probes = true) (hc : resp.errors = some false) :
    Divided cfg lines calls { written := lines.length } 0 0 := by
  obtain ⟨reply, hres, -, hsum⟩ := hb.sum_answered reported_raised
  have hreported : reported ⟨⟨lines, fp⟩, reply⟩ = (Multiset.ofList lines, 0, 0) := by
    simp [reported, ackedLines, noopLines, missingItems, hres, hfp, hc]
  rw [sum_reported, hreported] at hsum
  simp only [Prod.mk.injEq] at hsum
  obtain ⟨hacked, hnoops, hmissing⟩ := hsum
  constructor
  · simp [hacked, hnoops]
  · simp [hacked]
  · simp [hnoops]
  · rfl
  · simp [hmissing]
  · intro hno
    rw [hprobes] at hno
    cases hno

theorem Divided.probed (hb : Burst cfg ⟨lines, fp⟩ (.ok resp) left calls) (hfp : fp.isProbe = true)
    (hprobes : cfg.probes = true) (hne : resp.errors ≠ some false)
    (h : Divided cfg lines rest c failed gone) :
    Divided cfg lines (calls ++ rest) c failed gone := by
  obtain ⟨reply, hres, -, hsum⟩ := hb.sum_answered reported_raised
  have hreported : reported ⟨⟨lines, fp⟩, reply⟩ = (0, 0, 0) := by
    simp [reported, ackedLines, noopLines, missingItems, hres, hfp, hne]
  rw [sum_reported, hreported] at hsum
  simp only [Prod.mk.injEq] at hsum
  obtain ⟨hacked, hnoops, hmissing⟩ := hsum
  constructor
  · rw [h.places, linesOf_append, linesOf_append, hacked, hnoops, zero_add, zero_add]
  · rw [linesOf_append, hacked, zero_add, h.card_acked]
  · rw [linesOf_append, hnoops, zero_add, h.card_noops]
  · exact h.card_failed
  · rw [missing_append, hmissing, Nat.zero_add, h.card_gone]
  · intro hno
    rw [hprobes] at hno
    cases hno

/-- One piece of the lines after the other. -/
theorem Divided.append (h : Divided cfg lines calls c failed gone)
    (h' : Divided cfg lines' calls' c' failed' gone') :
    Divided cfg (lines ++ lines') (calls ++ calls') (c + c') (failed + failed') (gone + gone') where
  places := by
    rw [← Multiset.coe_add, h.places, h'.places, linesOf_append, linesOf_append]
    abel
  card_acked := by
    rw [linesOf_append, Multiset.card_add, ← h.card_acked, ← h'.card_acked, Counts.written_add,
      Counts.deleted_add]
    omega
  card_noops := by
    rw [linesOf_append, Multiset.card_add, ← h.card_noops, ← h'.card_noops, Counts.ignored_add]
  card_failed := by rw [Multiset.card_add, ← h.card_failed, ← h'.card_failed, Counts.errors_add]
  card_gone := by rw [missing_append, Multiset.card_add, ← h.card_gone, ← h'.card_gone]
  quiet hprobes hsends hnone call hcall := by
    rcases List.mem_append.mp hcall with hcall | hcall
    · exact h.quiet hprobes hsends (Multiset.le_zero.mp (hnone ▸ Multiset.le_add_right ..)) call
        hcall
    · exact h'.quiet hprobes hsends (Multiset.le_zero.mp (hnone ▸ Multiset.le_add_left ..)) call
        hcall

theorem Divided.perm (h : Divided cfg lines calls c failed gone) (hp : calls'.Perm calls) :
    Divided cfg lines calls' c failed gone where
  places := by rw [h.places, linesOf_perm _ hp, linesOf_perm _ hp]
  card_acked := by rw [h.card_acked, linesOf_perm _ hp]
  card_noops := by rw [h.card_noops, linesOf_perm _ hp]
  card_failed := h.card_failed
  card_gone := by rw [← h.card_gone, missing, missing, (hp.map missingItems).sum_eq]
  quiet hprobes hsends hnone call hcall := h.quiet hprobes hsends hnone call (hp.mem_iff.mp hcall)

/-- A run ends with counts to which it has added `c`, and every line has its place. -/
def Divides (cfg : EsWriteConfig) (lines : List Line) (t : Tally) (calls : List (BulkCall Line))
    (out : ChunkResult) : Prop :=
  ∃ t' c failed gone, out = .ok t' ∧ t'.counts = t.counts + c ∧ Divided cfg lines calls c failed gone

theorem Divides.nil (cfg : EsWriteConfig) (t : Tally) :
    Divides cfg ([] : List Line) t [] (.ok t) :=
  ⟨t, 0, 0, 0, rfl, (add_zero _).symm, .nil cfg⟩

theorem Burst.fewItems {q : BulkRequest Line} (hb : Burst cfg q (.ok resp) left calls)
    (hfew : ∀ c ∈ calls, FewItems c.1 c.2) (hfp : q.filterPath.isProbe = false) :
    ∃ items, resp.items = some items ∧ items.length ≤ q.operations.length := by
  obtain ⟨reply, hlast, hres⟩ := hb.getLast
  exact hfew _ (List.mem_of_getLast? hlast) resp hres hfp

end Division

section Runs

variable [NdjsonLine Line] {cfg : EsWriteConfig} {lines pending : List Line} {t : Tally}

/-- A round and the run that goes on with the lines to retry. -/
theorem Divides.round {r : Round Line}
    (hb : Burst cfg ⟨pending, fullFilterPath t⟩ (.ok resp) cfg.transportMaxRetries.toNat calls)
    (hfew : ∀ c ∈ calls, FewItems c.1 c.2)
    (hc : classifyResponse cfg m pending resp (t.record cfg calls) = .ok r)
    (h : Divides cfg r.retryLines r.tally rest out) : Divides cfg pending t (calls ++ rest) out := by
  have hfp := fullFilterPath_isProbe t
  obtain ⟨items, hi, hlen⟩ := hb.fewItems hfew hfp
  obtain ⟨r', hr', hcounts, hretry⟩ := classifyResponse_eq cfg m
    (BulkResponse.itemList_of_items hi) hlen (t.record cfg calls)
  obtain rfl := Except.ok.inj (hr'.symm.trans hc)
  obtain ⟨t', c, failed, gone, rfl, hcounts', hdivided⟩ := h
  rw [hretry] at hdivided
  refine ⟨t', _, _, _, rfl, ?_, .round hb hfp hi hlen hdivided⟩
  rw [hcounts', hcounts, Tally.record, add_assoc]

theorem FullRun.divides (h : FullRun cfg left pending t calls out)
    (hfew : ∀ c ∈ calls, FewItems c.1 c.2) : Divides cfg pending t calls out := by
  induction h with
  | nil => exact .nil cfg _
  | raised hp hb => exact ⟨_, _, _, _, rfl, Tally.failRequest_counts .., .raised hb fun _ => hp⟩
  | @failed _ t _ _ _ e hp hb hc =>
    obtain ⟨items, hi, hlen⟩ := hb.fewItems hfew (fullFilterPath_isProbe t)
    exact absurd hc (classifyResponse_ne_error cfg _ hi hlen _ e)
  | @done pending t resp calls left r hp hb hc hr =>
    have hrest : Divides cfg r.retryLines r.tally [] (.ok r.tally) := by
      rw [hr]
      exact .nil cfg r.tally
    have hround := Divides.round hb hfew hc hrest
    rwa [List.append_nil] at hround
  | again hp hb hc hr _ ih =>
    exact .round hb (fun c hc => hfew c (List.mem_append_left _ hc)) hc
      (ih fun c hc => hfew c (List.mem_append_right _ hc))

theorem ChunkRun.divides (hne : lines ≠ []) (h : ChunkRun cfg lines t calls out)
    (hfew : ∀ c ∈ calls, FewItems c.1 c.2) : Divides cfg lines t calls out := by
  cases h with
  | raised hp hb =>
    exact ⟨_, _, _, _, rfl, Tally.failRequest_counts .., .raised hb fun _ => hne⟩
  | clean hp hb hc =>
    exact ⟨_, _, _, _, rfl, rfl, .clean hb (fastFilterPath_isProbe t) hp hc⟩
  | probed hp hb hc hf =>
    obtain ⟨t', c, failed, gone, rfl, hcounts, hdivided⟩ :=
      hf.divides fun c hc => hfew c (List.mem_append_right _ hc)
    exact ⟨t', c, failed, gone, rfl, hcounts,
      hdivided.probed hb (fastFilterPath_isProbe t) hp hc⟩
  | direct hp hf => exact hf.divides hfew

end Runs

/-- The lines of a partition, followed through its chunks. -/
def followLines (cfg : EsWriteConfig) : Followed Line Counts Counts where
  view := Tally.counts
  add c d := c + d
  adds chunk calls c := ∃ failed gone, Divided cfg chunk calls c failed gone

section Partitions

variable {cfg : EsWriteConfig} {clock : PartitionClock} {batches : List (List (Option Line))}
  {plan : List (List Line)} {calls : List (BulkCall Line)}

theorem Divided.flatten {ps : List (List (BulkCall Line) × Counts)}
    (h : List.Forall₂ (fun chunk p => ∃ failed gone, Divided cfg chunk p.1 p.2 failed gone) plan ps) :
    ∃ failed gone, Divided cfg plan.flatten (ps.map Prod.fst).flatten (ps.map Prod.snd).sum failed
      gone := by
  induction h with
  | nil => exact ⟨0, 0, .nil cfg⟩
  | cons hchunk _ ih =>
    obtain ⟨failed, gone, hchunk⟩ := hchunk
    obtain ⟨failed', gone', hrest⟩ := ih
    exact ⟨_, _, hchunk.append hrest⟩

theorem Divided.of_followed
    (h : (followLines cfg).Ends cfg clock batches calls (.ok row)) :
    (∀ col ∈ batches, none ∉ col) ∧ ∃ t failed gone,
      row = summaryRow (batches.map List.length).sum t clock ∧
      Divided cfg (chunkPlan cfg batches).flatten calls t.counts failed gone := by
  obtain ⟨hnull, t, hrow, parts, order, hparts, horder, hview, hcalls⟩ := h
  have hcounts : t.counts = (parts.map Prod.snd).sum := by
    have hsum : t.counts = 0 + order.sum := hview.trans (foldl_add _ order)
    rw [hsum, zero_add, horder.sum_eq]
  obtain ⟨failed, gone, hdivided⟩ := Divided.flatten hparts
  refine ⟨hnull, t, failed, gone, hrow, ?_⟩
  rw [hcounts]
  exact hdivided.perm hcalls

/-- The counts that a summary row reports. -/
def SummaryRow.counts (row : SummaryRow) : Counts where
  written := row.written.getD 0
  deleted := row.deleted.getD 0
  ignored := row.ignored.getD 0
  errors := row.errors.getD 0

theorem Divided.length_eq (h : Divided cfg lines calls c failed gone) :
    lines.length = c.total + gone.card := by
  have hcard := congrArg Multiset.card h.places
  simp only [Multiset.coe_card, Multiset.card_add, ← h.card_acked, ← h.card_noops,
    ← h.card_failed] at hcard
  rw [hcard, Counts.total]

/-- The lines of a partition whose row shows no error and no loss are acknowledged or no-ops, as the
row counts them. -/
theorem Divided.settled (h : (followLines cfg).Ends cfg clock batches calls (.ok row))
    (he : orZero row.errors = 0) (hd : row.delta ≤ 0) :
    Divided cfg (batches.flatMap List.reduceOption) calls row.counts 0 0 := by
  obtain ⟨hnull, t, failed, gone, rfl, hdivided⟩ := Divided.of_followed h
  have hlength := hdivided.length_eq
  have hsub := chunkPlan_flatten_sublist cfg batches
  have hshort := hsub.length_le
  have hinput : (batches.flatMap List.reduceOption).length = (batches.map List.length).sum := by
    rw [List.length_flatMap]
    exact congrArg List.sum (List.map_congr_left fun col hc => length_reduceOption (hnull col hc))
  rw [summaryRow_delta] at hd
  have hgone : gone.card = 0 := by omega
  have hfailed : failed.card = 0 := by
    rw [← hdivided.card_failed]
    simpa [summaryRow, orZero] using he
  rw [← hsub.eq_of_length (by omega)]
  rw [Multiset.card_eq_zero.mp hgone, Multiset.card_eq_zero.mp hfailed] at hdivided
  exact hdivided

variable [NdjsonLine Line] {P : Type} {demands : BulkRequest Line → Prop}
  {x : Process P (BulkRequest Line) (fun _ => BulkReply) (List Line) ChunkResult
    (Except WriteError SummaryRow)}

theorem ships_lines (cfg : EsWriteConfig) (batches : List (List (Option Line))) :
    ∀ chunk ∈ chunkPlan cfg batches, ∀ t log,
      wp (anyEnv FewItems) (shipNdjsonChunk cfg chunk t)
        ((followLines cfg).Ships chunk t log) log := by
  intro chunk hchunk t log
  apply wp_mono (wp_legal (wp_shipNdjsonChunk_run cfg chunk t))
  rintro r log' ⟨⟨calls, rfl, hrun⟩, calls', hcalls, hfew⟩
  obtain rfl := List.append_cancel_left hcalls
  obtain ⟨t', c, failed, gone, rfl, hcounts, hdivided⟩ :=
    hrun.divides (mem_chunkPlan hchunk).1 fun c hc => hfew c hc
  exact ⟨t', calls, c, rfl, rfl, ⟨failed, gone, hdivided⟩, hcounts⟩

/-- Every run of a partition that reports no error and no loss. -/
theorem write_settles (hx : x.Sound FewItems (partitionAsks (fun _ => True) cfg batches)
      (fun _ => True) (shipOne cfg) (write cfg (shipInto cfg) clock batches))
    (hend : x.rest = .ret (.ok row)) (he : orZero row.errors = 0) (hd : row.delta ≤ 0) :
    Divided cfg (batches.flatMap List.reduceOption) x.calls row.counts 0 0 := by
  have hmerges : (followCounts : Followed Line Counts Counts).Merges cfg.bulkStats :=
    followCounts_merges cfg.bulkStats
  exact Divided.settled (write_ends hmerges (ships_lines cfg batches) hx hend) he hd

end Partitions

end EsConnector
