import EsConnector.ChunkRuns
import EsConnector.RoundTally

namespace EsConnector
set_option autoImplicit true

open Interaction

variable {Line : Type}

/-- An item is empty or has its line's operation as its key. -/
def KeyedItem (op : Line → OpType) (line : Line) : Item → Prop
  | none => True
  | some (key, _) => key = op line

/-- A response of the full path has one item for each line, keyed by the line's operation. -/
def KeyedItems (op : Line → OpType) (q : BulkRequest Line) (reply : BulkReply) : Prop :=
  ∀ resp, reply.result = .ok resp → q.filterPath.isProbe = false →
    ∃ items, resp.items = some items ∧ List.Forall₂ (KeyedItem op) q.operations items

/-- The lists that the full path had pending, round by round. Before the last call, one that
raised was sent again in the same round. -/
def pendingLists : List (BulkCall Line) → List (List Line)
  | [] => []
  | [c] => if c.1.filterPath.isProbe then [] else [c.1.operations]
  | c :: c' :: rest =>
    (if answered c && !c.1.filterPath.isProbe then [c.1.operations] else []) ++
      pendingLists (c' :: rest)

/-- The send that terminally raised: the last call, if it raised. -/
def terminalRaise (calls : List (BulkCall Line)) : Option (BulkCall Line) :=
  calls.getLast?.filter fun c => !answered c

/-- The lines that were pending when a send terminally raised. -/
def raisedPending (calls : List (BulkCall Line)) : Nat :=
  match terminalRaise calls with
  | none => 0
  | some c => c.1.operations.length

/-- A probe that came back, but not clean. -/
def uncleanProbe (c : BulkCall Line) : Bool :=
  c.1.filterPath.isProbe && match c.2.result with
    | .ok resp => resp.errors != some false
    | .error _ => false

/-- The four reject buckets together. -/
def Diag.rejections (d : Diag) : Nat :=
  d.rejected429 + d.rejected409 + d.rejected4xxOther + d.rejected5xx

namespace Diag

@[simp] theorem rejections_add (a b : Diag) : (a + b).rejections = a.rejections + b.rejections := by
  simp only [rejections, add_def]
  omega

@[simp] theorem docsRetried_add (a b : Diag) :
    (a + b).docsRetried = a.docsRetried + b.docsRetried := rfl

@[simp] theorem docsDeduped_add (a b : Diag) :
    (a + b).docsDeduped = a.docsDeduped + b.docsDeduped := rfl

end Diag

theorem rejections_rejectBucket (status : Int) : (rejectBucket status).rejections = 1 := by
  rw [rejectBucket]
  repeat' split
  all_goals rfl

theorem rejectBucket_docs (status : Int) :
    (rejectBucket status).docsRetried = 0 ∧ (rejectBucket status).docsDeduped = 0 := by
  rw [rejectBucket]
  repeat' split
  all_goals exact ⟨rfl, rfl⟩

theorem rejected_itemOutcome (item : Item) :
    rejected (itemOutcome item) = ((itemOutcome item).outcome == .error) := by
  cases item with
  | none => rfl
  | some p =>
    obtain ⟨key, body⟩ := p
    simp only [rejected, itemOutcome, classifyBulkResult]
    cases isOk body.statusCode
    · simp only [Bool.false_eq_true, if_false]
      split
      · rfl
      · split <;> rfl
    · simp only [if_true]
      split <;> rfl

theorem deduped_eq_false (h : o.outcome ≠ .ignored) : deduped o = false := by
  rw [deduped, beq_false_of_ne h, Bool.false_and, Bool.false_and]

theorem deduped_itemOutcome (item : Item) (h : KeyedItem op line item) (hop : op line ≠ .delete) :
    deduped (itemOutcome item) = ((itemOutcome item).outcome == .ignored) := by
  cases item with
  | none => rfl
  | some p =>
    obtain ⟨key, body⟩ := p
    have hkey : key = op line := h
    by_cases ho : (itemOutcome (some (key, body))).outcome = .ignored
    · obtain ⟨-, hd | hc⟩ := classifyBulkResult_ignored_iff.mp ho
      · exact absurd (hkey ▸ hd.1) hop
      · rw [deduped, ho]
        simp only [itemOutcome, hc.1, hc.2]
        rfl
    · rw [deduped_eq_false ho, beq_false_of_ne ho]

/-- How a diagnostics record and the counts of the same items relate, where `retried` of them are
sent again. -/
structure Balanced (retried : Nat) (d : Diag) (c : Counts) : Prop where
  docsRetried : d.docsRetried = 0
  rejections : d.rejections = retried + c.errors
  docsDeduped : d.docsDeduped ≤ c.ignored

theorem Balanced.add (h : Balanced n d c) (h' : Balanced n' d' c') :
    Balanced (n + n') (d + d') (c + c') where
  docsRetried := by rw [Diag.docsRetried_add, h.docsRetried, h'.docsRetried]
  rejections := by
    rw [Diag.rejections_add, Counts.errors_add, h.rejections, h'.rejections]
    omega
  docsDeduped := by
    rw [Diag.docsDeduped_add, Counts.ignored_add]
    exact Nat.add_le_add h.docsDeduped h'.docsDeduped

theorem balanced_item (cfg : EsWriteConfig) (m : Bool) (item : Item) :
    Balanced (if retryable cfg (itemOutcome item) && m then 1 else 0)
      (itemDiag cfg m (itemOutcome item))
      (if retryable cfg (itemOutcome item) && m then 0 else .one (itemOutcome item).outcome) := by
  have hrej := rejected_itemOutcome item
  generalize itemOutcome item = o at hrej ⊢
  cases hr : retryable cfg o && m with
  | true =>
    have hrejected : rejected o = true := by
      simp only [retryable, Bool.and_eq_true] at hr
      simp only [rejected, Bool.and_eq_true]
      exact hr.1.1
    obtain ⟨hretried, hdeduped⟩ := rejectBucket_docs o.body.statusCode
    simp only [itemDiag, hr, hrejected, if_true, Bool.not_true, Bool.and_false, Bool.false_eq_true,
      if_false, add_zero]
    exact ⟨hretried, rejections_rejectBucket _, hdeduped.le⟩
  | false =>
    simp only [itemDiag, hr, Bool.not_false, Bool.and_true, Bool.false_eq_true, if_false]
    cases ho : o.outcome with
    | error =>
      obtain ⟨hretried, hdeduped⟩ := rejectBucket_docs o.body.statusCode
      have hrejected : rejected o = true := by rw [hrej, ho]; rfl
      have hd : deduped o = false := deduped_eq_false (by rw [ho]; decide)
      simp only [hrejected, hd, if_true, Bool.false_eq_true, if_false, add_zero]
      exact ⟨hretried, rejections_rejectBucket _, hdeduped.le⟩
    | ignored =>
      have hrejected : rejected o = false := by rw [hrej, ho]; rfl
      simp only [hrejected, Bool.false_eq_true, if_false, zero_add]
      split
      · exact ⟨rfl, rfl, le_refl 1⟩
      · exact ⟨rfl, rfl, Nat.zero_le 1⟩
    | written | deleted =>
      have hrejected : rejected o = false := by rw [hrej, ho]; rfl
      have hd : deduped o = false := deduped_eq_false (by rw [ho]; decide)
      simp only [hrejected, hd, Bool.false_eq_true, if_false, add_zero]
      exact ⟨rfl, rfl, le_refl 0⟩

theorem deduped_item_eq (cfg : EsWriteConfig) (m : Bool) (item : Item)
    (h : KeyedItem op line item) (hop : op line ≠ .delete) :
    (itemDiag cfg m (itemOutcome item)).docsDeduped =
      (if retryable cfg (itemOutcome item) && m then 0
        else Counts.one (itemOutcome item).outcome).ignored := by
  have hd := deduped_itemOutcome item h hop
  generalize itemOutcome item = o at hd ⊢
  have hbucket : (if rejected o then rejectBucket o.body.statusCode else 0).docsDeduped = 0 := by
    split
    · exact (rejectBucket_docs _).2
    · rfl
  rw [itemDiag, Diag.docsDeduped_add, hbucket, zero_add, hd]
  cases retryable cfg o && m
  · cases o.outcome <;> rfl
  · rw [Bool.not_true, Bool.and_false]
    rfl

theorem balanced_items (cfg : EsWriteConfig) (m : Bool)
    (h : List.Forall₂ (KeyedItem op) (pending : List Line) items) :
    let os := iterBulkResponseOutcomes items
    Balanced (retriedLines cfg m pending os).length (os.map (itemDiag cfg m)).sum
        ((settled cfg m os).map fun o => Counts.one o.outcome).sum ∧
      ((∀ line ∈ pending, op line ≠ .delete) → ((os.map (itemDiag cfg m)).sum).docsDeduped =
        (((settled cfg m os).map fun o => Counts.one o.outcome).sum).ignored) := by
  induction h with
  | nil => exact ⟨⟨rfl, rfl, le_refl 0⟩, fun _ => rfl⟩
  | @cons line item lines items hitem _ ih =>
    obtain ⟨ih, ihdel⟩ := ih
    have hone := balanced_item cfg m item
    have hdel := deduped_item_eq cfg m item hitem
    simp only [iterBulkResponseOutcomes, List.map_cons, List.sum_cons] at ih ihdel ⊢
    rw [settled_cons, retriedLines_cons, List.map_append, List.sum_append, List.length_append]
    have hcounts : (((if (retryable cfg (itemOutcome item) && m) = true then []
        else [itemOutcome item]).map fun o => Counts.one o.outcome).sum) =
          if (retryable cfg (itemOutcome item) && m) = true then 0
          else Counts.one (itemOutcome item).outcome := by
      split
      · rfl
      · exact List.sum_singleton
    have hlength : (if (retryable cfg (itemOutcome item) && m) = true then [line] else []).length =
        if (retryable cfg (itemOutcome item) && m) = true then 1 else 0 := by
      split <;> rfl
    rw [hcounts, hlength]
    refine ⟨hone.add ih, ?_⟩
    intro hlines
    rw [Diag.docsDeduped_add, Counts.ignored_add, hdel (hlines line List.mem_cons_self),
      ihdel fun l hl => hlines l (List.mem_cons_of_mem _ hl)]

section Bursts

variable {calls rest : List (BulkCall Line)}

theorem pendingLists_raised {c : BulkCall Line} (h : answered c = false) (hne : rest ≠ []) :
    pendingLists (c :: rest) = pendingLists rest := by
  cases rest with
  | nil => exact absurd rfl hne
  | cons d rest => rw [pendingLists, h, Bool.false_and, if_neg Bool.false_ne_true, List.nil_append]

theorem pendingLists_answered {c : BulkCall Line} (h : answered c = true) :
    pendingLists (c :: rest) =
      (if c.1.filterPath.isProbe then [] else [c.1.operations]) ++ pendingLists rest := by
  cases rest with
  | nil => rw [pendingLists, pendingLists, List.append_nil]
  | cons d rest =>
    rw [pendingLists, h, Bool.true_and]
    cases c.1.filterPath.isProbe <;> rfl

theorem Burst.ne_nil (h : Burst cfg (q : BulkRequest Line) result left calls) : calls ≠ [] := by
  cases h <;> exact List.cons_ne_nil _ _

theorem answered_of_ok {q : BulkRequest Line} {reply : BulkReply} (h : reply.result = .ok resp) :
    answered ⟨q, reply⟩ = true := by
  simp only [answered, h]

theorem not_answered_of_error {q : BulkRequest Line} {reply : BulkReply}
    (h : reply.result = .error e) : answered ⟨q, reply⟩ = false := by
  simp only [answered, h]

theorem Burst.pendingLists_append
    (h : Burst cfg (q : BulkRequest Line) (.ok resp) left calls) :
    pendingLists (calls ++ rest) =
      (if q.filterPath.isProbe then [] else [q.operations]) ++ pendingLists rest := by
  induction h with
  | last reply h _ => exact pendingLists_answered (answered_of_ok h)
  | again reply he _ hrest ih =>
    rw [List.cons_append, pendingLists_raised (not_answered_of_error he)
      (List.append_ne_nil_of_left_ne_nil hrest.ne_nil rest), ih]

theorem Burst.pendingLists_raised (h : Burst cfg (q : BulkRequest Line) (.error e) left calls) :
    pendingLists calls = if q.filterPath.isProbe then [] else [q.operations] := by
  induction h with
  | last reply h _ => rw [pendingLists]
  | again reply he _ hrest ih =>
    rw [EsConnector.pendingLists_raised (not_answered_of_error he) hrest.ne_nil, ih]

theorem Burst.terminalRaise_append
    (h : Burst cfg (q : BulkRequest Line) (.ok resp) left calls) :
    terminalRaise (calls ++ rest) = terminalRaise rest := by
  obtain ⟨reply, hl, hr⟩ := h.getLast
  unfold terminalRaise
  rw [List.getLast?_append, hl]
  cases hrest : rest.getLast? with
  | none => rw [Option.none_or, Option.filter_some, answered_of_ok hr]; rfl
  | some c => rw [Option.some_or]

theorem Burst.terminalRaise_raised (h : Burst cfg (q : BulkRequest Line) (.error e) left calls) :
    ∃ reply, terminalRaise calls = some ⟨q, reply⟩ := by
  obtain ⟨reply, hl, hr⟩ := h.getLast
  refine ⟨reply, ?_⟩
  rw [terminalRaise, hl, Option.filter_some, not_answered_of_error hr]
  rfl

theorem Burst.raisedPending_append
    (h : Burst cfg (q : BulkRequest Line) (.ok resp) left calls) :
    raisedPending (calls ++ rest) = raisedPending rest := by
  rw [raisedPending, h.terminalRaise_append, raisedPending]

theorem Burst.raisedPending_raised (h : Burst cfg (q : BulkRequest Line) (.error e) left calls) :
    raisedPending calls = q.operations.length := by
  obtain ⟨reply, hraise⟩ := h.terminalRaise_raised
  rw [raisedPending, hraise]

/-- Where no call raises, a burst is a single call. -/
theorem Burst.once (h : Burst cfg (q : BulkRequest Line) result left calls)
    (hall : ∀ c ∈ calls, answered c = true) : ∃ reply, calls = [⟨q, reply⟩] := by
  cases h with
  | last reply h _ => exact ⟨reply, rfl⟩
  | again reply he _ _ =>
    have hans := hall _ List.mem_cons_self
    rw [not_answered_of_error he] at hans
    cases hans

theorem Burst.answered_getLast (h : Burst cfg (q : BulkRequest Line) (.error e) left calls) :
    ¬∀ c ∈ calls, answered c = true := by
  obtain ⟨reply, hl, hr⟩ := h.getLast
  intro hall
  have hans := hall _ (List.mem_of_getLast? hl)
  rw [not_answered_of_error hr] at hans
  cases hans

theorem Burst.calls_eq (h : Burst cfg (q : BulkRequest Line) result left calls) :
    ∀ c ∈ calls, c.1 = q := by
  induction h with
  | last reply _ _ =>
    intro c hc
    rw [List.mem_singleton.mp hc]
  | again reply _ _ _ ih =>
    intro c hc
    rcases List.mem_cons.mp hc with rfl | hc
    · rfl
    · exact ih c hc

end Bursts

/-- The number of lines in the requests of some calls. -/
def linesSent (calls : List (BulkCall Line)) : Nat :=
  (calls.map fun c => c.1.operations.length).sum

theorem sum_lengths (l : List (List Line)) :
    (l.map List.length).sum = (l.headD []).length + (l.tail.map List.length).sum := by
  cases l <;> simp

/-- The books of a run of the full path that started with `pending`. -/
structure ItemLedger (op : Line → OpType) (pending : List Line) (calls : List (BulkCall Line))
    (c : Counts) (d : Diag) : Prop where
  first : (pendingLists calls).headD [] = pending
  retried : ((pendingLists calls).tail.map List.length).sum = d.docsRetried
  rejections : d.rejections + raisedPending calls = d.docsRetried + c.errors
  deduped : d.docsDeduped ≤ c.ignored
  noDeletes : (∀ line ∈ pending, op line ≠ .delete) → d.docsDeduped = c.ignored
  sent : (∀ call ∈ calls, answered call = true) →
    linesSent calls = pending.length + d.docsRetried

theorem ItemLedger.nil (op : Line → OpType) : ItemLedger op [] [] 0 0 :=
  ⟨rfl, rfl, rfl, le_refl 0, fun _ => rfl, fun _ => rfl⟩

theorem ItemLedger.raised {pending : List Line} {calls : List (BulkCall Line)}
    (hb : Burst cfg ⟨pending, fp⟩ (.error e) left calls) (hfp : fp.isProbe = false) :
    ItemLedger op pending calls { errors := pending.length } 0 := by
  have hlists : pendingLists calls = [pending] := by
    rw [hb.pendingLists_raised, hfp]
    rfl
  refine ⟨?_, ?_, ?_, le_refl 0, fun _ => rfl, fun hall => absurd hall hb.answered_getLast⟩
  · rw [hlists, List.headD_cons]
  · rw [hlists]
    rfl
  · rw [hb.raisedPending_raised]
    rfl

/-- One round in front of a run that goes on with the lines to retry. -/
theorem ItemLedger.round {cfg : EsWriteConfig} {pending : List Line} {calls : List (BulkCall Line)}
    {m : Bool}
    (hb : Burst cfg ⟨pending, fp⟩ (.ok resp) left calls) (hfp : fp.isProbe = false)
    (hitems : List.Forall₂ (KeyedItem op) pending items)
    (hrest : ItemLedger op (retriedLines cfg m pending (iterBulkResponseOutcomes items)) rest c d) :
    ItemLedger op pending (calls ++ rest)
      (((settled cfg m (iterBulkResponseOutcomes items)).map fun o => Counts.one o.outcome).sum + c)
      (((iterBulkResponseOutcomes items).map (itemDiag cfg m)).sum +
        { docsRetried := (retriedLines cfg m pending (iterBulkResponseOutcomes items)).length } +
        d) := by
  obtain ⟨hbal, hdel⟩ := balanced_items cfg m hitems
  have hlists : pendingLists (calls ++ rest) = pending :: pendingLists rest := by
    rw [hb.pendingLists_append, hfp]
    rfl
  have hretried : ∀ line ∈ retriedLines cfg m pending (iterBulkResponseOutcomes items),
      line ∈ pending := by
    intro line hline
    obtain ⟨p, hp, rfl⟩ := List.mem_map.mp hline
    exact (List.of_mem_zip (List.mem_of_mem_filter hp)).1
  generalize retriedLines cfg m pending (iterBulkResponseOutcomes items) = next at *
  generalize ((iterBulkResponseOutcomes items).map (itemDiag cfg m)).sum = d₁ at *
  generalize ((settled cfg m (iterBulkResponseOutcomes items)).map
    fun o => Counts.one o.outcome).sum = c₁ at *
  refine ⟨?_, ?_, ?_, ?_, ?_, ?_⟩
  · rw [hlists, List.headD_cons]
  · rw [hlists, List.tail_cons, sum_lengths, hrest.first, hrest.retried]
    simp only [Diag.docsRetried_add, hbal.docsRetried]
    omega
  · have hr := hrest.rejections
    have hb' := hbal.rejections
    rw [hb.raisedPending_append]
    simp only [Diag.rejections_add, Diag.docsRetried_add, Counts.errors_add, hbal.docsRetried]
    rw [show ({ docsRetried := next.length } : Diag).rejections = 0 from rfl]
    omega
  · have hr := hrest.deduped
    have hb' := hbal.docsDeduped
    simp only [Diag.docsDeduped_add, Counts.ignored_add]
    omega
  · intro hlines
    have hr := hrest.noDeletes fun line hline => hlines line (hretried line hline)
    have hb' := hdel hlines
    simp only [Diag.docsDeduped_add, Counts.ignored_add]
    omega
  · intro hall
    obtain ⟨reply, rfl⟩ := hb.once fun c hc => hall c (List.mem_append_left _ hc)
    have hr := hrest.sent fun c hc => hall c (List.mem_append_right _ hc)
    simp only [linesSent, List.singleton_append, List.map_cons, List.sum_cons] at hr ⊢
    simp only [Diag.docsRetried_add, hbal.docsRetried]
    omega

theorem Burst.keyedItems (h : Burst cfg (q : BulkRequest Line) (.ok resp) left calls)
    (hlegal : ∀ c ∈ calls, KeyedItems op c.1 c.2) (hfp : q.filterPath.isProbe = false) :
    ∃ items, resp.items = some items ∧ List.Forall₂ (KeyedItem op) q.operations items := by
  obtain ⟨reply, hl, hr⟩ := h.getLast
  exact hlegal _ (List.mem_of_getLast? hl) resp hr hfp

/-- The books of a chunk. -/
structure ChunkLedger (op : Line → OpType) (lines : List Line) (calls : List (BulkCall Line))
    (c : Counts) (d : Diag) : Prop where
  retried : d.docsRetried = ((pendingLists calls).tail.map List.length).sum
  rejections : d.rejections + raisedPending calls = d.docsRetried + c.errors
  deduped : d.docsDeduped ≤ c.ignored
  noDeletes : (∀ line ∈ lines, op line ≠ .delete) → d.docsDeduped = c.ignored
  sent : (∀ call ∈ calls, answered call = true) → linesSent calls =
    lines.length + d.docsRetried + if calls.any uncleanProbe then lines.length else 0

theorem fastFilterPath_isProbe (t : Tally) : (fastFilterPath t).isProbe = true := by
  rw [fastFilterPath]
  split <;> rfl

/-- A probe in front of a run of the full path. -/
theorem ItemLedger.probed {lines : List Line} {calls rest : List (BulkCall Line)}
    (hb : Burst cfg ⟨lines, fp⟩ (.ok resp) left calls) (hfp : fp.isProbe = true)
    (hne : resp.errors ≠ some false) (h : ItemLedger op lines rest c d) :
    ChunkLedger op lines (calls ++ rest) c d where
  retried := by
    rw [hb.pendingLists_append, if_pos hfp, List.nil_append]
    exact h.retried.symm
  rejections := by
    rw [hb.raisedPending_append]
    exact h.rejections
  deduped := h.deduped
  noDeletes := h.noDeletes
  sent hall := by
    have hsent := h.sent fun c hc => hall c (List.mem_append_right _ hc)
    obtain ⟨reply, hl, hr⟩ := hb.getLast
    obtain ⟨reply', rfl⟩ := hb.once fun c hc => hall c (List.mem_append_left _ hc)
    cases hl
    have hunclean : uncleanProbe ⟨⟨lines, fp⟩, reply⟩ = true := by
      simp only [uncleanProbe, hfp, hr, Bool.true_and]
      exact bne_iff_ne.mpr hne
    simp only [linesSent, List.singleton_append, List.map_cons, List.sum_cons, List.any_cons,
      hunclean, Bool.true_or, if_true] at hsent ⊢
    omega

theorem ItemLedger.direct (h : ItemLedger op lines calls c d)
    (hprobe : calls.any uncleanProbe = false) : ChunkLedger op lines calls c d where
  retried := h.retried.symm
  rejections := h.rejections
  deduped := h.deduped
  noDeletes := h.noDeletes
  sent hall := by
    rw [hprobe, if_neg Bool.false_ne_true, Nat.add_zero]
    exact h.sent hall

theorem ChunkLedger.raised {lines : List Line} {calls : List (BulkCall Line)}
    (hb : Burst cfg ⟨lines, fp⟩ (.error e) left calls) (hfp : fp.isProbe = true) :
    ChunkLedger op lines calls { errors := lines.length } 0 where
  retried := by
    rw [hb.pendingLists_raised, if_pos hfp]
    rfl
  rejections := by
    rw [hb.raisedPending_raised]
    rfl
  deduped := le_refl 0
  noDeletes _ := rfl
  sent hall := absurd hall hb.answered_getLast

theorem ChunkLedger.clean {lines : List Line} {calls : List (BulkCall Line)}
    (hb : Burst cfg ⟨lines, fp⟩ (.ok resp) left calls) (hfp : fp.isProbe = true)
    (hc : resp.errors = some false) :
    ChunkLedger op lines calls { written := lines.length } 0 where
  retried := by
    rw [← List.append_nil calls, hb.pendingLists_append, if_pos hfp]
    rfl
  rejections := by
    rw [← List.append_nil calls, hb.raisedPending_append]
    rfl
  deduped := le_refl 0
  noDeletes _ := rfl
  sent hall := by
    obtain ⟨reply, hl, hr⟩ := hb.getLast
    obtain ⟨reply', rfl⟩ := hb.once hall
    cases hl
    have hclean : uncleanProbe ⟨⟨lines, fp⟩, reply⟩ = false := by
      simp only [uncleanProbe, hr, hc, bne_self_eq_false, Bool.and_false]
    simp only [linesSent, List.map_cons, List.map_nil, List.sum_singleton, List.any_cons,
      List.any_nil, hclean, Bool.or_self, Bool.false_eq_true, if_false]
    rfl

section Runs

variable [NdjsonLine Line]

/-- The books of a run: what it adds to the accumulators balances. -/
def Books (cfg : EsWriteConfig) (t : Tally) (calls : List (BulkCall Line)) (out : ChunkResult)
    (balance : Counts → Diag → Prop) : Prop :=
  ∃ t' c d, out = .ok t' ∧ t'.counts = t.counts + c ∧ t'.diag = t.diag.map (· + d) ∧
    t'.stats = t.stats.map (· ++ calls.map (callRecord cfg)) ∧ balance c d

theorem round_tally {cfg : EsWriteConfig} {m : Bool} {t : Tally} {pending : List Line}
    {calls : List (BulkCall Line)} {r : Round Line}
    (hi : resp.items = some items) (hlen : items.length = pending.length)
    (hc : classifyResponse cfg m pending resp (t.record cfg calls) = .ok r) :
    r.tally.counts = t.counts +
        ((settled cfg m (iterBulkResponseOutcomes items)).map fun o => Counts.one o.outcome).sum ∧
      r.tally.diag = t.diag.map (· + (((iterBulkResponseOutcomes items).map (itemDiag cfg m)).sum +
        { docsRetried :=
            (retriedLines cfg m pending (iterBulkResponseOutcomes items)).length })) ∧
      r.tally.stats = t.stats.map (· ++ calls.map (callRecord cfg)) ∧
      r.retryLines = retriedLines cfg m pending (iterBulkResponseOutcomes items) := by
  obtain rfl := classifyResponse_round hi hlen.le hc
  refine ⟨?_, ?_, ?_, rfl⟩
  · rw [Tally.addDiag_counts, foldl_itemTally_counts]
    rfl
  · rw [Tally.addDiag_diag, foldl_itemTally_diag, Option.map_map]
    apply congrArg (Option.map · t.diag)
    funext d
    exact add_assoc ..
  · rw [Tally.addDiag_stats, foldl_itemTally_stats]
    rfl

theorem FullRun.ledger (h : FullRun cfg left (pending : List Line) t calls out)
    (hlegal : ∀ c ∈ calls, KeyedItems op c.1 c.2) :
    Books cfg t calls out (ItemLedger op pending calls) := by
  induction h with
  | @nil _ t =>
    refine ⟨t, 0, 0, rfl, (add_zero _).symm, (map_add_zero _).symm, ?_, .nil op⟩
    simp
  | @raised pending t e calls left hp hb =>
    refine ⟨_, _, 0, rfl, Tally.failRequest_counts .., ?_, ?_,
      .raised hb (fullFilterPath_isProbe t)⟩
    · rw [Tally.failRequest, Tally.addSample_diag]
      exact (map_add_zero _).symm
    · rw [Tally.failRequest, Tally.addSample_stats]
      rfl
  | @failed pending t resp calls left e hp hb hc =>
    obtain ⟨items, hi, hitems⟩ := hb.keyedItems hlegal (fullFilterPath_isProbe t)
    exact absurd hc (classifyResponse_ne_error cfg _ hi hitems.length_eq.ge _ e)
  | @done pending t resp calls left r hp hb hc hr =>
    obtain ⟨items, hi, hitems⟩ := hb.keyedItems hlegal (fullFilterPath_isProbe t)
    obtain ⟨hcounts, hdiag, hstats, hretry⟩ := round_tally hi hitems.length_eq.symm hc
    refine ⟨_, _, _, rfl, hcounts, hdiag, hstats, ?_⟩
    have hrest : ItemLedger op (retriedLines cfg (decide (0 < left)) pending
        (iterBulkResponseOutcomes items)) [] 0 0 := by
      rw [← hretry, hr]
      exact .nil op
    have hround := ItemLedger.round hb (fullFilterPath_isProbe t) hitems hrest
    rwa [List.append_nil, add_zero, add_zero] at hround
  | @again pending t resp calls r left rest out hp hb hc hr _ ih =>
    obtain ⟨items, hi, hitems⟩ := hb.keyedItems
      (fun c hc => hlegal c (List.mem_append_left _ hc)) (fullFilterPath_isProbe t)
    obtain ⟨hcounts, hdiag, hstats, hretry⟩ := round_tally hi hitems.length_eq.symm hc
    obtain ⟨t', c, d, rfl, hc', hd', hs', hrest⟩ :=
      ih fun c hc => hlegal c (List.mem_append_right _ hc)
    rw [hretry] at hrest
    refine ⟨t', _, _, rfl, ?_, ?_, ?_, .round hb (fullFilterPath_isProbe t) hitems hrest⟩
    · rw [hc', hcounts, add_assoc]
    · rw [hd', hdiag, Option.map_map]
      apply congrArg (Option.map · t.diag)
      funext d'
      exact add_assoc ..
    · rw [hs', hstats, Option.map_map]
      apply congrArg (Option.map · t.stats)
      funext s
      rw [Function.comp_apply, List.map_append, List.append_assoc]

theorem FullRun.not_probe (h : FullRun cfg left (pending : List Line) t calls out) :
    ∀ c ∈ calls, c.1.filterPath.isProbe = false := by
  induction h with
  | nil => exact fun c hc => absurd hc List.not_mem_nil
  | @raised _ t _ _ _ _ hb =>
    exact fun c hc => by rw [hb.calls_eq c hc]; exact fullFilterPath_isProbe t
  | @failed _ t _ _ _ _ _ hb _ =>
    exact fun c hc => by rw [hb.calls_eq c hc]; exact fullFilterPath_isProbe t
  | @done _ t _ _ _ _ _ hb _ _ =>
    exact fun c hc => by rw [hb.calls_eq c hc]; exact fullFilterPath_isProbe t
  | @again _ t _ _ _ _ _ _ _ hb _ _ _ ih =>
    intro c hc
    rcases List.mem_append.mp hc with hc | hc
    · rw [hb.calls_eq c hc]
      exact fullFilterPath_isProbe t
    · exact ih c hc

theorem FullRun.any_uncleanProbe (h : FullRun cfg left (pending : List Line) t calls out) :
    calls.any uncleanProbe = false := by
  rw [List.any_eq_false]
  intro c hc
  rw [uncleanProbe, h.not_probe c hc, Bool.false_and]
  exact Bool.false_ne_true

theorem ChunkRun.ledger (h : ChunkRun cfg (lines : List Line) t calls out)
    (hlegal : ∀ c ∈ calls, KeyedItems op c.1 c.2) :
    Books cfg t calls out (ChunkLedger op lines calls) := by
  cases h with
  | raised hp hb =>
    refine ⟨_, _, 0, rfl, Tally.failRequest_counts .., ?_, ?_,
      .raised hb (fastFilterPath_isProbe t)⟩
    · rw [Tally.failRequest, Tally.addSample_diag]
      exact (map_add_zero _).symm
    · rw [Tally.failRequest, Tally.addSample_stats]
      rfl
  | clean hp hb hc =>
    exact ⟨_, _, 0, rfl, rfl, (map_add_zero _).symm, rfl, .clean hb (fastFilterPath_isProbe t) hc⟩
  | @probed _ calls rest _ hp hb hc hf =>
    obtain ⟨t', c, d, rfl, hcounts, hdiag, hstats, hledger⟩ :=
      hf.ledger fun c hc => hlegal c (List.mem_append_right _ hc)
    refine ⟨t', c, d, rfl, hcounts, hdiag, ?_, hledger.probed hb (fastFilterPath_isProbe t) hc⟩
    rw [hstats, Tally.record_stats, Option.map_map]
    apply congrArg (Option.map · t.stats)
    funext s
    rw [Function.comp_apply, List.map_append, List.append_assoc]
  | direct hp hf =>
    obtain ⟨t', c, d, rfl, hcounts, hdiag, hstats, hledger⟩ := hf.ledger hlegal
    exact ⟨t', c, d, rfl, hcounts, hdiag, hstats, hledger.direct hf.any_uncleanProbe⟩

end Runs

theorem aggregate_sends (s : List SendRecord) (d : Diag) (clock : PartitionClock) :
    (aggregateBulkStats s d clock).nSends + (aggregateBulkStats s d clock).timeoutSends +
      (aggregateBulkStats s d clock).errorSends = s.length := by
  simp only [aggregateBulkStats]
  induction s with
  | nil => rfl
  | cons r s ih =>
    simp only [List.filter_cons]
    cases r.outcome <;> simp <;> omega

theorem callRecord_outcome [NdjsonLine Line] (h : answered (c : BulkCall Line) = true) :
    (callRecord cfg c).outcome = .ok := by
  cases hr : c.2.result with
  | ok resp => simp [callRecord, sendRecord, hr]
  | error e => simp [answered, hr] at h

theorem aggregate_docsSent [NdjsonLine Line] {calls : List (BulkCall Line)}
    (h : ∀ c ∈ calls, answered c = true) (d : Diag) (clock : PartitionClock) :
    (aggregateBulkStats (calls.map (callRecord cfg)) d clock).docsSent = linesSent calls := by
  have hall : (calls.map (callRecord cfg)).filter (·.outcome = .ok) = calls.map (callRecord cfg) := by
    rw [List.filter_eq_self]
    intro r hr
    obtain ⟨c, hc, rfl⟩ := List.mem_map.mp hr
    simp only [callRecord_outcome (h c hc), decide_true]
  simp only [aggregateBulkStats, hall, List.map_map, linesSent]
  rfl

/-- The statistics of a chunk balance, whatever its sends raise and however its items end. -/
theorem bulk_stats_balance [NdjsonLine Line] {cfg : EsWriteConfig} {op : Line → OpType}
    {lines : List Line} {t : Tally} (clock : PartitionClock) (hstats : t.stats = some s₀)
    (hdiag : t.diag = some d₀) (hdel : cfg.hasDeletes = false → ∀ line ∈ lines, op line ≠ .delete)
    (hrun : (anyEnv (KeyedItems op)).Run [] (shipNdjsonChunk cfg lines t) calls out) :
    ∃ t' c d s, out = .ok t' ∧ t'.counts = t.counts + c ∧ t'.diag = some (d₀ + d) ∧
      t'.stats = some (s₀ ++ s) ∧
      let agg := aggregateBulkStats s d clock
      agg.nSends + agg.timeoutSends + agg.errorSends = calls.length ∧
      agg.diag.docsRetried = ((pendingLists calls).tail.map List.length).sum ∧
      (agg.diag.rejected429 + agg.diag.rejected409 + agg.diag.rejected4xxOther +
        agg.diag.rejected5xx : Int) = agg.diag.docsRetried + (c.errors - raisedPending calls) ∧
      agg.diag.docsDeduped ≤ c.ignored ∧
      (cfg.hasDeletes = false → agg.diag.docsDeduped = c.ignored) ∧
      ((∀ call ∈ calls, answered call = true) → agg.docsSent = lines.length +
        agg.diag.docsRetried + if calls.any uncleanProbe then lines.length else 0) := by
  obtain ⟨hchunk, hlegal⟩ := chunkRun_of_run hrun
  obtain ⟨t', c, d, rfl, hc, hd, hs, hledger⟩ := hchunk.ledger hlegal
  refine ⟨t', c, d, calls.map (callRecord cfg), rfl, hc, ?_, ?_, ?_, hledger.retried, ?_,
    hledger.deduped, fun hno => hledger.noDeletes (hdel hno), ?_⟩
  · rw [hd, hdiag, Option.map_some]
  · rw [hs, hstats, Option.map_some]
  · rw [aggregate_sends, List.length_map]
  · have hrej := hledger.rejections
    simp only [Diag.rejections] at hrej
    simp only [aggregateBulkStats]
    omega
  · intro hall
    rw [aggregate_docsSent hall]
    exact hledger.sent hall

/-- A response of the full path with these items. -/
def itemsReply (items : List Item) : BulkReply := { result := .ok { items := some items } }

/-- A probe that finds errors, a round with a throttled line, and the round of its retry. -/
def throttledCalls : List (BulkCall String) :=
  [⟨⟨["a", "b"], .errorsTook⟩, { result := .ok { errors := some true } }⟩,
    ⟨⟨["a", "b"], .tookItems⟩,
      itemsReply [some (.index, { status := some 201 }), some (.index, { status := some 429 })]⟩,
    ⟨⟨["b"], .tookItems⟩, itemsReply [some (.index, { status := some 400 })]⟩]

theorem throttledCalls_keyed : ∀ c ∈ throttledCalls, KeyedItems (fun _ => .index) c.1 c.2 := by
  intro c hc resp hresp hfp
  simp only [throttledCalls, List.mem_cons, List.not_mem_nil, or_false] at hc
  rcases hc with rfl | rfl | rfl
  · cases hfp
  · cases hresp
    exact ⟨_, rfl, .cons (show OpType.index = .index from rfl)
      (.cons (show OpType.index = .index from rfl) .nil)⟩
  · cases hresp
    exact ⟨_, rfl, .cons (show OpType.index = .index from rfl) .nil⟩

/-- One of the two lines is retried after a probe, so five lines are counted as sent. -/
theorem throttled_chunk_balances : ∃ (d : Diag) (s : List SendRecord),
    (aggregateBulkStats s d {}).nSends + (aggregateBulkStats s d {}).timeoutSends +
      (aggregateBulkStats s d {}).errorSends = 3 ∧ d.docsRetried = 1 ∧
      (aggregateBulkStats s d {}).docsSent = 5 := by
  have hkeyed := throttledCalls_keyed
  have hrun : ∃ out, (anyEnv (KeyedItems fun _ => .index)).Run []
      (shipNdjsonChunk { hosts := "h", bulkStats := true } ["a", "b"] (.start true))
      throttledCalls out :=
    ⟨_, .step ⟨hkeyed _ (.head _), rfl⟩ (.step ⟨hkeyed _ (.tail _ (.head _)), rfl⟩
      (.step ⟨hkeyed _ (.tail _ (.tail _ (.head _))), rfl⟩ (.refl _ _)))⟩
  obtain ⟨out, hrun⟩ := hrun
  obtain ⟨t', c, d, s, -, -, -, -, hsends, hretried, -, -, -, hsent⟩ :=
    bulk_stats_balance {} rfl rfl (fun _ _ _ => by decide) hrun
  have hone : d.docsRetried = 1 := hretried.trans (by decide)
  refine ⟨d, s, hsends, hone, (hsent (by decide)).trans ?_⟩
  rw [show (aggregateBulkStats s d {}).diag.docsRetried = 1 from hone]
  decide

end EsConnector
