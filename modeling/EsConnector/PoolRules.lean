import EsConnector.WriterRules

namespace EsConnector
set_option autoImplicit true

open Interaction

variable {Line C : Type}

/-- What a partition has done so far. -/
abbrev WriterState (Line : Type) : Type :=
  PoolState (BulkRequest Line) (fun _ => BulkReply) (List Line) ChunkResult

/-- What is demanded of the writer: less than `w` futures are outstanding when it submits, it
submits the chunks of `plan` one after the other, and it waits for exactly the outstanding
futures, of which there is one. -/
def writerDemands (demands : BulkRequest Line → Prop) (w : Nat) (plan : List (List Line))
    (g : WriterState Line) : PoolQuery (BulkRequest Line) (List Line) → Prop
  | .call req => demands req
  | .submit chunk => g.outstanding.length < w ∧ g.submitted ++ [chunk] <+: plan
  | .wait pending => pending = g.outstanding ∧ pending ≠ []
  | .shutdown => True

theorem mergeResults_append (l l' : List ChunkResult) (t : Tally) :
    mergeResults (l ++ l') t = (mergeResults l t).bind (mergeResults l') := by
  induction l generalizing t with
  | nil => rfl
  | cons r l ih =>
    cases r with
    | error e => rfl
    | ok u => exact ih _

theorem mergeResults_error (h : mergeResults l t = .error e) : .error e ∈ l := by
  induction l generalizing t with
  | nil => cases h
  | cons r l ih =>
    cases r with
    | error e' =>
      cases h
      exact List.mem_cons_self
    | ok u => exact List.mem_cons_of_mem _ (ih h)

theorem mergeResults_ok (h : mergeResults l t = .ok t') : ∀ r ∈ l, ∃ u, r = .ok u := by
  induction l generalizing t with
  | nil => exact fun r hr => absurd hr List.not_mem_nil
  | cons r l ih =>
    cases r with
    | error e => cases h
    | ok u =>
      intro r hr
      rcases List.mem_cons.mp hr with rfl | hr
      · exact ⟨u, rfl⟩
      · exact ih h r hr

/-- The invariant of the pooled writer once the chunks `dealt` have been submitted. -/
structure Pooled (t₀ : Tally) (dealt : List (List Line)) (s : Shipper) (g : WriterState Line) :
    Prop where
  log : g.log = []
  submitted : g.submitted = dealt
  outstanding : g.outstanding = s.pending
  futures : (g.returned.map Prod.fst ++ g.outstanding).Perm (List.range dealt.length)
  merged : mergeResults (g.returned.map Prod.snd) t₀ = .ok s.tally

/-- A partition fails because a worker raised or because of one of its batches. -/
def PoolFailure (fault : Prop) (g : WriterState Line) : Prop :=
  (∃ p ∈ g.returned, ∃ e, p.2 = .error e) ∨ fault

section Rules

variable {legal : BulkRequest Line → BulkReply → Prop} {demands : BulkRequest Line → Prop}
  {w : Nat} {plan : List (List Line)}

theorem wp_drainOne (fault : Prop) (h : Pooled t₀ dealt s g) (hne : s.pending ≠ []) :
    wp (poolEnv legal (writerDemands demands w plan)) (drainOne s)
      (fun r g' => match r with
        | .ok s' => Pooled t₀ dealt s' g' ∧ s'.pending.length < s.pending.length
        | .error _ => PoolFailure fault g') g := by
  rw [drainOne, wp_bind]
  refine ⟨⟨h.outstanding.symm, hne⟩, ?_⟩
  intro c g' hr
  obtain rfl := hr
  have hlen := c.split.length_eq
  have hpos := List.length_pos_iff.mpr c.done_ne_nil
  rw [List.length_append, List.length_map] at hlen
  rw [wp_ret]
  cases hm : mergeResults (c.done.map Prod.snd) s.tally with
  | error e =>
    obtain ⟨p, hp, he⟩ := List.mem_map.mp (mergeResults_error hm)
    exact .inl ⟨p, List.mem_append_right _ hp, e, he⟩
  | ok tally =>
    refine ⟨⟨h.log, h.submitted, rfl, ?_, ?_⟩, by dsimp only; omega⟩
    · refine List.Perm.trans ?_ h.futures
      rw [h.outstanding, List.map_append, List.append_assoc]
      exact List.Perm.append_left _ c.split
    · rw [List.map_append, mergeResults_append, h.merged]
      exact hm

theorem wp_drainWhile (fault : Prop) (hb : 0 < bound) (hf : s.pending.length ≤ fuel)
    (h : Pooled t₀ dealt s g) :
    wp (poolEnv legal (writerDemands demands w plan)) (drainWhile bound fuel s)
      (fun r g' => match r with
        | .ok s' => Pooled t₀ dealt s' g' ∧ s'.pending.length < bound
        | .error _ => PoolFailure fault g') g := by
  induction fuel generalizing s g with
  | zero => exact ⟨h, by omega⟩
  | succ fuel ih =>
    rw [drainWhile]
    split
    · next hle =>
      have hne : s.pending ≠ [] := List.length_pos_iff.mp (by omega)
      rw [wp_bind]
      apply wp_mono (wp_drainOne fault h hne)
      intro r g' hr
      cases r with
      | error e => exact hr
      | ok s' => exact ih (by omega) hr.1
    · exact ⟨h, by omega⟩

theorem wp_submitChunks (fault : Prop) (hw : 0 < w) (hp : dealt ++ chunks <+: plan)
    (h : Pooled t₀ dealt s g) :
    wp (poolEnv legal (writerDemands demands w plan)) (submitChunks w chunks s)
      (fun r g' => match r with
        | .ok s' => Pooled t₀ (dealt ++ chunks) s' g'
        | .error _ => PoolFailure fault g') g := by
  induction chunks generalizing dealt s g with
  | nil =>
    rw [List.append_nil]
    exact h
  | cons chunk rest ih =>
    rw [submitChunks, wp_bind]
    apply wp_mono (wp_drainWhile fault hw le_rfl h)
    intro r g' hr
    cases r with
    | error e => exact hr
    | ok s' =>
      obtain ⟨h', hlt⟩ := hr
      have hsplit : dealt ++ chunk :: rest = (dealt ++ [chunk]) ++ rest := by simp
      rw [wp_bind]
      refine ⟨⟨?_, ?_⟩, ?_⟩
      · rw [h'.outstanding]
        exact hlt
      · rw [h'.submitted]
        exact (List.prefix_append _ _).trans (hsplit ▸ hp)
      · intro future g'' ha
        obtain ⟨rfl, rfl⟩ := ha
        rw [hsplit]
        refine ih (hsplit ▸ hp) ⟨h'.log, ?_, ?_, ?_, h'.merged⟩
        · exact congrArg (· ++ [chunk]) h'.submitted
        · exact congrArg (· ++ [g'.submitted.length]) h'.outstanding
        · rw [List.length_append, List.length_singleton, List.range_succ, ← List.append_assoc,
            ← h'.submitted]
          exact (h'.submitted ▸ h'.futures).append_right _

/-- The outcome of a pooled partition: either a summary row made of the results of all its
chunks, or a failure with a cause. -/
theorem wp_write_pooled (hpool : cfg.pooled = true) (ship : ShipInto Line)
    (clock : PartitionClock) (batches : List (List (Option Line))) :
    wp (poolEnv legal (writerDemands demands cfg.writeConcurrency.toNat (chunkPlan cfg batches)))
      (write cfg ship clock batches)
      (fun r g => match r with
        | .ok row => ∃ t, Pooled (.start cfg.bulkStats) (chunkPlan cfg batches) { tally := t } g ∧
            row = summaryRow (batches.map List.length).sum t clock ∧
            ∀ col ∈ batches, none ∉ col
        | .error _ => PoolFailure (BatchFault cfg batches) g) {} := by
  have hw : 0 < cfg.writeConcurrency.toNat := by
    simp only [EsWriteConfig.pooled, decide_eq_true_eq] at hpool
    omega
  have hstart : Pooled (.start cfg.bulkStats) ([] : List (List Line))
      { tally := .start cfg.bulkStats } {} := ⟨rfl, rfl, rfl, .nil, rfl⟩
  rw [write, wp_bind, writeBody, wp_bind]
  refine wp_mono (wp_writeBatches (Pooled (.start cfg.bulkStats))
    (fun _ => PoolFailure (BatchFault cfg batches)) ?_ ?_ hstart) ?_
  · intro dealt chunks s g hK hp
    rw [List.nil_append] at hp
    simp only [shipChunks, if_pos hpool]
    exact wp_submitChunks _ hw hp hK
  · intro e dealt s g _ hf
    exact .inr hf
  · intro r g hr
    simp only [hpool, if_true]
    cases r with
    | error e =>
      rw [wp_pure, wp_bind]
      exact ⟨trivial, fun _ g' hg => hg ▸ hr⟩
    | ok s =>
      obtain ⟨hK, ht, hn⟩ := hr
      rw [List.nil_append] at hK
      simp only [wp_bind]
      apply wp_mono (wp_drainWhile (BatchFault cfg batches) Nat.one_pos le_rfl hK)
      intro r g' hr
      cases r with
      | error e => exact ⟨trivial, fun _ g'' hg => hg ▸ hr⟩
      | ok s' =>
        refine ⟨trivial, ?_⟩
        intro _ g'' hg
        have hnil : s'.pending = [] := List.length_eq_zero_iff.mp (by omega)
        obtain ⟨pending, tally⟩ := s'
        cases hnil
        refine ⟨tally, hg ▸ hr.1, ?_, hn⟩
        dsimp only
        rw [ht, Nat.zero_add]

/-- The invariant rule of the serial loop over the slices of a batch. -/
theorem wp_shipSerially
    {E : Env C (PoolQuery (BulkRequest Line) (List Line))
      (PoolQuery.Reply (fun _ => BulkReply) ChunkResult)}
    {J : List (List Line) → Tally → C → Prop} {fail : C → Prop} {ship : ShipInto Line}
    (hship : ∀ done chunk t g, J done t g → done ++ [chunk] <+: plan →
      wp E (ship chunk t) (fun r g' => match r with
        | .ok t' => J (done ++ [chunk]) t' g'
        | .error _ => fail g') g)
    (hp : done ++ chunks <+: plan) (h : J done s.tally g) :
    wp E (shipSerially ship chunks s)
      (fun r g' => match r with
        | .ok s' => J (done ++ chunks) s'.tally g'
        | .error _ => fail g') g := by
  induction chunks generalizing done s g with
  | nil =>
    rw [List.append_nil]
    exact h
  | cons chunk rest ih =>
    have hsplit : done ++ chunk :: rest = (done ++ [chunk]) ++ rest := by simp
    rw [shipSerially, wp_bind]
    apply wp_mono (hship done chunk s.tally g h
      ((List.prefix_append _ _).trans (hsplit ▸ hp)))
    intro r g' hr
    cases r with
    | error e => exact hr
    | ok t =>
      rw [hsplit]
      exact ih (s := { s with tally := t }) (hsplit ▸ hp) hr

/-- The invariant rule of the serial writer: `J` holds of the chunks shipped so far. -/
theorem wp_write_serial
    {E : Env C (PoolQuery (BulkRequest Line) (List Line))
      (PoolQuery.Reply (fun _ => BulkReply) ChunkResult)}
    (J : List (List Line) → Tally → C → Prop) (fail : C → Prop) {g : C}
    (hpool : cfg.pooled = false) (ship : ShipInto Line) (clock : PartitionClock)
    (batches : List (List (Option Line)))
    (hship : ∀ done chunk t g, J done t g → done ++ [chunk] <+: chunkPlan cfg batches →
      wp E (ship chunk t) (fun r g' => match r with
        | .ok t' => J (done ++ [chunk]) t' g'
        | .error _ => fail g') g)
    (hfault : ∀ done t g, J done t g → BatchFault cfg batches → fail g)
    (h : J [] (.start cfg.bulkStats) g) :
    wp E (write cfg ship clock batches)
      (fun r g => match r with
        | .ok row => ∃ t, J (chunkPlan cfg batches) t g ∧
            row = summaryRow (batches.map List.length).sum t clock ∧
            ∀ col ∈ batches, none ∉ col
        | .error _ => fail g) g := by
  rw [write, wp_bind, writeBody, wp_bind]
  refine wp_mono (wp_writeBatches (fun done s => J done s.tally) (fun _ => fail) ?_ ?_ h) ?_
  · intro done chunks s g hK hp
    rw [List.nil_append] at hp
    simp only [shipChunks, hpool, Bool.false_eq_true, if_false]
    exact wp_shipSerially hship hp hK
  · intro e done s g hK hf
    exact hfault done s.tally g hK hf
  · intro r g hr
    simp only [hpool, Bool.false_eq_true, if_false]
    cases r with
    | error e => exact hr
    | ok s =>
      obtain ⟨hK, ht, hn⟩ := hr
      rw [List.nil_append] at hK
      refine ⟨s.shipper.tally, hK, ?_, hn⟩
      rw [ht, Nat.zero_add]

end Rules

end EsConnector
