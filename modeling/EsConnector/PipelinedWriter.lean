import EsConnector.Alone
import EsConnector.ShipFrame

namespace EsConnector
set_option autoImplicit true

open Interaction

variable {Line : Type}

/-- A worker whose outcome is a function of its chunk. -/
def workerOf (f : List Line → ChunkResult) (chunk : List Line) : BulkProg Line ChunkResult :=
  .ret (f chunk)

/-- An environment in which the outcome of a chunk is a function of the chunk: whatever came before,
the calls for the chunk are answered so that empty accumulators end as `f` says. -/
structure OutcomesAre [NdjsonLine Line] (E : BulkEnv C Line) (cfg : EsWriteConfig)
    (plan : List (List Line)) (f : List Line → ChunkResult) (I : C → Prop) : Prop where
  answered : ∀ s q, E.asks s q ∧ ∃ r s', E.answers s q r s'
  outcome : ∀ s, I s → ∀ chunk ∈ plan, ∀ s' result, E.Run s (shipOne cfg chunk) s' result →
    result = f chunk ∧ I s'

/-- The bookkeeping of the pool at any point of a run. -/
structure InFlight (w : Nat) (plan : List (List Line)) (g : WriterState Line) : Prop where
  bound : g.outstanding.length ≤ w
  order : g.submitted <+: plan
  futures : (g.returned.map Prod.fst ++ g.outstanding).Perm (List.range g.submitted.length)

theorem InFlight.step (h : InFlight w plan g) (ha : writerDemands demands w plan g q)
    (hr : (poolEnv legal (writerDemands demands w plan)).answers g q r g') :
    InFlight w plan g' := by
  cases q with
  | call req =>
    obtain ⟨-, rfl⟩ := hr
    exact ⟨h.bound, h.order, h.futures⟩
  | submit chunk =>
    obtain ⟨-, rfl⟩ := hr
    obtain ⟨hlt, hp⟩ := ha
    refine ⟨?_, hp, ?_⟩
    · rw [List.length_append, List.length_singleton]
      omega
    · rw [List.length_append, List.length_singleton, List.range_succ, ← List.append_assoc]
      exact h.futures.append_right _
  | wait pending =>
    obtain rfl := hr
    obtain ⟨rfl, -⟩ := ha
    have hlen := r.split.length_eq
    rw [List.length_append, List.length_map] at hlen
    refine ⟨le_trans (by dsimp only; omega) h.bound, h.order, ?_⟩
    rw [List.map_append, List.append_assoc]
    exact (r.split.append_left _).trans h.futures
  | shutdown =>
    obtain rfl := hr
    exact h

section Runs

variable [NdjsonLine Line] {S P : Type} {V : Server S P (BulkRequest Line) (fun _ => BulkReply)}
  {cfg : EsWriteConfig} {f : List Line → ChunkResult} {clock : PartitionClock}
  {batches : List (List (Option Line))}
  {x : Process P (BulkRequest Line) (fun _ => BulkReply) (List Line) ChunkResult
    (Except WriteError SummaryRow)}

/-- What is known of a pipelined partition at any point of a run: the writer makes no call of its
own, and the workers do what `f` says. -/
abbrev Piped (cfg : EsWriteConfig) (f : List Line → ChunkResult) (clock : PartitionClock)
    (batches : List (List (Option Line)))
    (x : Process P (BulkRequest Line) (fun _ => BulkReply) (List Line) ChunkResult
      (Except WriteError SummaryRow)) : Prop :=
  x.Sound (fun _ _ => True)
    (writerDemands (fun _ => False) cfg.writeConcurrency.toNat (chunkPlan cfg batches))
    (fun _ => False) (workerOf f) (write cfg (shipInto cfg) clock batches)

theorem Piped.thread_done (h : Piped cfg f clock batches x) {i : Nat}
    {th : Thread P (BulkRequest Line) (fun _ => BulkReply) ChunkResult}
    (hth : x.threads[i]? = some th) (hchunk : x.submitted[i]? = some chunk) :
    th.rest = .ret (f chunk) := by
  exact (Process.Sound.threads h i th chunk hth hchunk).of_ret.2

theorem Piped.result (h : Piped cfg f clock batches x) (hp : p ∈ x.returned) :
    ∃ chunk, x.submitted[p.1]? = some chunk ∧ p.2 = f chunk := by
  obtain ⟨th, chunk, hth, hchunk, -⟩ := Process.Sound.finished h hp
  have hret := Process.Sound.returned h p hp
  rw [hth, Option.map_some, h.thread_done hth hchunk] at hret
  exact ⟨chunk, hchunk, (Prog.ret.inj (Option.some_inj.mp hret)).symm⟩

theorem Piped.inFlight (h : Piped cfg f clock batches x) (hpool : cfg.pooled = true) :
    InFlight cfg.writeConcurrency.toNat (chunkPlan cfg batches) x.toPoolState :=
  (Process.Sound.main h).invariant (wp_write_pooled hpool (shipInto cfg) clock batches)
    ⟨Nat.zero_le _, List.nil_prefix, .nil⟩ fun _ _ _ _ hI ha hr => hI.step ha hr

/-- Whatever is still to be done, the workers' results let the writer go on to its end. -/
theorem Piped.completes (hpool : cfg.pooled = true) (h : Piped cfg f clock batches x) (s : S) :
    ∃ x' : Process P (BulkRequest Line) (fun _ => BulkReply) (List Line) ChunkResult
        (Except WriteError SummaryRow),
      Relation.ReflTransGen (fun a b => V.ProcessStep (workerOf f) a.1 a.2 b.1 b.2)
        (s, x) (s, x') ∧ ∃ out, x'.rest = .ret out := by
  have hwp := @wp_write_pooled Line (fun _ _ => True) (fun _ => False) cfg hpool
    (shipInto cfg) clock batches
  generalize hrest : x.rest = rest
  induction rest generalizing x with
  | ret out => exact ⟨x, .refl, out, hrest⟩
  | ask q k ih =>
    have hmain := Process.Sound.main h
    rw [hrest] at hmain
    have hask := hmain.asks hwp
    have hnext (x') (hstep : V.ProcessStep (workerOf f) s x s x') (r) (hr : x'.rest = k r) :
        ∃ x'' : Process P (BulkRequest Line) (fun _ => BulkReply) (List Line) ChunkResult
            (Except WriteError SummaryRow),
          Relation.ReflTransGen (fun a b => V.ProcessStep (workerOf f) a.1 a.2 b.1 b.2)
            (s, x) (s, x'') ∧ ∃ out, x''.rest = .ret out := by
      obtain ⟨x'', hsteps, hout⟩ := ih r (Process.Sound.step (fun _ _ _ _ _ => trivial) h hstep) hr
      exact ⟨x'', .head hstep hsteps, hout⟩
    have hlen := Process.Sound.threads_length h
    cases q with
    | call req => exact hask.elim
    | submit chunk => exact hnext _ (.submit hrest) _ rfl
    | wait pending =>
      obtain ⟨rfl, hne⟩ := hask
      let c : Completion x.outstanding ChunkResult :=
        { done := x.outstanding.map fun i => (i, f (x.submitted.getD i []))
          notDone := []
          done_ne_nil := by simpa using hne
          split := by simp [Function.comp_def] }
      refine hnext _ (.wait hrest c ?_) c rfl
      intro p hp
      obtain ⟨i, hi, rfl⟩ := List.mem_map.mp hp
      have hlt : i < x.submitted.length :=
        List.mem_range.mp ((h.inFlight hpool).futures.mem_iff.mp (List.mem_append_right _ hi))
      have hth := List.getElem?_eq_getElem (hlen ▸ hlt)
      rw [hth, Option.map_some, h.thread_done hth (List.getElem?_eq_getElem hlt)]
      simp [List.getD_eq_getElem?_getD, List.getElem?_eq_getElem hlt]
    | shutdown =>
      refine hnext _ (.shutdown hrest ?_) () rfl
      intro th hth
      obtain ⟨i, hi, rfl⟩ := List.getElem_of_mem hth
      have hlt : i < x.submitted.length := hlen ▸ hi
      exact ⟨_, h.thread_done (List.getElem?_eq_getElem hi) (List.getElem?_eq_getElem hlt)⟩

/-- The outcome of a partition whose chunks have outcomes of their own. -/
def Yielded (cfg : EsWriteConfig) (f : List Line → ChunkResult)
    (batches : List (List (Option Line))) : Prop :=
  (∀ chunk ∈ chunkPlan cfg batches, ∃ u, f chunk = .ok u) ∧ ∀ col ∈ batches, none ∉ col

omit [NdjsonLine Line] in
theorem not_yielded_of_error (hcs : 1 ≤ cfg.chunkSize)
    (h : (∃ chunk ∈ chunkPlan cfg batches, ∃ e, f chunk = .error e) ∨ BatchFault cfg batches) :
    ¬Yielded cfg f batches := by
  rintro ⟨hok, hnull⟩
  rcases h with ⟨chunk, hc, e, he⟩ | ⟨col, hc, hn⟩ | h0
  · obtain ⟨u, hu⟩ := hok chunk hc
    rw [hu] at he
    cases he
  · exact hnull col hc hn
  · omega

theorem fresh_of_merged {t : Tally} {l : List ChunkResult}
    (h : mergeResults l (.start cfg.bulkStats) = .ok t) :
    t.errorSamples.length ≤ errorSampleCap ∧ t.fresh = .start cfg.bulkStats := by
  constructor
  · rw [mergeResults_samples h (Nat.zero_le _)]
    exact Nat.min_le_left ..
  · ext1
    · rfl
    · rfl
    · rw [Tally.fresh, mergeResults_stats h, Option.map_map, Tally.start]
      cases cfg.bulkStats <;> rfl
    · rw [Tally.fresh, mergeResults_diag h, Option.map_map, Tally.start]
      cases cfg.bulkStats <;> rfl

section Serial

variable {C : Type} {E : BulkEnv C Line} {I : C → Prop} {c₀ c₁ : C}

/-- A chunk that is shipped into the shared accumulators adds its outcome to them. -/
theorem OutcomesAre.ship (h : OutcomesAre E cfg plan f I) {done : List (List Line)} {t : Tally}
    {c : C} (hc : I c) (ht : mergeResults (done.map f) (.start cfg.bulkStats) = .ok t)
    (hchunk : chunk ∈ plan) :
    wp E.callsOnly (shipInto cfg chunk t) (fun result c' =>
      result = (f chunk).map t.merge ∧ I c') c := by
  obtain ⟨hsamples, hfresh⟩ := fresh_of_merged ht
  apply wp_embed (serves_callsOnly _) (s := c)
  rw [shipNdjsonChunk_serial cfg chunk t hsamples, hfresh, wp_bind]
  apply wp_of_run fun s q => (h.answered s q).1
  intro c' result hrun
  obtain ⟨rfl, hc'⟩ := h.outcome c hc chunk hchunk c' result hrun
  exact ⟨rfl, hc'⟩

/-- The serial writer ships the chunks in order, each into the accumulators that the ones before it
have left. -/
theorem wp_serial_write (h : OutcomesAre E cfg (chunkPlan cfg batches) f I) (hc : I c₀)
    (hcs : 1 ≤ cfg.chunkSize) (hpool : cfg.pooled = false) (clock : PartitionClock) :
    wp E.callsOnly (write cfg (shipInto cfg) clock batches) (fun out _ =>
      match out with
      | .ok row => Yielded cfg f batches ∧ ∃ t,
          mergeResults ((chunkPlan cfg batches).map f) (.start cfg.bulkStats) = .ok t ∧
          row = summaryRow (batches.map List.length).sum t clock
      | .error _ => ¬Yielded cfg f batches) c₀ := by
  let J : List (List Line) → Tally → C → Prop := fun done t c =>
    I c ∧ mergeResults (done.map f) (.start cfg.bulkStats) = .ok t
  let fault : C → Prop := fun _ =>
    (∃ chunk ∈ chunkPlan cfg batches, ∃ e, f chunk = .error e) ∨ BatchFault cfg batches
  apply wp_mono (wp_write_serial J fault hpool (shipInto cfg) clock batches ?_
    (fun _ _ _ _ hf => .inr hf) ⟨hc, rfl⟩)
  · intro out c hpost
    cases out with
    | error e => exact not_yielded_of_error hcs hpost
    | ok row =>
      obtain ⟨t, ⟨-, ht⟩, hrow, hnull⟩ := hpost
      refine ⟨⟨?_, hnull⟩, t, ht, hrow⟩
      intro chunk hchunk
      exact mergeResults_ok ht _ (List.mem_map_of_mem hchunk)
  · intro done chunk t c hJ hp
    obtain ⟨hI, ht⟩ := hJ
    have hchunk : chunk ∈ chunkPlan cfg batches :=
      hp.subset (List.mem_append_right _ (List.mem_singleton_self _))
    apply wp_mono (h.ship hI ht hchunk)
    intro result c' hresult
    obtain ⟨rfl, hI'⟩ := hresult
    have hmerge : mergeResults ((done ++ [chunk]).map f) (.start cfg.bulkStats) =
        mergeResults [f chunk] t := by
      rw [List.map_append, mergeResults_append, ht]
      rfl
    cases hf : f chunk with
    | error e =>
      exact .inl ⟨chunk, hchunk, e, hf⟩
    | ok u =>
      rw [hf] at hmerge
      exact ⟨hI', hmerge⟩

theorem exists_serial_run (h : OutcomesAre E cfg (chunkPlan cfg batches) f I) (hc : I c₀)
    (hcs : 1 ≤ cfg.chunkSize) (hpool : cfg.pooled = false) (clock : PartitionClock) :
    ∃ c₁ out, E.callsOnly.Run c₀ (write cfg (shipInto cfg) clock batches) c₁ out := by
  apply exists_run_of_wp _ (wp_serial_write h hc hcs hpool clock)
  intro s q hq
  cases q with
  | call q => exact (h.answered s q).2
  | _ => exact hq.elim

end Serial

/-- A pipelined partition that has come to its end. -/
theorem Piped.outcome (hcs : 1 ≤ cfg.chunkSize) (hpool : cfg.pooled = true)
    (h : Piped cfg f clock batches x) (hend : x.rest = .ret out) :
    match out with
    | .ok row => Yielded cfg f batches ∧ ∃ t,
        mergeResults (x.returned.map Prod.snd) (.start cfg.bulkStats) = .ok t ∧
        (x.returned.map Prod.snd).Perm ((chunkPlan cfg batches).map f) ∧
        row = summaryRow (batches.map List.length).sum t clock
    | .error _ => ¬Yielded cfg f batches := by
  have hmain := Process.Sound.main h
  have hin := h.inFlight hpool
  rw [hend] at hmain
  have hpost := Env.Run.ensures hmain (wp_write_pooled hpool (shipInto cfg) clock batches)
  cases out with
  | error e =>
    apply not_yielded_of_error hcs
    rcases hpost with ⟨p, hp, e, he⟩ | hf
    · obtain ⟨chunk, hchunk, hres⟩ := h.result hp
      exact .inl ⟨chunk, hin.order.subset (List.mem_of_getElem? hchunk), e, hres ▸ he⟩
    · exact .inr hf
  | ok row =>
    obtain ⟨t, hpooled, hrow, hnull⟩ := hpost
    have hfut : (x.returned.map Prod.fst).Perm (List.range (chunkPlan cfg batches).length) := by
      simpa [hpooled.outstanding] using hpooled.futures
    have hperm := perm_of_futures (f := id) (g := f) hfut fun p hp => by
      obtain ⟨chunk, hchunk, hres⟩ := h.result hp
      rw [hpooled.submitted] at hchunk
      rw [hchunk, hres]
      rfl
    refine ⟨⟨?_, hnull⟩, t, hpooled.merged, hperm, hrow⟩
    intro chunk hc
    exact mergeResults_ok hpooled.merged _ (hperm.mem_iff.mpr (List.mem_map_of_mem hc))

/-- The writer with `write_concurrency=1`. -/
def EsWriteConfig.serial (cfg : EsWriteConfig) : EsWriteConfig := { cfg with writeConcurrency := 1 }

/-- Pipelining is not observable. At any point of any run at most `write_concurrency` futures are
outstanding, the chunks have been submitted in order, and no future has come back twice. The run can
be completed, and a completed one yields a row exactly when every chunk has an outcome and no line is
null. So does the serial writer, which ships the same chunks one after the other into shared
accumulators, and then the totals are the same. -/
theorem pipelined_is_serial (f : List Line → ChunkResult) (hcs : 1 ≤ cfg.chunkSize)
    (hw : 2 ≤ cfg.writeConcurrency)
    (hrun : V.Run (workerOf f) (write cfg (shipInto cfg) clock batches) s s' x) :
    (x.outstanding.length : Int) ≤ cfg.writeConcurrency ∧
    x.submitted <+: chunkPlan cfg batches ∧
    (x.returned.map Prod.fst).Nodup ∧
    (∀ p ∈ x.returned, ∃ chunk, x.submitted[p.1]? = some chunk ∧ p.2 = f chunk) ∧
    (∃ (x' : Process P (BulkRequest Line) (fun _ => BulkReply) (List Line) ChunkResult
        (Except WriteError SummaryRow)),
      Relation.ReflTransGen (fun a b => V.ProcessStep (workerOf f) a.1 a.2 b.1 b.2)
        (s', x) (s', x') ∧ ∃ out, x'.rest = .ret out) ∧
    ∀ out : Except WriteError SummaryRow, x.rest = .ret out →
      ((∃ row, out = .ok row) ↔
        (∀ chunk ∈ chunkPlan cfg batches, ∃ u, f chunk = .ok u) ∧ ∀ col ∈ batches, none ∉ col) ∧
      ∀ (C : Type) (E : BulkEnv C Line) (I : C → Prop) (c₀ : C) (clock₁ : PartitionClock),
        OutcomesAre E cfg.serial (chunkPlan cfg batches) f I → I c₀ →
        (∃ c₁ out₁, E.callsOnly.Run c₀ (write cfg.serial (shipInto cfg.serial) clock₁ batches)
          c₁ out₁) ∧
        ∀ c₁ out₁, E.callsOnly.Run c₀ (write cfg.serial (shipInto cfg.serial) clock₁ batches)
            c₁ out₁ →
          ((∃ row, out = .ok row) ↔ ∃ row₁, out₁ = .ok row₁) ∧
          ∀ row row₁, out = .ok row → out₁ = .ok row₁ → ∃ t t₁,
            mergeResults (x.returned.map Prod.snd) (.start cfg.bulkStats) = .ok t ∧
            row = summaryRow (batches.map List.length).sum t clock ∧
            row₁ = summaryRow (batches.map List.length).sum t₁ clock₁ ∧
            t.SameTotals t₁ := by
  have hpool : cfg.pooled = true := decide_eq_true (by omega)
  have h : Piped cfg f clock batches x := .run (fun _ _ _ _ _ => trivial) hrun
  have hin := h.inFlight hpool
  have hnodup := hin.futures.nodup_iff.mpr List.nodup_range
  refine ⟨?_, hin.order, (List.nodup_append.mp hnodup).1, fun p hp => h.result hp,
    h.completes hpool s', ?_⟩
  · have := hin.bound
    omega
  · intro out hend
    have hout := h.outcome hcs hpool hend
    constructor
    · cases out with
      | error e => exact iff_of_false (by simp) hout
      | ok row => exact iff_of_true ⟨row, rfl⟩ hout.1
    · intro C E I c₀ clock₁ hE hc
      have hserial := wp_serial_write hE hc hcs rfl clock₁
      refine ⟨exists_serial_run hE hc hcs rfl clock₁, fun c₁ out₁ hrun₁ => ?_⟩
      have hout₁ := hrun₁.ensures hserial
      constructor
      · cases out with
        | error e =>
          cases out₁ with
          | error e₁ => simp
          | ok row₁ => exact absurd hout₁.1 hout
        | ok row =>
          cases out₁ with
          | error e₁ => exact absurd hout.1 hout₁
          | ok row₁ => simp
      · intro row row₁ hrow hrow₁
        subst hrow hrow₁
        obtain ⟨-, t, ht, hperm, hrow⟩ := hout
        obtain ⟨-, t₁, ht₁, hrow₁⟩ := hout₁
        exact ⟨t, t₁, ht, hrow, hrow₁, mergeResults_perm hperm (Nat.zero_le _) ht ht₁⟩

end Runs

section Example

/-- A cluster that takes every line but `b`. -/
def pickyReply (q : BulkRequest String) : BulkReply where
  result := .ok {
    errors := some (q.operations.contains "b")
    items := some (q.operations.map fun line =>
      if line = "b" then some (.index, { status := some 400, error := some (.text "bad") })
      else some (.index, { status := some 201 })) }

def pipelinedConfig : EsWriteConfig := { hosts := "h", writeConcurrency := 2, chunkSize := 1 }

/-- The outcome of a chunk there. -/
def pickyOutcome (chunk : List String) : ChunkResult :=
  ((shipOne pipelinedConfig chunk).eval pickyReply).1

/-- Two sends in flight, one of them rejected, which complete in one go and in reverse order: the
serial writer counts the same. -/
theorem pipelined_is_serial_reversed :
    ∃ c₁ row₁, (fixedEnv pickyReply).callsOnly.Run ()
      (write pipelinedConfig.serial (shipInto pipelinedConfig.serial) {} [[some "a", some "b"]]) c₁
        (.ok row₁) ∧ row₁.written = some 1 ∧ row₁.errors = some 1 := by
  let V : Server Unit Unit (BulkRequest String) (fun _ => BulkReply) :=
    ⟨fun _ => (), fun _ _ _ _ _ => False, fun _ _ _ _ => False⟩
  let bad : Tally :=
    { counts := { errors := 1 }, errorSamples := [⟨none, .index, some 400, "bad"⟩] }
  let c : Completion [0, 1] ChunkResult :=
    ⟨[(1, .ok bad), (0, .ok { counts := { written := 1 } })], [], by simp, by decide⟩
  have h₀ := Server.Run.start V (workerOf pickyOutcome)
    (write pipelinedConfig (shipInto pipelinedConfig) {} [[some "a", some "b"]]) ()
  have h₁ := h₀.step (.submit rfl)
  have h₂ := h₁.step (.submit rfl)
  have h₃ := h₂.step (.wait rfl c fun p hp => by
    rcases List.mem_pair.mp hp with rfl | rfl <;> rfl)
  have h₄ := h₃.step (.shutdown rfl fun th hth => by
    rcases List.mem_pair.mp hth with rfl | rfl <;> exact ⟨_, rfl⟩)
  obtain ⟨-, -, -, -, -, hend⟩ := pipelined_is_serial pickyOutcome (by decide) (by decide) h₄
  obtain ⟨-, hserial⟩ := hend (.ok (summaryRow 2 (bad.merge { counts := { written := 1 } }) {})) rfl
  have hE : OutcomesAre (fixedEnv pickyReply) pipelinedConfig.serial
      (chunkPlan pipelinedConfig [[some "a", some "b"]]) pickyOutcome fun _ => True := by
    refine ⟨fun _ q => ⟨trivial, pickyReply q, (), rfl⟩, fun _ _ chunk hchunk _ result hrun => ?_⟩
    have hresult := fixedEnv_run hrun
    rcases List.mem_pair.mp hchunk with rfl | rfl <;> exact ⟨hresult, trivial⟩
  obtain ⟨⟨c₁, out₁, hrun₁⟩, hsame⟩ := hserial Unit _ _ () {} hE trivial
  obtain ⟨hyields, htotals⟩ := hsame c₁ out₁ hrun₁
  obtain ⟨row₁, rfl⟩ := hyields.mp ⟨_, rfl⟩
  obtain ⟨t, t₁, -, hrow, rfl, hcounts⟩ := htotals _ _ rfl rfl
  have hwritten : some 1 = some t.counts.written := congrArg SummaryRow.written hrow
  have herrors : some 1 = some t.counts.errors := congrArg SummaryRow.errors hrow
  rw [hcounts.counts] at hwritten herrors
  exact ⟨c₁, _, hrun₁, hwritten.symm, herrors.symm⟩

end Example

end EsConnector
