import Mathlib.Data.List.Perm.Basic
import EsConnector.Accounting
import EsConnector.Job
import EsConnector.MergeOrder

namespace EsConnector
set_option autoImplicit true

open Interaction

variable {Line : Type}

/-- The calls of the writer itself reach the log as they are. -/
theorem serves_call (legal : BulkRequest Line → BulkReply → Prop)
    (demands : BulkRequest Line → Prop) (w : Nat) (plan : List (List Line)) :
    Serves (callEnv legal demands) (poolEnv legal (writerDemands demands w plan))
      PoolQuery.call (fun _ r => r) (fun g : WriterState Line => g.log)
      (fun g log => { g with log }) where
  asks _ _ h := h
  answers _ _ _ _ h := ⟨⟨h.1, by rw [h.2]⟩, by rw [h.2]⟩
  put_put _ _ _ := rfl
  put_view _ := rfl

/-- What a partition may ask, in either mode. -/
def partitionAsks (demands : BulkRequest Line → Prop) (cfg : EsWriteConfig)
    (batches : List (List (Option Line))) :
    WriterState Line → PoolQuery (BulkRequest Line) (List Line) → Prop :=
  if cfg.pooled then
    writerDemands demands cfg.writeConcurrency.toNat (chunkPlan cfg batches)
  else writerDemands demands 0 []

/-- A part of the accumulators that is followed through a partition: how it is seen, what a chunk
and its calls may add to it, and how that is added. -/
structure Followed (Line β δ : Type) where
  view : Tally → β
  add : β → δ → β
  adds : List Line → List (BulkCall Line) → δ → Prop

variable {β δ : Type} {F : Followed Line β δ}

/-- Merging a finished task adds to the view what the task added to its own. -/
def Followed.Merges (F : Followed Line β δ) (bulkStats : Bool) : Prop :=
  ∀ t u d, F.view u = F.add (F.view (.start bulkStats)) d → F.view (t.merge u) = F.add (F.view t) d

/-- Shipping a chunk ends without an exception and adds something of the chunk. -/
def Followed.Ships (F : Followed Line β δ) (chunk : List Line) (t : Tally)
    (log : List (BulkCall Line)) (r : ChunkResult) (log' : List (BulkCall Line)) : Prop :=
  ∃ t' calls d, r = .ok t' ∧ log' = log ++ calls ∧ F.adds chunk calls d ∧
    F.view t' = F.add (F.view t) d

/-- The view `b` and the calls are made of what the chunks of `plan` added, in some order. -/
def Followed.Made (F : Followed Line β δ) (plan : List (List Line)) (b₀ b : β)
    (calls : List (BulkCall Line)) : Prop :=
  ∃ (parts : List (List (BulkCall Line) × δ)) (order : List δ),
    List.Forall₂ (fun chunk p => F.adds chunk p.1 p.2) plan parts ∧
    order.Perm (parts.map Prod.snd) ∧ b = order.foldl F.add b₀ ∧
    calls.Perm (parts.map Prod.fst).flatten

theorem Followed.Made.nil (F : Followed Line β δ) (b : β) : F.Made [] b b [] :=
  ⟨[], [], .nil, .nil, rfl, .nil⟩

theorem Followed.Made.snoc (h : F.Made plan b₀ b calls) (ha : F.adds chunk calls' d) :
    F.Made (plan ++ [chunk]) b₀ (F.add b d) (calls ++ calls') := by
  obtain ⟨parts, order, hparts, horder, rfl, hcalls⟩ := h
  refine ⟨parts ++ [(calls', d)], order ++ [d], List.rel_append hparts (.cons ha .nil), ?_, ?_, ?_⟩
  · rw [List.map_append]
    exact horder.append_right _
  · rw [List.foldl_append]
    rfl
  · rw [List.map_append, List.flatten_append]
    simpa using hcalls.append_right calls'

theorem Followed.mergeResults_view (hF : F.Merges bulkStats)
    (h : List.Forall₂ (fun r d => ∃ u, r = .ok u ∧
      F.view u = F.add (F.view (.start bulkStats)) d) rs order)
    (hm : mergeResults rs t = .ok t') : F.view t' = order.foldl F.add (F.view t) := by
  induction h generalizing t with
  | nil =>
    cases hm
    rfl
  | cons hr _ ih =>
    obtain ⟨u, rfl, hu⟩ := hr
    rw [ih hm, hF t u _ hu, List.foldl_cons]

theorem exists_parts {r : α → β → γ → Prop} {l : List α} {l' : List β}
    (h : List.Forall₂ (fun a b => ∃ c, r a b c) l l') :
    ∃ ps : List (β × γ), List.Forall₂ (fun a p => r a p.1 p.2) l ps ∧ ps.map Prod.fst = l' := by
  induction h with
  | nil => exact ⟨[], .nil, rfl⟩
  | @cons a b l l' hr _ ih =>
    obtain ⟨c, hc⟩ := hr
    obtain ⟨ps, hps, rfl⟩ := ih
    exact ⟨(b, c) :: ps, .cons hc hps, rfl⟩

def threadResult {P : Type} {R : BulkRequest Line → Type}
    (th : Thread P (BulkRequest Line) R ChunkResult) : ChunkResult :=
  match th.rest with
  | .ret r => r
  | .ask _ _ => .error .keyError

section Runs

variable [NdjsonLine Line] {P : Type} {cfg : EsWriteConfig} {clock : PartitionClock}
  {legal : BulkRequest Line → BulkReply → Prop} {demands : BulkRequest Line → Prop}
  {batches : List (List (Option Line))}
  {x : Process P (BulkRequest Line) (fun _ => BulkReply) (List Line) ChunkResult
    (Except WriteError SummaryRow)}

/-- How a partition ends where its chunks are followed. -/
def Followed.Ends (F : Followed Line β δ) (cfg : EsWriteConfig) (clock : PartitionClock)
    (batches : List (List (Option Line))) (calls : List (BulkCall Line)) :
    Except WriteError SummaryRow → Prop
  | .error _ => BatchFault cfg batches
  | .ok row => (∀ col ∈ batches, none ∉ col) ∧ ∃ t,
      row = summaryRow (batches.map List.length).sum t clock ∧
      F.Made (chunkPlan cfg batches) (F.view (.start cfg.bulkStats)) (F.view t) calls

/-- The serial writer has followed the chunks it has shipped after each of them. -/
theorem wp_write_serial_made
    (hships : ∀ chunk ∈ chunkPlan cfg batches, ∀ t log,
      wp (callEnv legal demands) (shipNdjsonChunk cfg chunk t) (F.Ships chunk t log) log)
    (hpool : cfg.pooled = false) (clock : PartitionClock) :
    wp (poolEnv legal (writerDemands demands 0 [])) (write cfg (shipInto cfg) clock batches)
      (fun r g => match r with
        | .ok row => ∃ t, (g.submitted = [] ∧ F.Made (chunkPlan cfg batches)
              (F.view (.start cfg.bulkStats)) (F.view t) g.log) ∧
            row = summaryRow (batches.map List.length).sum t clock ∧
            ∀ col ∈ batches, none ∉ col
        | .error _ => BatchFault cfg batches) {} := by
  let J : List (List Line) → Tally → WriterState Line → Prop := fun done t g =>
    g.submitted = [] ∧ F.Made done (F.view (.start cfg.bulkStats)) (F.view t) g.log
  refine wp_write_serial J (fun _ => BatchFault cfg batches) hpool (shipInto cfg) clock batches
    ?_ (fun _ _ _ _ h => h) ⟨rfl, .nil F _⟩
  rintro done chunk t g ⟨hsub, hmade⟩ hplan
  have hchunk : chunk ∈ chunkPlan cfg batches := hplan.subset (by simp)
  apply wp_embed (serves_call legal demands 0 [])
  apply wp_mono (hships chunk hchunk t g.log)
  rintro r log' ⟨t', calls, d, rfl, rfl, ha, hview⟩
  refine ⟨hsub, ?_⟩
  rw [hview]
  exact hmade.snoc ha

theorem serial_ends
    (hships : ∀ chunk ∈ chunkPlan cfg batches, ∀ t log,
      wp (callEnv legal demands) (shipNdjsonChunk cfg chunk t) (F.Ships chunk t log) log)
    (hpool : cfg.pooled = false)
    (hsound : x.Sound legal (writerDemands demands 0 []) demands (shipOne cfg)
      (write cfg (shipInto cfg) clock batches))
    (hend : x.rest = .ret out) : F.Ends cfg clock batches x.calls out := by
  have hmain := hsound.main
  rw [hend] at hmain
  have hpost := Env.Run.ensures hmain (wp_write_serial_made hships hpool clock)
  cases out with
  | error e => exact hpost
  | ok row =>
    obtain ⟨t, ⟨hsub, hmade⟩, hrow, hnull⟩ := hpost
    have hth : x.threads = [] := List.length_eq_zero_iff.mp (by
      rw [hsound.threads_length, hsub]
      rfl)
    refine ⟨hnull, t, hrow, ?_⟩
    simpa [Process.calls, hth] using hmade

theorem pooled_plan
    (hpool : cfg.pooled = true)
    (hsound : x.Sound legal
      (writerDemands demands cfg.writeConcurrency.toNat (chunkPlan cfg batches)) demands
      (shipOne cfg) (write cfg (shipInto cfg) clock batches)) :
    x.submitted <+: chunkPlan cfg batches := by
  apply hsound.main.invariant (I := fun g => g.submitted <+: chunkPlan cfg batches)
    (wp_write_pooled hpool (shipInto cfg) clock batches) List.nil_prefix
  intro g q r g' hI hask hans
  cases q with
  | call q =>
    obtain ⟨-, rfl⟩ := hans
    exact hI
  | submit chunk =>
    obtain ⟨-, rfl⟩ := hans
    exact hask.2
  | wait pending =>
    obtain rfl := hans
    exact hI
  | shutdown =>
    obtain rfl := hans
    exact hI

theorem pooled_ends (hF : F.Merges cfg.bulkStats)
    (hships : ∀ chunk ∈ chunkPlan cfg batches, ∀ t log,
      wp (callEnv legal demands) (shipNdjsonChunk cfg chunk t) (F.Ships chunk t log) log)
    (hpool : cfg.pooled = true)
    (hsound : x.Sound legal
      (writerDemands demands cfg.writeConcurrency.toNat (chunkPlan cfg batches)) demands
      (shipOne cfg) (write cfg (shipInto cfg) clock batches))
    (hend : x.rest = .ret out) : F.Ends cfg clock batches x.calls out := by
  have hmain := hsound.main
  rw [hend] at hmain
  have hpost := Env.Run.ensures hmain (wp_write_pooled hpool (shipInto cfg) clock batches)
  have hplan := pooled_plan hpool hsound
  have hdone (p) (hp : p ∈ x.returned) : ∃ th chunk, x.threads[p.1]? = some th ∧
      x.submitted[p.1]? = some chunk ∧ F.Ships chunk (.start cfg.bulkStats) [] p.2 th.log := by
    obtain ⟨th, chunk, hth, hchunk, hr⟩ := hsound.finished hp
    have hmem := hplan.subset (List.mem_of_getElem? hchunk)
    exact ⟨th, chunk, hth, hchunk, hr.ensures (hships chunk hmem _ _)⟩
  cases out with
  | error e =>
    rcases hpost with ⟨p, hp, e, he⟩ | hf
    · obtain ⟨-, -, -, -, t', calls, d, hr, -⟩ := hdone p hp
      rw [hr] at he
      cases he
    · exact hf
  | ok row =>
    obtain ⟨t, hpooled, hrow, hnull⟩ := hpost
    have hfut : (x.returned.map Prod.fst).Perm (List.range x.threads.length) := by
      rw [hsound.threads_length, hpooled.submitted]
      simpa [hpooled.outstanding] using hpooled.futures
    have hresult (p) (hp : p ∈ x.returned) :
        (x.threads[p.1]?).map threadResult = some p.2 := by
      obtain ⟨th, hth, he⟩ := Option.map_eq_some_iff.mp (hsound.returned p hp)
      rw [hth, Option.map_some, threadResult, he]
    -- every thread has shipped its chunk, and so added something
    have hthreads : List.Forall₂ (fun chunk th => ∃ d, F.adds chunk (Thread.log th) d ∧
        ∃ u, threadResult th = .ok u ∧ F.view u = F.add (F.view (.start cfg.bulkStats)) d)
        (chunkPlan cfg batches) x.threads := by
      rw [← hpooled.submitted, List.forall₂_iff_get]
      refine ⟨by simp [hsound.threads_length], ?_⟩
      intro i hi hi'
      obtain ⟨p, hp, rfl⟩ := List.mem_map.mp (hfut.mem_iff.mpr (List.mem_range.mpr hi'))
      obtain ⟨th, chunk, hth, hchunk, u, calls, d, hr, hlog, ha, hview⟩ := hdone p hp
      have hres := hresult p hp
      rw [hth, Option.map_some, Option.some_inj, hr] at hres
      have hgetc := (List.getElem?_eq_some_iff.mp hchunk).2
      have hgett := (List.getElem?_eq_some_iff.mp hth).2
      simp only [List.get_eq_getElem, hgetc, hgett]
      rw [List.nil_append] at hlog
      exact ⟨d, hlog ▸ ha, u, hres, hview⟩
    obtain ⟨ps, hps, hthr⟩ := exists_parts hthreads
    have hresults : List.Forall₂ (fun r d => ∃ u, r = .ok u ∧
        F.view u = F.add (F.view (.start cfg.bulkStats)) d) (x.threads.map threadResult)
        (ps.map Prod.snd) := by
      rw [← hthr, List.map_map, List.forall₂_map_left_iff, List.forall₂_map_right_iff,
        List.forall₂_same]
      intro p hp
      obtain ⟨i, hi, rfl⟩ := List.getElem_of_mem hp
      have hi' : i < (chunkPlan cfg batches).length := hps.length_eq ▸ hi
      exact (hps.get hi' hi).2
    obtain ⟨order, horder, hperm⟩ := List.perm_comp_forall₂
      (perm_of_futures (f := id) hfut fun p hp => hresult p hp) hresults
    refine ⟨hnull, t, hrow, ps.map fun p => (p.1.log, p.2), order, ?_, ?_, ?_, ?_⟩
    · rw [List.forall₂_map_right_iff]
      exact hps.imp fun _ _ h => h.1
    · rw [List.map_map]
      exact hperm
    · exact F.mergeResults_view hF horder hpooled.merged
    · have hlog : x.log = [] := hpooled.log
      rw [Process.calls, hlog, List.nil_append, ← hthr, List.map_map, List.map_map]
      exact .refl _

/-- Every run of a partition follows all its chunks, in either mode. -/
theorem write_ends (hF : F.Merges cfg.bulkStats)
    (hships : ∀ chunk ∈ chunkPlan cfg batches, ∀ t log,
      wp (callEnv legal demands) (shipNdjsonChunk cfg chunk t) (F.Ships chunk t log) log)
    (hsound : x.Sound legal (partitionAsks demands cfg batches) demands (shipOne cfg)
      (write cfg (shipInto cfg) clock batches))
    (hend : x.rest = .ret out) : F.Ends cfg clock batches x.calls out := by
  rw [partitionAsks] at hsound
  cases hpool : cfg.pooled with
  | false => exact serial_ends hships hpool (by simpa [hpool] using hsound) hend
  | true => exact pooled_ends hF hships hpool (by simpa [hpool] using hsound) hend

end Runs

end EsConnector
