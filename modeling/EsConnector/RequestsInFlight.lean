import EsConnector.ClientConfig
import EsConnector.Traceable
import EsConnector.UnderWay

namespace EsConnector
set_option autoImplicit true

open Interaction

variable {Id Src Line : Type} {act : Line → Action Id Src} {rules : EsRules} {cfg : EsWriteConfig}
  {batches : List (List (Option Line))} {clock : PartitionClock} {parts : List (Partition Line)}

theorem EsWriteConfig.Accepted.writeConcurrency_pos (h : cfg.Accepted) : 1 ≤ cfg.writeConcurrency := by
  by_contra hlt
  have hc := h.connection
  have hdoc := h.retries_nonneg.2
  rw [Accepted, postInit] at h
  simp [hc, Int.not_lt.mpr hdoc, Int.not_le.mp hlt, bind, Except.bind, throw, throwThe,
    MonadExceptOf.throw] at h

/-- The request carries lines of one of the chunks. -/
def PartOf (plan : List (List Line)) (q : BulkRequest Line) : Prop :=
  ∃ chunk ∈ plan, q.operations.Sublist chunk

/-- What a partition has in flight. -/
structure FewInFlight (cfg : EsWriteConfig) (plan : List (List Line))
    (flight : List (BulkRequest Line)) :
    Prop where
  requests : (flight.length : Int) ≤ max 1 cfg.writeConcurrency
  each : ∀ q ∈ flight, PartOf plan q
  lines : (flight.flatMap BulkRequest.operations).Sublist plan.flatten

section Partitions

variable [NdjsonLine Line] {P : Type} {legal : BulkRequest Line → BulkReply → Prop}
  {demands : BulkRequest Line → Prop}
  {asks : WriterState Line → PoolQuery (BulkRequest Line) (List Line) → Prop}
  {x : Process P (BulkRequest Line) (fun _ => BulkReply) (List Line) ChunkResult
    (Except WriteError SummaryRow)}

theorem serial_inFlight (hpool : cfg.pooled = false)
    (hx : x.Sound legal asks demands (shipOne cfg) (write cfg (shipInto cfg) clock batches)) :
    FewInFlight cfg (chunkPlan cfg (intactBatches batches)) x.underWay := by
  let plan := chunkPlan cfg (intactBatches batches)
  let own := writerDemands (PartOf plan) 0 []
  have hproper := @write_asks Line _ legal (PartOf plan) cfg batches
    (fun chunk hchunk q hq => ⟨chunk, hchunk, hq⟩) clock
  rw [partitionAsks, hpool] at hproper
  obtain ⟨post, hwp⟩ :
      ∃ post, wp (poolEnv legal own) (write cfg (shipInto cfg) clock batches) post {} :=
    hproper.main
  have hmain : (poolEnv legal own).Reach {} (write cfg (shipInto cfg) clock batches)
      x.toPoolState x.rest := hx.main_mono
  have hthreads : x.threads = [] :=
    hx.threads_eq_nil hwp fun _ _ hask => absurd hask.1 (Nat.not_lt_zero _)
  have hflight : x.underWay = x.ownCall := by
    rw [Process.underWay, Process.threadCalls, hthreads]
    exact List.append_nil _
  have hpart (q) (hq : q ∈ x.ownCall) : PartOf plan q := by
    obtain ⟨k, hk⟩ := Process.mem_ownCall.mp hq
    rw [hk] at hmain
    exact hmain.asks hwp
  rw [hflight]
  refine ⟨?_, hpart, ?_⟩
  · have := x.ownCall_length
    omega
  · have hone := x.ownCall_length
    cases hown : x.ownCall with
    | nil => exact List.nil_sublist _
    | cons q rest =>
      rw [hown] at hone hpart
      obtain rfl : rest = [] :=
        List.length_eq_zero_iff.mp (Nat.le_zero.mp (Nat.le_of_succ_le_succ hone))
      obtain ⟨chunk, hchunk, hsub⟩ := hpart q List.mem_cons_self
      rw [List.flatMap_singleton]
      exact hsub.trans (List.sublist_flatten_of_mem hchunk)

/-- The pooled writer makes no request of its own, and its threads send their chunks. -/
theorem pooled_inFlight (hpool : cfg.pooled = true)
    (hx : x.Sound legal asks demands (shipOne cfg) (write cfg (shipInto cfg) clock batches)) :
    FewInFlight cfg (chunkPlan cfg (intactBatches batches)) x.underWay := by
  let plan := chunkPlan cfg (intactBatches batches)
  let asks := writerDemands (fun _ : BulkRequest Line => False) cfg.writeConcurrency.toNat plan
  have hwp : wp (poolEnv legal asks) (write cfg (shipInto cfg) clock batches) (fun _ _ => True) {} :=
    wp_write_intact (fun _ => trivial)
      (wp_mono (wp_write_pooled hpool (shipInto cfg) clock (intactBatches batches))
        fun _ _ _ => trivial)
  have hmain : (poolEnv legal asks).Reach {} (write cfg (shipInto cfg) clock batches)
      x.toPoolState x.rest := hx.main_mono
  have hpooled : InFlight cfg.writeConcurrency.toNat plan x.toPoolState :=
    hmain.invariant hwp ⟨Nat.zero_le _, List.nil_prefix, .nil⟩ fun _ _ _ _ hI ha hr => hI.step ha hr
  obtain ⟨-, hown⟩ := hx.own_eq_nil hwp fun _ _ hask => hask
  have hflight : x.underWay = x.threadCalls := by
    rw [Process.underWay, hown]
    rfl
  -- each thread sends lines of its own chunk
  have hpiece (i : Nat) (hi : i < x.threads.length) (hi' : i < x.submitted.length) (q)
      (hq : x.threads[i].rest.asked = some q) : q.operations.Sublist x.submitted[i] :=
    (hx.threads i _ _ (List.getElem?_eq_getElem hi) (List.getElem?_eq_getElem hi')).asked
      (wp_shipNdjsonChunk_asks (fun _ h => h) _ _) hq
  rw [hflight]
  refine ⟨?_, ?_, ?_⟩
  · have hthreads := hx.threadCalls_length hpooled.futures
    have hbound := hpooled.bound
    omega
  · intro q hq
    obtain ⟨th, hth, hasked⟩ := List.mem_filterMap.mp hq
    obtain ⟨i, hi, rfl⟩ := List.getElem_of_mem hth
    have hi' : i < x.submitted.length := hx.threads_length ▸ hi
    exact ⟨_, hpooled.order.subset (List.getElem_mem hi'), hpiece i hi hi' q hasked⟩
  · have hpieces : List.Forall₂
        (fun (th : Thread P (BulkRequest Line) (fun _ => BulkReply) ChunkResult) chunk =>
          ∀ q, th.rest.asked = some q → q.operations.Sublist chunk) x.threads x.submitted :=
      List.forall₂_iff_get.mpr ⟨hx.threads_length, hpiece⟩
    exact (forall₂_flatMap_sublist hpieces).trans hpooled.order.sublist.flatten

theorem partition_inFlight
    (hx : x.Sound legal asks demands (shipOne cfg) (write cfg (shipInto cfg) clock batches)) :
    FewInFlight cfg (chunkPlan cfg (intactBatches batches)) x.underWay := by
  cases hpool : cfg.pooled with
  | false => exact serial_inFlight hpool hx
  | true => exact pooled_inFlight hpool hx

end Partitions

/-- A connection of the pool of the client for each request, where the pool of a serial writer has
`perNode` connections. -/
theorem FewInFlight.connections {plan : List (List Line)} {flight : List (BulkRequest Line)}
    (h : FewInFlight cfg plan flight) (tuning : ClientTuning) (hnode : 1 ≤ perNode) :
    (flight.length : Int) ≤ (cfg.clientKwargs tuning).connectionsPerNode.getD perNode := by
  have hrequests := h.requests
  rw [cfg.clientKwargs_connectionsPerNode]
  split
  · rw [Option.getD_some]
    omega
  · rw [Option.getD_none]
    omega

theorem forall₂_length_flatMap {rel : α → β → Prop} {f : β → List γ} {l : List α} {l' : List β}
    (h : List.Forall₂ rel l l') (hf : ∀ a b, rel a b → ((f b).length : Int) ≤ n) :
    ((l'.flatMap f).length : Int) ≤ l.length * n := by
  induction h with
  | nil => exact (Int.zero_mul n).ge
  | cons hrel _ ih =>
    rw [List.flatMap_cons, List.length_append, List.length_cons, Nat.cast_add, Nat.cast_succ,
      Int.add_mul, Int.one_mul, Int.add_comm]
    exact Int.add_le_add ih (hf _ _ hrel)

theorem forall₂_sublist_flatMap {rel : α → β → Prop} {f : β → List γ} {g : α → List γ} {l : List α}
    {l' : List β} (h : List.Forall₂ rel l l') (hf : ∀ a b, rel a b → (f b).Sublist (g a)) :
    (l'.flatMap f).Sublist (l.flatMap g) := by
  induction h with
  | nil => exact .refl _
  | cons hrel _ ih =>
    rw [List.flatMap_cons, List.flatMap_cons]
    exact (hf _ _ hrel).append ih

section Jobs

variable [DecidableEq Id] [NdjsonLine Line] {s s' : EsState Id Src Line}
  {xs : List (WriterProcess Line)}

theorem WriteJob.inFlight (h : WriteJob act rules cfg parts s s' xs) :
    List.Forall₂ (fun p x => FewInFlight cfg (chunkPlan cfg (intactBatches p.batches))
      (Process.underWay x)) parts xs :=
  h.traced.sound.imp fun _ _ hx => partition_inFlight hx

/-- At every point of a write, whatever its writers and their threads have done in whatever order: a
partition has at most `write_concurrency` requests in flight, with a connection for each and at most
`chunk_size` lines in each, all partitions together have no more than that times their number, and the
lines in flight are lines of the table one for one, so that no row is in two requests at once. -/
theorem requests_in_flight (act : Line → Action Id Src) (rules : EsRules) {cfg : EsWriteConfig}
    (hcfg : cfg.Accepted) (tuning : ClientTuning) (perNode : Int) (hnode : 1 ≤ perNode)
    (parts : List (Partition Line)) (s s' : EsState Id Src Line) (xs : List (WriterProcess Line))
    (hrun : WriteJob act rules cfg parts s s' xs) :
    (∀ x ∈ xs, (x.underWay.length : Int) ≤ cfg.writeConcurrency ∧
      (x.underWay.length : Int) ≤ (cfg.clientKwargs tuning).connectionsPerNode.getD perNode ∧
      ∀ q ∈ x.underWay, (q.operations.length : Int) ≤ cfg.chunkSize) ∧
    ((xs.flatMap Process.underWay).length : Int) ≤ parts.length * cfg.writeConcurrency ∧
    ((xs.flatMap Process.underWay).flatMap BulkRequest.operations).Sublist (sendableLines parts) := by
  have hw := hcfg.writeConcurrency_pos
  have hflight := hrun.inFlight
  refine ⟨?_, ?_, ?_⟩
  · intro x hx
    obtain ⟨i, hi, rfl⟩ := List.getElem_of_mem hx
    have hfew : FewInFlight cfg _ xs[i].underWay := hflight.get (hflight.length_eq ▸ hi) hi
    refine ⟨by have := hfew.requests; omega, hfew.connections tuning hnode, ?_⟩
    intro q hq
    obtain ⟨chunk, hchunk, hsub⟩ := hfew.each q hq
    have hlength := hsub.length_le
    have hsize := (mem_chunkPlan hchunk).2
    omega
  · apply forall₂_length_flatMap hflight
    intro p x hfew
    have := hfew.requests
    omega
  · rw [List.flatMap_assoc]
    apply forall₂_sublist_flatMap hflight
    intro p x hfew
    exact hfew.lines.trans (chunkPlan_flatten_sublist ..)

end Jobs

def fullPoolConfig : EsWriteConfig where
  hosts := "h"
  apiKey := some "k"
  chunkSize := 1
  writeConcurrency := 2

/-- Two of three lines are in flight, and the writer waits for one of them. -/
theorem requests_in_flight_full :
    ∃ x : WriterProcess String, x.underWay = [⟨["a"], .errors⟩, ⟨["b"], .errors⟩] ∧
      (x.underWay.length : Int) ≤ (fullPoolConfig.clientKwargs {}).connectionsPerNode.getD 10 ∧
      (x.underWay.flatMap BulkRequest.operations).Sublist ["a", "b", "c"] := by
  let act : String → Action Nat String := fun line => .index (some 0) line
  obtain ⟨x, hrun, hflight⟩ : ∃ x : WriterProcess String,
      WriteJob act ⟨true, true, true⟩ fullPoolConfig
          [{ batches := [[some "a", some "b", some "c"]] }] ⟨fun _ => none, []⟩
          ⟨fun _ => none, []⟩ [x] ∧
        x.underWay = [⟨["a"], .errors⟩, ⟨["b"], .errors⟩] :=
    ⟨_, Server.JobSteps.head (.step 0 rfl (.submit rfl))
      (Server.JobSteps.head (.step 0 rfl (.submit rfl)) (Server.JobSteps.refl ..)), rfl⟩
  obtain ⟨hbound, -, hlines⟩ := requests_in_flight act ⟨true, true, true⟩ (by decide) {} 10
    (by decide) _ _ _ [x] hrun
  refine ⟨x, hflight, (hbound x List.mem_cons_self).2.1, ?_⟩
  rwa [List.flatMap_singleton] at hlines

end EsConnector
