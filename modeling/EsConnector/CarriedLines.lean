import Mathlib.Algebra.Order.BigOperators.Group.List
import EsConnector.BodyCeiling
import EsConnector.BulkLedger
import EsConnector.SendBudget
import EsConnector.UnderWay

namespace EsConnector
set_option autoImplicit true

open Interaction

variable {Line : Type} {cfg : EsWriteConfig} {kind : Line → Bool}

/-- How often the lines of a chunk may be sent. -/
def EsWriteConfig.sendsPerChunk (cfg : EsWriteConfig) : Nat :=
  cfg.requestsPerChunk * cfg.sendsPerRequest

/-- How many lines of a kind some requests carry. -/
def carried (kind : Line → Bool) (qs : List (BulkRequest Line)) : Nat :=
  (qs.map fun q => q.operations.countP kind).sum

theorem carried_append (qs qs' : List (BulkRequest Line)) :
    carried kind (qs ++ qs') = carried kind qs + carried kind qs' := by
  rw [carried, List.map_append, List.sum_append]
  rfl

theorem carried_initial (h : qs <+: qs') : carried kind qs ≤ carried kind qs' := by
  obtain ⟨rest, rfl⟩ := h
  rw [carried_append]
  exact Nat.le_add_right ..

theorem carried_le {lines : List Line} (h : ∀ q ∈ qs, q.operations.Sublist lines) :
    carried kind qs ≤ qs.length * lines.countP kind := by
  have hle : ∀ n ∈ qs.map fun q => q.operations.countP kind, n ≤ lines.countP kind := by
    intro n hn
    obtain ⟨q, hq, rfl⟩ := List.mem_map.mp hn
    exact (h q hq).countP_le
  have hsum := List.sum_le_card_nsmul _ _ hle
  rwa [List.length_map] at hsum

section Runs

variable [NdjsonLine Line] {lines : List Line} {legal : BulkRequest Line → BulkReply → Prop}

theorem FullRun.within {pending : List Line} (h : FullRun cfg left pending t calls out) :
    ∀ c ∈ calls, c.1.operations.Sublist pending := by
  have hburst {q : BulkRequest Line} {result : Except BulkException BulkResponse} {left : Nat}
      {calls : List (BulkCall Line)} (hb : Burst cfg q result left calls) :
      ∀ c ∈ calls, c.1.operations.Sublist q.operations := by
    intro c hc
    rw [hb.calls_eq c hc]
  induction h with
  | nil => exact fun c hc => absurd hc List.not_mem_nil
  | raised _ hb => exact hburst hb
  | failed _ hb _ => exact hburst hb
  | done _ hb _ _ => exact hburst hb
  | again _ hb hc _ _ ih =>
    intro c hmem
    rcases List.mem_append.mp hmem with hmem | hmem
    · exact hburst hb c hmem
    · exact (ih c hmem).trans (classifyResponse_retry_sublist hc)

/-- Every call of a chunk carries a part of it. -/
theorem ChunkRun.within (h : ChunkRun cfg lines t calls out) :
    ∀ c ∈ calls, c.1.operations.Sublist lines := by
  cases h with
  | raised _ hb =>
    intro c hc
    rw [hb.calls_eq c hc]
  | clean _ hb _ =>
    intro c hc
    rw [hb.calls_eq c hc]
  | probed _ hb _ hf =>
    intro c hmem
    rcases List.mem_append.mp hmem with hmem | hmem
    · rw [hb.calls_eq c hmem]
    · exact hf.within c hmem
  | direct _ hf => exact hf.within

theorem ChunkRun.carried_le (h : ChunkRun cfg lines t calls out) :
    carried kind (calls.map Sigma.fst) ≤ cfg.sendsPerChunk * lines.countP kind := by
  have hwithin : ∀ q ∈ calls.map Sigma.fst, q.operations.Sublist lines := by
    intro q hq
    obtain ⟨c, hc, rfl⟩ := List.mem_map.mp hq
    exact h.within c hc
  calc carried kind (calls.map Sigma.fst)
      ≤ (calls.map Sigma.fst).length * lines.countP kind := EsConnector.carried_le hwithin
    _ ≤ cfg.sendsPerChunk * lines.countP kind := by
        rw [List.length_map]
        exact Nat.mul_le_mul_right _ h.withinBudget.length

/-- At each point of shipping a chunk its lines have been sent no more often than the budget
allows. -/
theorem wp_ship_metered (hlegal : ∀ q, ∃ r, legal q r) (t : Tally) (log : List (BulkCall Line))
    {n : Nat} (hn : carried kind (log.map Sigma.fst) + cfg.sendsPerChunk * lines.countP kind ≤ n) :
    wp (meterEnv legal fun qs => carried kind qs ≤ n) (shipNdjsonChunk cfg lines t)
      (fun _ log' => carried kind (log'.map Sigma.fst) ≤
        carried kind (log.map Sigma.fst) + cfg.sendsPerChunk * lines.countP kind) log := by
  apply wp_meter hlegal (fun _ _ h hle => (carried_initial h).trans hle)
  · apply wp_mono (wp_shipNdjsonChunk_run cfg lines t)
    rintro r log' ⟨calls, rfl, hrun⟩
    rw [List.map_append, carried_append]
    exact Nat.add_le_add_left hrun.carried_le _
  · exact fun _ _ h => h.trans hn

section Partitions

variable {P : Type} {demands : BulkRequest Line → Prop} {clock : PartitionClock}
  {batches : List (List (Option Line))}
  {asks : WriterState Line → PoolQuery (BulkRequest Line) (List Line) → Prop}
  {x : Process P (BulkRequest Line) (fun _ => BulkReply) (List Line) ChunkResult
    (Except WriteError SummaryRow)}

omit [NdjsonLine Line] in
theorem countP_initial (kind : Line → Bool) {done plan : List (List Line)} (h : done <+: plan) :
    done.flatten.countP kind ≤ plan.flatten.countP kind := by
  obtain ⟨rest, rfl⟩ := h
  rw [List.flatten_append, List.countP_append]
  exact Nat.le_add_right ..

theorem serial_carried (hlegal : ∀ q, ∃ r, legal q r) (hpool : cfg.pooled = false)
    (hx : x.Sound legal asks demands (shipOne cfg) (write cfg (shipInto cfg) clock batches)) :
    carried kind x.queries ≤
      cfg.sendsPerChunk * (chunkPlan cfg batches).flatten.countP kind := by
  let n := cfg.sendsPerChunk * (chunkPlan cfg batches).flatten.countP kind
  let fits : List (BulkRequest Line) → Prop := fun qs => carried kind qs ≤ n
  let J : List (List Line) → Tally → WriterState Line → Prop := fun done _ g =>
    done <+: chunkPlan cfg batches ∧
      carried kind (g.log.map Sigma.fst) ≤ cfg.sendsPerChunk * done.flatten.countP kind
  have hfits {done : List (List Line)} {k : Nat} (hk : k ≤ cfg.sendsPerChunk * done.flatten.countP kind)
      (hp : done <+: chunkPlan cfg batches) : k ≤ n :=
    hk.trans (Nat.mul_le_mul_left _ (countP_initial kind hp))
  have hwp : wp (poolEnv legal (meterAsks fits)) (write cfg (shipInto cfg) clock batches)
      (fun _ g => fits (g.log.map Sigma.fst)) {} := by
    apply wp_mono (wp_write_serial J (fun g => fits (g.log.map Sigma.fst)) hpool (shipInto cfg) clock
      batches ?_ ?_ ⟨List.nil_prefix, Nat.zero_le _⟩)
    · intro r g hr
      cases r with
      | error e => exact hr
      | ok row =>
        obtain ⟨t, ⟨hp, hle⟩, -⟩ := hr
        exact hfits hle hp
    · rintro done chunk t g ⟨-, hle⟩ hp
      have hadds : cfg.sendsPerChunk * (done ++ [chunk]).flatten.countP kind =
          cfg.sendsPerChunk * done.flatten.countP kind + cfg.sendsPerChunk * chunk.countP kind := by
        rw [List.flatten_append, List.countP_append, Nat.mul_add, List.flatten_singleton]
      have hroom : carried kind (g.log.map Sigma.fst) + cfg.sendsPerChunk * chunk.countP kind ≤
          cfg.sendsPerChunk * (done ++ [chunk]).flatten.countP kind := by
        rw [hadds]
        exact Nat.add_le_add_right hle _
      apply wp_embed (serves_meter legal fits)
      apply wp_mono (wp_ship_metered hlegal t g.log (hfits hroom hp))
      intro r log hr
      cases r with
      | error e => exact hfits (hr.trans hroom) hp
      | ok t' => exact ⟨hp, hr.trans hroom⟩
    · exact fun done t g hJ _ => hfits hJ.2 hJ.1
  have hmetered : fits (x.log.map Sigma.fst ++ x.ownCall) := hx.metered hwp
  have hthreads : x.threads = [] := hx.threads_eq_nil hwp fun _ _ h => h
  rw [carried, x.sum_queries, hthreads]
  exact hmetered

/-- The threads of the pooled writer send a chunk each, and the writer itself sends nothing. -/
theorem pooled_carried (hlegal : ∀ q, ∃ r, legal q r) (hpool : cfg.pooled = true)
    (hx : x.Sound legal asks demands (shipOne cfg) (write cfg (shipInto cfg) clock batches)) :
    carried kind x.queries ≤
      cfg.sendsPerChunk * (chunkPlan cfg batches).flatten.countP kind := by
  let plan := chunkPlan cfg batches
  let own := writerDemands (fun _ : BulkRequest Line => False) cfg.writeConcurrency.toNat plan
  have hwp : wp (poolEnv legal own) (write cfg (shipInto cfg) clock batches) (fun _ _ => True) {} :=
    wp_mono (wp_write_pooled hpool (shipInto cfg) clock batches) fun _ _ _ => trivial
  have hmain : (poolEnv legal own).Reach {} (write cfg (shipInto cfg) clock batches)
      x.toPoolState x.rest := hx.main_mono
  have hinflight : InFlight cfg.writeConcurrency.toNat plan x.toPoolState :=
    hmain.invariant hwp (.start _ plan) fun _ _ _ _ hI ha hr => hI.step ha hr
  obtain ⟨hlog, hown⟩ := hx.own_eq_nil hwp fun _ _ h => h
  have hthreads : (x.threads.map fun th => carried kind th.queries).sum ≤
      cfg.sendsPerChunk * x.submitted.flatten.countP kind := by
    have hruns := hx.runs
    generalize x.threads = ths at hruns
    generalize x.submitted = tasks at hruns
    induction hruns with
    | nil => exact Nat.zero_le _
    | @cons chunk th tasks ths hth _ ih =>
      let n := cfg.sendsPerChunk * chunk.countP kind
      have hship : wp (meterEnv legal fun qs => carried kind qs ≤ n) (shipOne cfg chunk)
          (fun _ log => carried kind (log.map Sigma.fst) ≤ n) [] := by
        apply wp_mono (wp_ship_metered hlegal _ [] (Nat.zero_add _).le)
        exact fun _ _ h => h.trans (Nat.zero_add _).le
      have hle : carried kind th.queries ≤ n := hth.metered hship
      rw [List.map_cons, List.sum_cons, List.flatten_cons, List.countP_append, Nat.mul_add]
      exact Nat.add_le_add hle ih
  rw [carried, x.sum_queries, hlog, hown]
  have hplan := Nat.mul_le_mul_left cfg.sendsPerChunk (countP_initial kind hinflight.order)
  exact (Nat.zero_add _).le.trans (hthreads.trans hplan)

theorem write_carried (hlegal : ∀ q, ∃ r, legal q r)
    (hx : x.Sound legal asks demands (shipOne cfg) (write cfg (shipInto cfg) clock batches)) :
    carried kind x.queries ≤
      cfg.sendsPerChunk * (batches.flatMap List.reduceOption).countP kind := by
  have hplan : carried kind x.queries ≤
      cfg.sendsPerChunk * (chunkPlan cfg batches).flatten.countP kind := by
    cases hpool : cfg.pooled with
    | false => exact serial_carried hlegal hpool hx
    | true => exact pooled_carried hlegal hpool hx
  exact hplan.trans (Nat.mul_le_mul_left _ (chunkPlan_flatten_sublist cfg batches).countP_le)

end Partitions

end Runs

end EsConnector
