import Mathlib.Algebra.Order.BigOperators.Group.List
import Mathlib.Data.String.Basic
import EsConnector.ChunkRuns
import EsConnector.Instant
import EsConnector.PartitionChunks
import EsConnector.PipelinedWriter

namespace EsConnector
set_option autoImplicit true

open Interaction

variable {Line : Type}

/-- The bytes of an NDJSON body, where `size` is what the client writes for a line. -/
def bodyBytes (size : Line → Nat) (lines : List Line) : Nat := (lines.map size).sum

/-- The 100 MB of `max_chunk_bytes` and `http.max_content_length`. -/
def maxBodyBytes : Nat := 100 * 1024 * 1024

theorem bodyBytes_sublist (size : Line → Nat) (h : lines.Sublist lines') :
    bodyBytes size lines ≤ bodyBytes size lines' :=
  List.Sublist.sum_le_sum (h.map size) fun _ _ => Nat.zero_le _

section Asks

variable {C : Type} {E : Env C (PoolQuery (BulkRequest Line) (List Line))
  (PoolQuery.Reply (fun _ => BulkReply) ChunkResult)}

theorem wp_write_intact (hshut : ∀ g, E.asks g .shutdown)
    (h : wp E (write cfg ship clock (intactBatches batches)) (fun _ _ => True) g) :
    wp E (write cfg ship clock batches) (fun _ _ => True) g := by
  have hsplit : batches = intactBatches batches ++
      batches.dropWhile fun col => !col.any Option.isNone := List.takeWhile_append_dropWhile.symm
  rw [hsplit, write, wp_bind, writeBody, writeBatches_append, wp_bind, wp_bind]
  rw [write, wp_bind, writeBody, wp_bind] at h
  apply wp_mono h
  intro r g' hr
  cases r with
  | error e => exact hr
  | ok s =>
    have hhead := List.head?_dropWhile_not (fun col => !col.any Option.isNone) batches
    cases hrest : batches.dropWhile fun col => !col.any Option.isNone with
    | nil => exact hr
    | cons bad rest =>
      rw [hrest] at hhead
      have hnull : bad.any Option.isNone = true := by simpa using hhead
      dsimp only
      rw [writeBatches, if_pos hnull, wp_pure, wp_pure]
      split
      · exact ⟨hshut _, fun _ _ _ => trivial⟩
      · trivial

end Asks

theorem write_starts (cfg : EsWriteConfig) (ship : ShipInto Line) (clock : PartitionClock)
    (batches : List (List (Option Line))) :
    ∃ K, write cfg ship clock batches = writeBatches cfg ship (intactBatches batches)
      { shipper := { tally := .start cfg.bulkStats } } >>= K := by
  have hsplit : batches = intactBatches batches ++
      batches.dropWhile fun col => !col.any Option.isNone := List.takeWhile_append_dropWhile.symm
  rw [write, writeBody]
  conv =>
    enter [1, K, 1]
    rw [hsplit, writeBatches_append, Prog.bind_assoc, Prog.bind_assoc]
  exact ⟨_, rfl⟩

theorem intactBatches_fault (hcs : 0 < cfg.chunkSize)
    (h : BatchFault cfg (intactBatches (batches : List (List (Option Line))))) : False := by
  rcases h with ⟨col, hcol, hnull⟩ | h0
  · have hintact := List.all_eq_true.mp List.all_takeWhile col hcol
    rw [(any_isNone_iff col).mpr hnull] at hintact
    exact Bool.false_ne_true hintact
  · omega

section Runs

variable [NdjsonLine Line] {legal : BulkRequest Line → BulkReply → Prop}
  {demands : BulkRequest Line → Prop} {cfg : EsWriteConfig} {lines : List Line}

theorem wp_shipNdjsonChunk_asks (hd : ∀ q : BulkRequest Line, q.operations.Sublist lines → demands q)
    (t : Tally) (log : List (BulkCall Line)) :
    wp (callEnv legal demands) (shipNdjsonChunk cfg lines t) (fun _ _ => True) log := by
  have hfull (left : Nat) (t : Tally) (log : List (BulkCall Line)) :
      wp (callEnv legal demands) (fullPath cfg left lines t) (fun _ _ => True) log := by
    refine wp_fullPath (I := fun _ _ _ _ => True) (fun _ q hq _ => hd q hq) ?_ ?_ ?_ ?_
      (.refl lines) trivial
    · exact fun _ _ _ _ => trivial
    · exact fun _ _ _ _ _ _ _ _ _ _ _ => trivial
    · exact fun _ _ _ _ _ _ _ _ _ _ _ _ _ => trivial
    · exact fun _ _ _ _ _ _ _ _ _ _ _ _ _ => ⟨fun _ => trivial, fun _ _ _ => trivial⟩
  apply wp_shipNdjsonChunk (fun _ fp _ _ => hd _ (.refl lines))
  · exact fun _ _ _ _ _ _ => trivial
  · exact fun _ _ _ _ _ _ _ => trivial
  · exact fun _ _ _ _ _ _ _ => hfull _ _ _
  · exact fun _ => hfull _ _ _

omit [NdjsonLine Line] in
theorem Burst.carries (h : Burst cfg (q : BulkRequest Line) result left calls) :
    ∃ c ∈ calls, c.1 = q := by
  obtain ⟨reply, hlast, -⟩ := h.getLast
  exact ⟨_, List.mem_of_getLast? hlast, rfl⟩

theorem FullRun.carries (h : FullRun cfg left (lines : List Line) t calls out)
    (hne : lines ≠ []) : ∃ c ∈ calls, c.1.operations = lines := by
  cases h with
  | nil => exact absurd rfl hne
  | raised _ hb =>
    obtain ⟨c, hc, he⟩ := hb.carries
    exact ⟨c, hc, by rw [he]⟩
  | failed _ hb _ =>
    obtain ⟨c, hc, he⟩ := hb.carries
    exact ⟨c, hc, by rw [he]⟩
  | done _ hb _ _ =>
    obtain ⟨c, hc, he⟩ := hb.carries
    exact ⟨c, hc, by rw [he]⟩
  | again _ hb _ _ _ =>
    obtain ⟨c, hc, he⟩ := hb.carries
    exact ⟨c, List.mem_append_left _ hc, by rw [he]⟩

/-- Some call of a chunk carries all its lines. -/
theorem ChunkRun.carries (h : ChunkRun cfg (lines : List Line) t calls out) (hne : lines ≠ []) :
    ∃ c ∈ calls, c.1.operations = lines := by
  cases h with
  | raised _ hb =>
    obtain ⟨c, hc, he⟩ := hb.carries
    exact ⟨c, hc, by rw [he]⟩
  | clean _ hb _ =>
    obtain ⟨c, hc, he⟩ := hb.carries
    exact ⟨c, hc, by rw [he]⟩
  | probed _ hb _ _ =>
    obtain ⟨c, hc, he⟩ := hb.carries
    exact ⟨c, List.mem_append_left _ hc, by rw [he]⟩
  | direct _ hf => exact hf.carries hne

/-- The reply that no chunk fails on. -/
def cleanReply (_ : BulkRequest Line) : BulkReply :=
  { result := .ok { errors := some false, items := some [] } }

omit [NdjsonLine Line] in
theorem Burst.clean (h : Burst cfg (q : BulkRequest Line) result left calls)
    (hclean : ∀ c ∈ calls, c.2 = cleanReply c.1) : result = (cleanReply q).result := by
  obtain ⟨reply, hlast, hr⟩ := h.getLast
  have hreply : reply = cleanReply q := hclean _ (List.mem_of_getLast? hlast)
  rw [← hr, hreply]

theorem FullRun.clean (h : FullRun cfg left (lines : List Line) t calls out)
    (hclean : ∀ c ∈ calls, c.2 = cleanReply c.1) : ∃ t', out = .ok t' := by
  induction h with
  | nil => exact ⟨_, rfl⟩
  | raised _ hb => cases hb.clean hclean
  | failed _ hb hc =>
    cases hb.clean hclean
    cases hc
  | done _ _ _ _ => exact ⟨_, rfl⟩
  | again _ _ _ _ _ ih => exact ih fun c hc => hclean c (List.mem_append_right _ hc)

theorem ChunkRun.clean_ends (h : ChunkRun cfg (lines : List Line) t calls out)
    (hclean : ∀ c ∈ calls, c.2 = cleanReply c.1) : ∃ t', out = .ok t' := by
  cases h with
  | raised _ hb => exact ⟨_, rfl⟩
  | clean _ _ _ => exact ⟨_, rfl⟩
  | probed _ _ _ hf => exact hf.clean fun c hc => hclean c (List.mem_append_right _ hc)
  | direct _ hf => exact hf.clean hclean

/-- The reply of the instant server is a clean one. -/
abbrev Clean (q : BulkRequest Line) (r : BulkReply) : Prop := r = cleanReply q

omit [NdjsonLine Line] in
theorem InFlight.start (w : Nat) (plan : List (List Line)) : InFlight w plan {} where
  bound := Nat.zero_le _
  order := List.nil_prefix
  futures := .nil

omit [NdjsonLine Line] in
theorem InFlight.waits (h : InFlight w plan (g : WriterState Line))
    (ha : writerDemands demands w plan g (.wait pending)) :
    pending ≠ [] ∧ ∀ i ∈ pending, i < g.submitted.length := by
  obtain ⟨rfl, hne⟩ := ha
  refine ⟨hne, ?_⟩
  intro i hi
  exact List.mem_range.mp (h.futures.mem_iff.mp (List.mem_append_right _ hi))

theorem instant_writes {w : Nat} {plan : List (List Line)} (clock : PartitionClock)
    (batches : List (List (Option Line)))
    {post : Except WriteError PartitionState → WriterState Line → Prop}
    (h : wp (poolEnv Clean (writerDemands (fun _ => True) w plan))
      (writeBatches cfg (shipInto cfg) (intactBatches batches)
        { shipper := { tally := .start cfg.bulkStats } }) post {}) :
    ∃ x r, (instantServer cleanReply).Run (shipOne cfg) (write cfg (shipInto cfg) clock batches) ()
      () x ∧ x.Idle ∧ post r x.toPoolState := by
  obtain ⟨K, hK⟩ := write_starts cfg (shipInto cfg) clock batches
  have hlegal : ∀ q : BulkRequest Line, Clean q (cleanReply q) := fun _ => rfl
  have hstep : ∀ g q r g', InFlight w plan g → writerDemands (fun _ => True) w plan g q →
      (poolEnv Clean (writerDemands (fun _ => True) w plan)).answers g q r g' →
      InFlight w plan g' := fun _ _ _ _ hI ha hr => hI.step ha hr
  let x₀ : Process Unit (BulkRequest Line) (fun _ => BulkReply) (List Line) ChunkResult
      (Except WriteError SummaryRow) := { rest := write cfg (shipInto cfg) clock batches }
  have hidle : x₀.Idle := ⟨rfl, fun _ hth => absurd hth List.not_mem_nil⟩
  obtain ⟨x, r, hgoes, -, hidle, hpost⟩ := @instant_goes _ _ _ _ _ _ cleanReply Clean
    (writerDemands (fun _ => True) w plan) (InFlight w plan) (shipOne cfg) K hlegal hstep
    (fun _ _ hI ha => hI.waits ha) _ post x₀ hK hidle (.start w plan) h
  exact ⟨x, r, hgoes, hidle, hpost⟩

theorem serial_run_carrying (hcs : 0 < cfg.chunkSize) (hpool : cfg.pooled = false)
    (clock : PartitionClock) {batches : List (List (Option Line))}
    (hchunk : chunk ∈ chunkPlan cfg (intactBatches batches)) :
    ∃ x, (instantServer cleanReply).Run (shipOne cfg) (write cfg (shipInto cfg) clock batches) ()
      () x ∧ ∃ c ∈ x.calls, c.1.operations = chunk := by
  let J : List (List Line) → Tally → WriterState Line → Prop := fun done _ g =>
    ∀ chunk ∈ done, ∃ c ∈ g.log, c.1.operations = chunk
  have hship (done chunk t g) (hJ : J done t g)
      (hp : done ++ [chunk] <+: chunkPlan cfg (intactBatches batches)) :
      wp (poolEnv Clean (writerDemands (fun _ => True) 0 [])) (shipInto cfg chunk t)
        (fun r g' => ∃ t', r = .ok t' ∧ J (done ++ [chunk]) t' g') g := by
    have hne : chunk ≠ [] := (mem_chunkPlan (hp.subset (by simp))).1
    apply wp_embed (serves_call Clean (fun _ => True) 0 [])
    apply wp_mono (wp_legal (wp_shipNdjsonChunk_run cfg chunk t))
    rintro r log' ⟨⟨calls, rfl, hrun⟩, calls', hcalls', hclean⟩
    obtain rfl := List.append_cancel_left hcalls'
    obtain ⟨t', rfl⟩ := hrun.clean_ends hclean
    obtain ⟨c, hc, he⟩ := hrun.carries hne
    refine ⟨t', rfl, ?_⟩
    intro chunk' hmem
    rcases List.mem_append.mp hmem with hmem | hmem
    · obtain ⟨c', hc', he'⟩ := hJ chunk' hmem
      exact ⟨c', List.mem_append_left _ hc', he'⟩
    · rw [List.mem_singleton.mp hmem]
      exact ⟨c, List.mem_append_right _ hc, he⟩
  have hnone : J [] (.start cfg.bulkStats) {} := fun _ h => absurd h List.not_mem_nil
  have hwp := @wp_writeBatches Line _ (poolEnv Clean (writerDemands (fun _ => True) 0 [])) []
    cfg (intactBatches batches) (shipInto cfg) {} { shipper := { tally := .start cfg.bulkStats } }
    (fun done s => J done s.tally) (fun _ _ => False) ?_
    (fun _ _ _ _ _ hf => intactBatches_fault hcs hf) hnone
  · obtain ⟨x, r, hrun, -, hpost⟩ := instant_writes clock batches hwp
    cases r with
    | error e => exact hpost.elim
    | ok s =>
      obtain ⟨c, hc, he⟩ := hpost.1 chunk hchunk
      exact ⟨x, hrun, c, List.mem_append_left _ hc, he⟩
  · intro done chunks s g hK hp
    rw [List.nil_append] at hp
    simp only [shipChunks, hpool, Bool.false_eq_true, if_false]
    refine wp_shipSerially (fun done chunk t g hJ hp => wp_mono (hship done chunk t g hJ hp) ?_) hp hK
    rintro _ g' ⟨t', rfl, hJ'⟩
    exact hJ'

theorem pooled_run_carrying (hcs : 0 < cfg.chunkSize) (hpool : cfg.pooled = true)
    (clock : PartitionClock) {batches : List (List (Option Line))}
    (hchunk : chunk ∈ chunkPlan cfg (intactBatches batches)) :
    ∃ x, (instantServer cleanReply).Run (shipOne cfg) (write cfg (shipInto cfg) clock batches) ()
      () x ∧ ∃ c ∈ x.calls, c.1.operations = chunk := by
  have hw : 0 < cfg.writeConcurrency.toNat := by
    simp only [EsWriteConfig.pooled, decide_eq_true_eq] at hpool
    omega
  have hwp := @wp_writeBatches Line _ (poolEnv Clean (writerDemands (fun _ => True)
      cfg.writeConcurrency.toNat (chunkPlan cfg (intactBatches batches)))) []
    cfg (intactBatches batches) (shipInto cfg) {} { shipper := { tally := .start cfg.bulkStats } }
    (Pooled (.start cfg.bulkStats)) (fun _ => PoolFailure False) ?_
    (fun _ _ _ _ _ hf => (intactBatches_fault hcs hf).elim) ⟨rfl, rfl, rfl, .nil, rfl⟩
  · obtain ⟨x, r, hrun, hidle, hpost⟩ := instant_writes clock batches hwp
    have hsound : x.Sound Clean (writerDemands (fun _ => True) cfg.writeConcurrency.toNat
        (chunkPlan cfg (intactBatches batches))) (fun _ => True) (shipOne cfg)
        (write cfg (shipInto cfg) clock batches) := .run (fun _ _ _ _ h => h) hrun
    cases r with
    | error e =>
      rcases hpost with ⟨p, hp, e, he⟩ | hf
      · obtain ⟨th, task, -, htask, hend⟩ := hsound.finished hp
        obtain ⟨t', ht'⟩ := (chunkRun_of_run hend).1.clean_ends (chunkRun_of_run hend).2
        rw [he] at ht'
        cases ht'
      · exact hf.elim
    | ok s =>
      have hsub : x.submitted = chunkPlan cfg (intactBatches batches) := hpost.1.submitted
      obtain ⟨i, hi, rfl⟩ := List.getElem_of_mem (hsub ▸ hchunk)
      have hth := List.getElem?_eq_getElem (hidle.length ▸ hi)
      have hth' := hsound.threads i _ _ hth (List.getElem?_eq_getElem hi)
      obtain ⟨a, ha⟩ := hidle.ended _ (List.mem_of_getElem? hth)
      rw [Thread.Sound, ha] at hth'
      obtain ⟨c, hc, he⟩ := (chunkRun_of_run hth').1.carries (mem_chunkPlan hchunk).1
      exact ⟨x, hrun, c, Process.mem_calls.mpr (.inr ⟨_, List.mem_of_getElem? hth, hc⟩), he⟩
  · intro done chunks s g hK hp
    rw [List.nil_append] at hp
    simp only [shipChunks, if_pos hpool]
    exact wp_submitChunks False hw hp hK

theorem exists_run_carrying (hcs : 0 < cfg.chunkSize) (clock : PartitionClock)
    {batches : List (List (Option Line))} (hchunk : chunk ∈ chunkPlan cfg (intactBatches batches)) :
    ∃ x, (instantServer cleanReply).Run (shipOne cfg) (write cfg (shipInto cfg) clock batches) ()
      () x ∧ ∃ c ∈ x.calls, c.1.operations = chunk := by
  cases hpool : cfg.pooled with
  | false => exact serial_run_carrying hcs hpool clock hchunk
  | true => exact pooled_run_carrying hcs hpool clock hchunk

theorem write_asks (hd : ∀ chunk ∈ chunkPlan cfg (intactBatches batches),
      ∀ q : BulkRequest Line, q.operations.Sublist chunk → demands q) (clock : PartitionClock) :
    Proper legal (partitionAsks demands cfg (intactBatches batches)) demands (shipOne cfg)
      (write cfg (shipInto cfg) clock batches) := by
  rw [partitionAsks]
  cases hpool : cfg.pooled with
  | false =>
    have hwp : wp (poolEnv legal (writerDemands demands 0 []))
        (write cfg (shipInto cfg) clock (intactBatches batches)) (fun _ _ => True) {} := by
      refine wp_mono (wp_write_serial (fun _ _ _ => True) (fun _ => True) hpool (shipInto cfg) clock
        (intactBatches batches) ?_ (fun _ _ _ _ _ => trivial) trivial) fun _ _ _ => trivial
      intro done chunk t g _ hp
      apply wp_embed (serves_call legal demands 0 [])
      apply wp_mono (wp_shipNdjsonChunk_asks (hd chunk (hp.subset (by simp))) t _)
      intro r log _
      cases r <;> trivial
    exact ⟨⟨_, wp_write_intact (fun _ => trivial) hwp⟩, fun _ _ h => h,
      fun g task h => absurd h.1 (Nat.not_lt_zero _)⟩
  | true =>
    have hwp : wp (poolEnv legal (writerDemands demands cfg.writeConcurrency.toNat
          (chunkPlan cfg (intactBatches batches))))
        (write cfg (shipInto cfg) clock (intactBatches batches)) (fun _ _ => True) {} :=
      wp_mono (wp_write_pooled hpool (shipInto cfg) clock (intactBatches batches))
        fun _ _ _ => trivial
    refine ⟨⟨_, wp_write_intact (fun _ => trivial) hwp⟩, fun _ _ h => h,
      fun g chunk h => ⟨fun _ _ => True, ?_⟩⟩
    exact wp_shipNdjsonChunk_asks (hd chunk (h.2.subset (by simp))) _ _

/-- In every run of a partition, every `es.bulk` call carries a body of at most 100 MB. -/
def WithinCeiling (size : Line → Nat) (cfg : EsWriteConfig)
    (batches : List (List (Option Line))) : Prop :=
  ∀ (S P : Type) (V : Server S P (BulkRequest Line) (fun _ => BulkReply)) (clock : PartitionClock)
    (s s' : S) (x : Process P (BulkRequest Line) (fun _ => BulkReply) (List Line) ChunkResult
      (Except WriteError SummaryRow)),
    V.Run (shipOne cfg) (write cfg (shipInto cfg) clock batches) s s' x →
      ∀ q, x.Waits q → bodyBytes size q.operations ≤ maxBodyBytes

/-- Up to the first batch with a null line, no `chunk_size` lines of a batch, cut off from its
start, are more than 100 MB together. -/
def SmallSlices (size : Line → Nat) (cfg : EsWriteConfig)
    (batches : List (List (Option Line))) : Prop :=
  ∀ col ∈ intactBatches batches, ∀ i : Nat,
    bodyBytes size ((col.reduceOption.drop (i * cfg.chunkSize.toNat)).take cfg.chunkSize.toNat) ≤
      maxBodyBytes

omit [NdjsonLine Line] in
theorem smallSlices_iff (hcs : 0 < cfg.chunkSize) {size : Line → Nat} :
    SmallSlices size cfg batches ↔
      ∀ chunk ∈ chunkPlan cfg (intactBatches batches), bodyBytes size chunk ≤ maxBodyBytes := by
  constructor
  · intro h chunk hchunk
    obtain ⟨col, hcol, hmem⟩ := List.mem_flatMap.mp hchunk
    rw [chunkSlices_of_pos hcs] at hmem
    obtain ⟨i, -, rfl⟩ := List.mem_map.mp hmem
    exact h col hcol i
  · intro h col hcol i
    have hn : 0 < cfg.chunkSize.toNat := by omega
    by_cases hi : i * cfg.chunkSize.toNat < col.reduceOption.length
    · apply h
      refine List.mem_flatMap.mpr ⟨col, hcol, ?_⟩
      rw [chunkSlices_of_pos hcs]
      refine List.mem_map_of_mem (List.mem_range.mpr ?_)
      rw [Nat.lt_div_iff_mul_lt hn]
      omega
    · rw [List.drop_of_length_le (Nat.le_of_not_lt hi)]
      simp [bodyBytes]

theorem not_withinCeiling (hcs : 0 < cfg.chunkSize) {size : Line → Nat}
    (hchunk : chunk ∈ chunkPlan cfg (intactBatches batches))
    (hbig : maxBodyBytes < bodyBytes size chunk) : ¬WithinCeiling size cfg batches := by
  intro h
  obtain ⟨x, hrun, c, hc, rfl⟩ := exists_run_carrying hcs {} hchunk
  have hle := hrun.calls_waited (fun s' x hx q hq => h _ _ _ {} _ s' x hx q hq) c hc
  omega

/-- The bodies of a partition are within the ceiling exactly if its slices are: nothing but the
number of lines ends a chunk. -/
theorem within_ceiling_iff (hcs : 1 ≤ cfg.chunkSize) (size : Line → Nat)
    (batches : List (List (Option Line))) :
    WithinCeiling size cfg batches ↔ SmallSlices size cfg batches := by
  rw [smallSlices_iff hcs]
  constructor
  · intro h chunk hchunk
    by_contra hbig
    exact not_withinCeiling hcs hchunk (Nat.lt_of_not_le hbig) h
  · intro h S P V clock s s' x hrun q hq
    have hproper := @write_asks Line _ (fun _ _ => True)
      (fun q => bodyBytes size q.operations ≤ maxBodyBytes) cfg batches
      (fun chunk hchunk q hq => (bodyBytes_sublist size hq).trans (h chunk hchunk)) clock
    exact Process.Sound.demands (.run (fun _ _ _ _ _ => trivial) hrun) hproper q hq

end Runs

def lineFront : String := "\x7b\"index\":\x7b\x7d\x7d\n\x7b\"a\":\""

def lineBack : String := "\"\x7d"

/-- An action line with a field of `n` characters. -/
def longLine (n : Nat) : String := lineFront ++ String.ofList (List.replicate n 'x') ++ lineBack

theorem utf8Len_replicate (n : Nat) : String.utf8Len (List.replicate n 'x') = n := by
  induction n with
  | zero => rfl
  | succ n ih =>
    rw [List.replicate_succ, String.utf8Len_cons, ih]
    rfl

theorem longLine_bytes (n : Nat) : (longLine n).utf8ByteSize = n + 21 := by
  have hfront : lineFront.utf8ByteSize = 19 := by decide
  have hback : lineBack.utf8ByteSize = 2 := by decide
  have hsum : (longLine n).utf8ByteSize =
      lineFront.utf8ByteSize + n + lineBack.utf8ByteSize := by
    rw [longLine, String.utf8ByteSize_append, String.utf8ByteSize_append,
      String.utf8ByteSize_ofList, utf8Len_replicate]
  rw [hsum, hfront, hback]
  omega

/-- Two lines of 60 MB each go out in one body. -/
theorem two_long_lines_exceed :
    (longLine 60000000).utf8ByteSize ≤ maxBodyBytes ∧
      ¬WithinCeiling (fun line => line.utf8ByteSize + 1) { hosts := "h" }
        [[some (longLine 60000000), some (longLine 60000000)]] := by
  have hbytes := longLine_bytes 60000000
  generalize longLine 60000000 = line at hbytes
  refine ⟨by rw [hbytes]; decide, ?_⟩
  have hplan : chunkPlan { hosts := "h" } (intactBatches [[some line, some line]]) =
      [[line, line]] := by
    simp [chunkPlan, intactBatches, chunkSlices, pyRange, List.reduceOption, Except.map]
  apply not_withinCeiling (by decide) (hplan ▸ List.mem_singleton_self _)
  simp only [bodyBytes, List.map_cons, List.map_nil, List.sum_cons, List.sum_nil, hbytes]
  decide

/-- Lines in chunks of one. -/
theorem short_lines_within :
    WithinCeiling (fun line => line.utf8ByteSize + 1) { hosts := "h", chunkSize := 1 }
      [[some "a", some "b"]] := by
  rw [within_ceiling_iff (by decide), smallSlices_iff (by decide)]
  decide

end EsConnector
