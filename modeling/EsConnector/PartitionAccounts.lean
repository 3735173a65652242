import EsConnector.PartitionChunks

namespace EsConnector
set_option autoImplicit true

open Interaction

variable {Line : Type}

/-- The counts and calls of the chunks of a partition, chunk by chunk. -/
def AccountedChunks (plan : List (List Line)) (c : Counts) (calls : List (BulkCall Line)) : Prop :=
  ∃ parts : List (Counts × List (BulkCall Line)),
    List.Forall₂ (fun chunk p => Accounted chunk [] p.1 p.2) plan parts ∧
    c = (parts.map Prod.fst).sum ∧ calls.Perm (parts.map Prod.snd).flatten

theorem AccountedChunks.missing_eq (h : AccountedChunks plan c (calls : List (BulkCall Line))) :
    c.total + missing calls = plan.flatten.length := by
  obtain ⟨parts, hp, rfl, hc⟩ := h
  have hm : missing calls = missing (parts.map Prod.snd).flatten := (hc.map missingItems).sum_eq
  rw [hm]
  clear hm hc
  induction hp with
  | nil => rfl
  | cons ha _ ih =>
    have ht := ha.total
    rw [List.length_nil, Nat.add_zero] at ht
    simp only [List.map_cons, List.sum_cons, List.flatten_cons, Counts.total_add, missing_append,
      List.length_append]
    omega

/-- With no error and nothing missing, some response vouches for every line. -/
theorem AccountedChunks.vouched (h : AccountedChunks plan c (calls : List (BulkCall Line)))
    (he : c.errors = 0) (hm : missing calls = 0) :
    ∀ line ∈ plan.flatten, ∃ call ∈ calls, Vouches call line := by
  obtain ⟨parts, hp, rfl, hc⟩ := h
  have hm' : missing (parts.map Prod.snd).flatten = 0 :=
    (hc.map missingItems).sum_eq.symm.trans hm
  suffices ∀ line ∈ plan.flatten, ∃ call ∈ (parts.map Prod.snd).flatten, Vouches call line from
    fun line hl => let ⟨call, hcall, hv⟩ := this line hl; ⟨call, hc.mem_iff.mpr hcall, hv⟩
  clear hm hc
  induction hp with
  | nil => exact fun line hl => absurd hl List.not_mem_nil
  | cons ha _ ih =>
    simp only [List.map_cons, List.sum_cons, List.flatten_cons, Counts.errors_add, missing_append,
      Nat.add_eq_zero_iff] at he hm' ⊢
    intro line hl
    rcases List.mem_append.mp hl with hl | hl
    · rcases ha.vouched he.1 hm'.1 line hl with hp | ⟨call, hcall, hv⟩
      · exact absurd hp List.not_mem_nil
      · exact ⟨call, List.mem_append_left _ hcall, hv⟩
    · obtain ⟨call, hcall, hv⟩ := ih he.2 hm'.2 line hl
      exact ⟨call, List.mem_append_right _ hcall, hv⟩

theorem length_chunkPlan (hcs : 1 ≤ cfg.chunkSize) (hnull : ∀ col ∈ batches, none ∉ col) :
    (chunkPlan cfg (batches : List (List (Option Line)))).flatten.length =
      (batches.map List.length).sum := by
  rw [chunkPlan_flatten_of_pos (by omega), List.length_flatMap]
  exact congrArg List.sum (List.map_congr_left fun col hc => length_reduceOption (hnull col hc))

theorem summaryRow_delta (n : Nat) (t : Tally) (clock : PartitionClock) :
    (summaryRow n t clock).delta = n - t.counts.total := by
  simp only [summaryRow, SummaryRow.delta, orZero, Option.getD_some, Counts.total]
  omega

/-- The response to a full-path call has one item for each line. -/
def OneItemPerLine (c : BulkCall Line) : Prop :=
  ∀ resp, c.2.result = .ok resp → c.1.filterPath.isProbe = false →
    ∃ items, resp.items = some items ∧ items.length = c.1.operations.length

theorem missing_eq_zero (h : ∀ c ∈ calls, OneItemPerLine (c : BulkCall Line)) :
    missing calls = 0 := by
  rw [missing, List.sum_eq_zero]
  intro n hn
  obtain ⟨c, hc, rfl⟩ := List.mem_map.mp hn
  rw [missingItems]
  split
  · rfl
  · next resp hres =>
    split
    · rfl
    · next hfp =>
      obtain ⟨items, hi, hlen⟩ := h c hc resp hres (by simpa using hfp)
      simp [hi, hlen]

/-- How a partition ends: without a row because of one of its batches, or with a row that
accounts for all its chunks. -/
def PartitionEnd (cfg : EsWriteConfig) (clock : PartitionClock)
    (batches : List (List (Option Line))) (calls : List (BulkCall Line)) :
    Except WriteError SummaryRow → Prop
  | .error _ => BatchFault cfg batches
  | .ok row => (∀ col ∈ batches, none ∉ col) ∧ ∃ t,
      row = summaryRow (batches.map List.length).sum t clock ∧
      AccountedChunks (chunkPlan cfg batches) t.counts calls

/-- The counts of a partition, followed through its chunks. -/
def followCounts : Followed Line Counts Counts where
  view := Tally.counts
  add c d := c + d
  adds chunk calls c := Accounted chunk [] c calls

theorem followCounts_merges (bulkStats : Bool) :
    (followCounts : Followed Line Counts Counts).Merges bulkStats := by
  intro t u d hu
  have hu' : u.counts = 0 + d := hu
  change (t.merge u).counts = t.counts + d
  rw [Tally.merge_counts, hu', zero_add]

theorem foldl_add (c : Counts) (l : List Counts) : l.foldl (fun c d => c + d) c = c + l.sum := by
  induction l generalizing c with
  | nil => exact (add_zero c).symm
  | cons d l ih => rw [List.foldl_cons, ih, List.sum_cons, add_assoc]

theorem PartitionEnd.of_followed (h : followCounts.Ends cfg clock batches (calls : List (BulkCall Line)) out) :
    PartitionEnd cfg clock batches calls out := by
  cases out with
  | error e => exact h
  | ok row =>
    obtain ⟨hnull, t, hrow, parts, order, hparts, horder, hview, hcalls⟩ := h
    have hcounts : t.counts = 0 + order.sum := hview.trans (foldl_add _ order)
    refine ⟨hnull, t, hrow, parts.map Prod.swap, ?_, ?_, ?_⟩
    · rw [List.forall₂_map_right_iff]
      exact hparts
    · rw [hcounts, zero_add, horder.sum_eq, List.map_map]
      rfl
    · rw [List.map_map]
      exact hcalls

/-- A partition without errors and without a positive discrepancy has an answer that vouches for
each of its lines. -/
theorem PartitionEnd.clean (h : PartitionEnd cfg clock (batches : List (List (Option Line))) calls
    (.ok row)) (he : orZero row.errors = 0) (hd : row.delta ≤ 0) :
    ∀ line ∈ batches.flatMap List.reduceOption, ∃ call ∈ calls, Vouches call line := by
  obtain ⟨hnull, t, rfl, hacc⟩ := h
  have htotal := hacc.missing_eq
  have hsub := chunkPlan_flatten_sublist cfg batches
  have hlen := hsub.length_le
  have hinput : (batches.flatMap List.reduceOption).length = (batches.map List.length).sum := by
    rw [List.length_flatMap]
    exact congrArg List.sum (List.map_congr_left fun col hc => length_reduceOption (hnull col hc))
  rw [summaryRow_delta] at hd
  have hmissing : missing calls = 0 := by omega
  rw [← hsub.eq_of_length (by omega)]
  exact hacc.vouched (by simpa [summaryRow, orZero] using he) hmissing

section Runs

variable [NdjsonLine Line] {S P : Type}
  {V : Server S P (BulkRequest Line) (fun _ => BulkReply)} {cfg : EsWriteConfig}
  {x : Process P (BulkRequest Line) (fun _ => BulkReply) (List Line) ChunkResult
    (Except WriteError SummaryRow)}

/-- A call may carry any lines of a chunk of the partition. -/
def AllowsChunks (demands : BulkRequest Line → Prop) (cfg : EsWriteConfig)
    (batches : List (List (Option Line))) : Prop :=
  ∀ chunk ∈ chunkPlan cfg batches, ∀ q : BulkRequest Line, q.operations ⊆ chunk → demands q

theorem ships_counts {demands : BulkRequest Line → Prop} (hd : AllowsChunks demands cfg batches) :
    ∀ chunk ∈ chunkPlan cfg batches, ∀ t log,
      wp (callEnv FewItems demands) (shipNdjsonChunk cfg chunk t)
        (followCounts.Ships chunk t log) log := by
  intro chunk hchunk t log
  apply wp_mono (wp_shipNdjsonChunk_accounts (fun _ _ h => h)
    (fun q hq _ => hd chunk hchunk q hq) t log)
  rintro r log' ⟨t', c, calls, hr, hc, hlog, hacc⟩
  exact ⟨t', calls, c, hr, hlog, hacc, hc⟩

/-- Whatever a partition asks of Elasticsearch carries lines of its own chunks. -/
theorem write_proper {demands : BulkRequest Line → Prop} (hd : AllowsChunks demands cfg batches)
    (clock : PartitionClock) :
    Proper FewItems (partitionAsks demands cfg batches) demands (shipOne cfg)
      (write cfg (shipInto cfg) clock batches) := by
  rw [partitionAsks]
  cases hpool : cfg.pooled with
  | false =>
    exact ⟨⟨_, wp_write_serial_made (ships_counts hd) hpool clock⟩, fun _ _ h => h,
      fun g task h => absurd h.1 (Nat.not_lt_zero _)⟩
  | true =>
    refine ⟨⟨_, wp_write_pooled hpool (shipInto cfg) clock batches⟩, fun _ _ h => h,
      fun g chunk h => ⟨_, ships_counts hd chunk ?_ _ _⟩⟩
    exact h.2.subset (List.mem_append_right _ (List.mem_singleton_self _))

/-- Every run of a partition accounts for all its chunks, in either mode. -/
theorem write_sound_accounts {demands : BulkRequest Line → Prop}
    (hd : AllowsChunks demands cfg batches)
    (hsound : x.Sound FewItems (partitionAsks demands cfg batches) demands (shipOne cfg)
      (write cfg (shipInto cfg) clock batches))
    (hend : x.rest = .ret out) : PartitionEnd cfg clock batches x.calls out :=
  .of_followed (write_ends (followCounts_merges _) (ships_counts hd) hsound hend)

theorem write_accounts (hV : ∀ s q p r, V.reply s q p r → FewItems q r)
    (hrun : V.Run (shipOne cfg) (write cfg (shipInto cfg) clock batches) s s' x)
    (hend : x.rest = .ret out) : PartitionEnd cfg clock batches x.calls out :=
  write_sound_accounts (fun _ _ _ _ => trivial) (.run hV hrun) hend

/-- A partition ends with `out` after `calls` beside some Elasticsearch whose answers have few
items. -/
def Ends (cfg : EsWriteConfig) (clock : PartitionClock) (batches : List (List (Option Line)))
    (out : Except WriteError SummaryRow) (calls : List (BulkCall Line)) : Prop :=
  ∃ (S P : Type) (V : Server S P (BulkRequest Line) (fun _ => BulkReply)) (s s' : S)
    (x : Process P (BulkRequest Line) (fun _ => BulkReply) (List Line) ChunkResult
      (Except WriteError SummaryRow)),
    (∀ s q p r, V.reply s q p r → FewItems q r) ∧
      V.Run (shipOne cfg) (write cfg (shipInto cfg) clock batches) s s' x ∧
      x.rest = .ret out ∧ x.calls = calls

theorem Ends.delta (hcs : 1 ≤ cfg.chunkSize) (hnull : ∀ col ∈ batches, none ∉ col)
    (h : Ends cfg clock (batches : List (List (Option Line))) out calls) :
    ∃ row, out = .ok row ∧ row.delta = missing calls := by
  obtain ⟨S, P, V, s, s', x, hV, hrun, hend, rfl⟩ := h
  have hpart := write_accounts hV hrun hend
  cases out with
  | error e =>
    rcases hpart with ⟨col, hc, hm⟩ | h0
    · exact absurd hm (hnull col hc)
    · omega
  | ok row =>
    obtain ⟨-, t, rfl, hacc⟩ := hpart
    have htotal := hacc.missing_eq
    rw [length_chunkPlan hcs hnull] at htotal
    refine ⟨_, rfl, ?_⟩
    rw [summaryRow_delta, ← htotal]
    omega

/-- Whatever the answers and however the sends of a partition interleave, its summary row misses
exactly the lines that the full-path responses had no item for. With one item for each line no
set of partitions shows a discrepancy. -/
theorem no_row_escapes :
    (∀ (cfg : EsWriteConfig) (clock : PartitionClock) (batches : List (List (Option Line)))
        (out : Except WriteError SummaryRow) (calls : List (BulkCall Line)),
      1 ≤ cfg.chunkSize → (∀ col ∈ batches, none ∉ col) → Ends cfg clock batches out calls →
        ∃ row, out = .ok row ∧ row.delta = missing calls) ∧
    ∀ rows : List SummaryRow,
      (∀ row ∈ rows, ∃ (cfg : EsWriteConfig) (clock : PartitionClock)
          (batches : List (List (Option Line))) (calls : List (BulkCall Line)),
        1 ≤ cfg.chunkSize ∧ (∀ col ∈ batches, none ∉ col) ∧
          Ends cfg clock batches (.ok row) calls ∧ ∀ c ∈ calls, OneItemPerLine c) →
      (mergePartitionResults rows).unaccounted = some 0 ∧
        (mergePartitionResults rows).overcounted = some 0 := by
  refine ⟨fun cfg clock batches out calls hcs hnull h => h.delta hcs hnull, ?_⟩
  intro rows hrows
  have hzero : ∀ row ∈ rows, row.delta = 0 := by
    intro row hrow
    obtain ⟨cfg, clock, batches, calls, hcs, hnull, hends, hone⟩ := hrows row hrow
    obtain ⟨row', he, hd⟩ := hends.delta hcs hnull
    cases he
    rw [hd, missing_eq_zero hone]
    rfl
  obtain ⟨-, -, -, -, -, -, hu, ho⟩ := mergePartitionResults_numbers rows
  rw [hu, ho]
  clear hrows hu ho
  induction rows with
  | nil => exact ⟨rfl, rfl⟩
  | cons row rows ih =>
    have h0 := hzero row List.mem_cons_self
    have := ih fun r hr => hzero r (List.mem_cons_of_mem _ hr)
    rw [lostRows_cons, surplusOutcomes_cons, h0]
    simpa using this

end Runs

/-- A partition of two rows whose only response has one item: the other row is missing. -/
theorem no_row_escapes_short_response : ∃ (row : SummaryRow) (reply : BulkReply),
    Ends { hosts := "h", bypassFastPath := true } {} [[some "{}", some "[]"]] (.ok row)
      [⟨⟨["{}", "[]"], .items⟩, reply⟩] ∧ row.delta = 1 := by
  let item : Item := some (.index, { status := some 201 })
  let reply : BulkReply := { result := .ok { items := some [item] } }
  let V : Server Unit Unit (BulkRequest String) (fun _ => BulkReply) :=
    { fresh := fun _ => ()
      work := fun _ _ _ _ _ => False
      reply := fun _ q _ r => q.operations ≠ [] ∧ r = reply }
  let start : Process Unit (BulkRequest String) (fun _ => BulkReply) (List String) ChunkResult
      (Except WriteError SummaryRow) :=
    { rest := write { hosts := "h", bypassFastPath := true }
        (shipInto { hosts := "h", bypassFastPath := true }) {} [[some "{}", some "[]"]] }
  have hstep : V.ProcessStep (shipOne { hosts := "h", bypassFastPath := true }) () start () _ :=
    .reply (q := ⟨["{}", "[]"], .items⟩) (r := reply) rfl ⟨List.cons_ne_nil _ _, rfl⟩
  obtain ⟨row, hends⟩ : ∃ row, Ends { hosts := "h", bypassFastPath := true } {}
      [[some "{}", some "[]"]] (.ok row) [⟨⟨["{}", "[]"], .items⟩, reply⟩] := by
    refine ⟨_, Unit, Unit, V, (), (), _, ?_, .single hstep, rfl, rfl⟩
    intro s q p r hr resp hresp hfp
    obtain ⟨hne, rfl⟩ := hr
    cases hresp
    exact ⟨[item], rfl, List.length_pos_iff.mpr hne⟩
  obtain ⟨row', hrow, hdelta⟩ := no_row_escapes.1 _ _ _ _ _ (by decide) (by simp) hends
  cases hrow
  exact ⟨row, reply, hends, hdelta⟩

end EsConnector
