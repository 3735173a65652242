import EsConnector.Deliveries
import EsConnector.Traceable

namespace EsConnector
set_option autoImplicit true

open Interaction

variable {Id Src Line : Type} {act : Line → Action Id Src}

/-- The attempts at a partition of a write. -/
abbrev WriteAttempts (Line : Type) : Type :=
  Attempts (List Handled) (BulkRequest Line) (fun _ => BulkReply) (List Line) ChunkResult
    (Except WriteError SummaryRow)

/-- The lines that have taken effect in the sends of a call. -/
def appliedBy (q : BulkRequest Line) (ps : List Handled) : Multiset Line :=
  (ps.map (appliedIn q)).sum

/-- The sends of a call so far. -/
def SendsOf (act : Line → Action Id Src) (k : Nat) (q : BulkRequest Line) (ps : List Handled) : Prop :=
  ps.length ≤ k + 1 ∧ ∀ p ∈ ps, Itemised act q p

theorem SendsOf.applied_le (h : SendsOf act k q ps) :
    appliedBy q ps ≤ (k + 1) • Multiset.ofList q.operations :=
  (sum_appliedIn_le q ps).trans (nsmul_le_nsmul_left (Multiset.zero_le _) h.1)

/-- The attempts at a partition have finished with a row. -/
def Reported (as : List (WriteAttempts Line)) (rows : List SummaryRow) : Prop :=
  List.Forall₂ (fun a row => a.now.rest = .ret (.ok row)) as rows

/-- What the reports say of some lines: those that are acknowledged have taken effect, the others are
no-ops, and the counts say how many of each there are. In a quiet job nothing else has taken
effect. -/
structure SettledLines (act : Line → Action Id Src) (quiet : Prop) (lines : List Line) (c : Counts)
    (applied acks idle : Multiset Line) : Prop where
  places : Multiset.ofList lines = acks + idle
  acked : acks ≤ applied
  noops : ∀ line ∈ idle, (act line).opType ≠ .index
  card_acked : c.written + c.deleted = acks.card
  card_noops : c.ignored = idle.card
  exact : quiet → applied = acks

theorem SettledLines.nil (act : Line → Action Id Src) (quiet : Prop) :
    SettledLines act quiet [] 0 0 0 0 where
  places := rfl
  acked := le_refl 0
  noops _ h := absurd h (Multiset.notMem_zero _)
  card_acked := rfl
  card_noops := rfl
  exact _ := rfl

theorem SettledLines.append (h : SettledLines act quiet lines c applied acks idle)
    (h' : SettledLines act quiet lines' c' applied' acks' idle') :
    SettledLines act quiet (lines ++ lines') (c + c') (applied + applied') (acks + acks')
      (idle + idle') where
  places := by
    rw [← Multiset.coe_add, h.places, h'.places]
    abel
  acked := add_le_add h.acked h'.acked
  noops line hline := by
    rcases Multiset.mem_add.mp hline with hline | hline
    · exact h.noops line hline
    · exact h'.noops line hline
  card_acked := by
    rw [Multiset.card_add, ← h.card_acked, ← h'.card_acked, Counts.written_add, Counts.deleted_add]
    omega
  card_noops := by rw [Multiset.card_add, ← h.card_noops, ← h'.card_noops, Counts.ignored_add]
  exact hq := by rw [h.exact hq, h'.exact hq]

section Calls

variable {calls : List (BulkCall Line)} {entries : List (Multiset Line)}

theorem acked_le_entries (h : List.Forall₂ (Shown act k) calls entries) :
    linesOf ackedLines calls ≤ entries.sum := by
  induction h with
  | nil => exact le_refl 0
  | @cons call entry calls entries hcall _ ih =>
    rw [List.sum_cons]
    exact add_le_add hcall.acked ih

theorem noops_of_entries (h : List.Forall₂ (Shown act k) calls entries) :
    ∀ line ∈ linesOf noopLines calls, (act line).opType ≠ .index := by
  induction h with
  | nil => exact fun line hline => absurd hline (Multiset.notMem_zero _)
  | @cons call entry calls entries hcall _ ih =>
    intro line hline
    rcases Multiset.mem_add.mp hline with hline | hline
    · exact hcall.noops line (Multiset.mem_coe.mp hline)
    · exact ih line hline

theorem entries_eq_acked (h : List.Forall₂ (Shown act k) calls entries) (hk : k = 0)
    (hc : ∀ call ∈ calls, Conclusive call) : entries.sum = linesOf ackedLines calls := by
  induction h with
  | nil => rfl
  | @cons call entry calls entries hcall _ ih =>
    rw [List.sum_cons, hcall.exact hk (hc call List.mem_cons_self),
      ih fun c hmem => hc c (List.mem_cons_of_mem _ hmem)]
    rfl

theorem conclusive_of_answered {call : BulkCall Line} (ha : answered call = true)
    (hp : call.1.filterPath.isProbe = false) (hm : missingItems call = 0) : Conclusive call := by
  obtain ⟨q, r⟩ := call
  cases hres : r.result with
  | error e => simp [answered, hres] at ha
  | ok resp => exact ⟨resp, hres, fun hprobe => absurd (hprobe.symm.trans hp) (by simp), hm⟩

theorem missing_eq_zero_iff : missing calls = 0 ↔ ∀ call ∈ calls, missingItems call = 0 := by
  rw [missing, List.sum_eq_zero_iff, List.forall_mem_map]

end Calls

variable [DecidableEq Id]

/-- Elasticsearch as the client reaches it: `client_kwargs` lets the transport send a request again
`transport_max_retries` times. -/
def clientServer (act : Line → Action Id Src) (rules : EsRules) (cfg : EsWriteConfig) :
    Server (EsState Id Src Line) (List Handled) (BulkRequest Line) (fun _ => BulkReply) :=
  (elasticsearch act rules).resending cfg.transportMaxRetries.toNat

section Jobs

variable [NdjsonLine Line] {rules : EsRules} {cfg : EsWriteConfig} {parts : List (Partition Line)}
  {p : Partition Line} {s s' : EsState Id Src Line} {a : WriteAttempts Line}
  {as : List (WriteAttempts Line)} {total : Multiset Line}

omit [NdjsonLine Line] in
theorem clientServer_fewItems :
    ∀ s q ps r, (clientServer act rules cfg).reply s q ps r → FewItems q r := by
  rintro s q ps r ⟨p, -, hr⟩
  exact Replies.fewItems hr

omit [NdjsonLine Line] in
theorem clientServer_accountable :
    (clientServer act rules cfg).Accountable (fun s => Multiset.ofList s.applied) appliedBy
      (SendsOf act cfg.transportMaxRetries.toNat) (Shown act cfg.transportMaxRetries.toNat) :=
  have h := (elasticsearch_accountable act rules).resending cfg.transportMaxRetries.toNat
  { fresh := h.fresh
    work := h.work
    reply := fun s q ps r hr hI => .of_resent (h.reply s q ps r hr hI) }

/-- The Spark job of a write with all attempts at its partitions, those that were given up and
started again included. -/
def AttemptedWrite (act : Line → Action Id Src) (rules : EsRules) (cfg : EsWriteConfig)
    (parts : List (Partition Line)) (s s' : EsState Id Src Line) (as : List (WriteAttempts Line)) :
    Prop :=
  (clientServer act rules cfg).AttemptedJob (shipOne cfg) (parts.map (Partition.main cfg)) s s' as

/-- An attempt at a partition is a run of its writer. -/
abbrev AttemptsAt (cfg : EsWriteConfig) (p : Partition Line) (a : WriteAttempts Line) : Prop :=
  Attempted FewItems (fun _ => True) (fun p => partitionAsks (fun _ => True) cfg p.batches)
    (shipOne cfg) (Partition.main cfg) p a

/-- The lines that have taken effect in the attempts at a partition. -/
abbrev WritePosts (act : Line → Action Id Src) (rules : EsRules) (cfg : EsWriteConfig)
    (a : WriteAttempts Line) (total : Multiset Line) : Prop :=
  a.Posts (clientServer act rules cfg) appliedBy (SendsOf act cfg.transportMaxRetries.toNat)
    (Shown act cfg.transportMaxRetries.toNat) total

theorem AttemptedWrite.sound (h : AttemptedWrite act rules cfg parts s s' as) :
    List.Forall₂ (AttemptsAt cfg) parts as :=
  Server.AttemptedJob.attempted clientServer_fewItems h

theorem AttemptedWrite.posts (h : AttemptedWrite act rules cfg parts s s' as) :
    ∃ totals, Multiset.ofList s'.applied = Multiset.ofList s.applied + totals.sum ∧
      List.Forall₂ (WritePosts act rules cfg) as totals :=
  Server.AttemptedJob.posts clientServer_accountable h

theorem AttemptedWrite.over (h : AttemptedWrite act rules cfg parts s s' as) (ha : a ∈ as)
    (hout : a.now.rest = .ret out) : a.now.Over := by
  have hjoins : ∀ main ∈ parts.map (Partition.main cfg), Joins main := by
    intro main hmain
    obtain ⟨p, -, rfl⟩ := List.mem_map.mp hmain
    exact write_joins cfg p.clock p.batches
  exact (Server.Job.joining hjoins (Server.AttemptedJob.job h) a.now
    (List.mem_map.mpr ⟨a, ha, rfl⟩)).over hout

/-- What Elasticsearch keeps while lines of the write take effect holds of the write, however often a
request is sent and a partition started. -/
theorem AttemptedWrite.keeps {K : EsState Id Src Line → Prop}
    {I : EsState Id Src Line → BulkRequest Line → Handled → Prop}
    {G : EsState Id Src Line → BulkCall Line → Prop}
    (hK : (elasticsearch act rules).Keeps (fun q => q.operations ⊆ inputLines parts) K I G)
    (hs : K s) (h : AttemptedWrite act rules cfg parts s s' as) :
    JobSound FewItems
      (fun p => partitionAsks (fun q => q.operations ⊆ inputLines parts) cfg p.batches)
      (fun q => q.operations ⊆ inputLines parts) (shipOne cfg) (Partition.main cfg)
      (clientServer act rules cfg) K (fun s q ps => ∀ p ∈ ps, I s q p) G parts s'
      (as.map Attempts.now) :=
  JobSound.steps clientServer_fewItems (hK.resending _)
    (fun p hp => write_proper (allowsChunks_inputLines hp) p.clock) hs
    (Server.AttemptedJob.job h)

/-- A step of a write. -/
def WriteStep (act : Line → Action Id Src) (rules : EsRules) (cfg : EsWriteConfig)
    (parts : List (Partition Line)) (b c : EsState Id Src Line × List (WriteAttempts Line)) : Prop :=
  (clientServer act rules cfg).AttemptStep (shipOne cfg) (parts.map (Partition.main cfg)) b.1 b.2
    c.1 c.2

theorem AttemptedWrite.onward {K : EsState Id Src Line → Prop}
    {b : EsState Id Src Line × List (WriteAttempts Line)}
    (hK : ∀ s q p s' p', q.operations ⊆ inputLines parts → Handles act rules s q p s' p' → K s →
      K s') (h : AttemptedWrite act rules cfg parts s s' as) (hs : K s')
    (hb : Relation.ReflTransGen (WriteStep act rules cfg parts) (s', as) b) : K b.1 := by
  have hsound := h.keeps (keepsState (K := fun _ => True) fun _ _ _ _ _ _ _ h => h) trivial
  suffices JobSound FewItems
      (fun p => partitionAsks (fun q => q.operations ⊆ inputLines parts) cfg p.batches)
      (fun q => q.operations ⊆ inputLines parts) (shipOne cfg) (Partition.main cfg)
      (clientServer act rules cfg) K (fun _ _ ps => ∀ p ∈ ps, True) (fun _ _ => True) parts b.1
      (b.2.map Attempts.now) from this.state
  induction hb with
  | refl => exact ⟨hsound.sound, hsound.keeping, hs⟩
  | tail _ hstep ih =>
    exact ih.step clientServer_fewItems ((keepsState hK).resending _)
      (fun p hp => write_proper (allowsChunks_inputLines hp) p.clock) (Server.AttemptStep.job hstep)

/-- A partition that reports accounts for its chunks by calls of which Elasticsearch keeps what it
keeps. -/
theorem AttemptedWrite.ends {K : EsState Id Src Line → Prop}
    {I : EsState Id Src Line → BulkRequest Line → Handled → Prop}
    {G : EsState Id Src Line → BulkCall Line → Prop}
    (hK : (elasticsearch act rules).Keeps (fun q => q.operations ⊆ inputLines parts) K I G)
    (hs : K s) (h : AttemptedWrite act rules cfg parts s s' as) (hrows : Reported as rows) (i : Nat)
    (hi : i < parts.length) (hr : i < rows.length) :
    ∃ calls, PartitionEnd cfg parts[i].clock parts[i].batches calls (.ok rows[i]) ∧
      ∀ call ∈ calls, G s' call := by
  have hsound := h.keeps hK hs
  have ha : i < as.length := hrows.length_eq ▸ hr
  have hx : i < (as.map Attempts.now).length := by rwa [List.length_map]
  have hrow := hrows.get ha hr
  have hat := hsound.sound.get hi hx
  have hkeep := hsound.keeping _ (List.getElem_mem hx)
  simp only [List.get_eq_getElem, List.getElem_map] at hrow hat hkeep
  exact ⟨_, write_sound_accounts (allowsChunks_inputLines (List.getElem_mem hi)) hat hrow,
    hkeep.calls⟩

theorem AttemptedWrite.lengths (h : AttemptedWrite act rules cfg parts s s' as)
    (hrows : Reported as rows) : rows.length = parts.length :=
  hrows.length_eq.symm.trans h.sound.length_eq.symm

/-- How often a line of a partition may reach Elasticsearch in one attempt: each of its calls is sent
once, and again as often as the transport does. -/
def EsWriteConfig.sendsPerAttempt (cfg : EsWriteConfig) : Nat :=
  cfg.sendsPerChunk * (cfg.transportMaxRetries.toNat + 1)

omit [DecidableEq Id] [NdjsonLine Line] in
theorem countP_nsmul_coe (kind : Line → Bool) (k : Nat) (lines : List Line) :
    Multiset.countP (kind · = true) (k • Multiset.ofList lines) = k * lines.countP kind := by
  rw [Multiset.countP_nsmul, Multiset.coe_countP]
  simp only [Bool.decide_eq_true]

theorem applied_le_sends (kind : Line → Bool)
    {x : Process (List Handled) (BulkRequest Line) (fun _ => BulkReply) (List Line) ChunkResult
      (Except WriteError SummaryRow)}
    (hx : x.Sound FewItems (partitionAsks (fun _ => True) cfg p.batches) (fun _ => True)
      (shipOne cfg) (p.main cfg))
    (h : x.Posts (clientServer act rules cfg) appliedBy (SendsOf act cfg.transportMaxRetries.toNat)
      (Shown act cfg.transportMaxRetries.toNat) total) :
    total.countP (kind · = true) ≤ cfg.sendsPerAttempt * p.actionLines.countP kind := by
  let k := cfg.transportMaxRetries.toNat
  let f := Multiset.countPAddMonoidHom fun line => kind line = true
  have hlegal : ∀ q : BulkRequest Line, ∃ r, FewItems q r := by
    intro q
    refine ⟨{ result := .ok { items := some [] } }, fun resp hres _ => ?_⟩
    cases hres
    exact ⟨[], rfl, Nat.zero_le _⟩
  have hweight {m : Multiset Line} {q : BulkRequest Line}
      (hm : m ≤ (k + 1) • Multiset.ofList q.operations) :
      f m ≤ (k + 1) * q.operations.countP kind := by
    rw [← countP_nsmul_coe]
    exact Multiset.countP_le_of_le _ hm
  calc f total
      ≤ (x.queries.map fun q => (k + 1) * q.operations.countP kind).sum :=
        h.le (fun _ _ hshown => hweight hshown.within) (fun _ _ hsends => hweight hsends.applied_le)
    _ = (k + 1) * carried kind x.queries := List.sum_map_mul_left ..
    _ ≤ (k + 1) * (cfg.sendsPerChunk * p.actionLines.countP kind) :=
        Nat.mul_le_mul_left _ (write_carried hlegal hx)
    _ = cfg.sendsPerAttempt * p.actionLines.countP kind := by
        rw [EsWriteConfig.sendsPerAttempt, ← Nat.mul_assoc, Nat.mul_comm (k + 1)]

/-- In all attempts at a partition no line takes effect more often than it is sent. -/
theorem WritePosts.le (kind : Line → Bool) (hs : AttemptsAt cfg p a)
    (h : WritePosts act rules cfg a total) : total.countP (kind · = true) ≤
      a.all.length * (cfg.sendsPerAttempt * p.actionLines.countP kind) := by
  obtain ⟨past, now, hpast, hnow, rfl⟩ := h
  have hall : List.Forall₂ _ a.all (past ++ [now]) := List.rel_append hpast (.cons hnow .nil)
  rw [← List.sum_singleton (x := now), ← List.sum_append]
  rw [AttemptsAt, Attempted] at hs
  generalize a.all = xs at hs hall
  generalize past ++ [now] = totals at hall
  induction hall with
  | nil => exact Nat.zero_le _
  | @cons x total xs totals hx _ ih =>
    have hrest := ih fun y hy => hs y (List.mem_cons_of_mem _ hy)
    have hfirst := applied_le_sends kind (hs x List.mem_cons_self) hx
    rw [List.sum_cons, Multiset.countP_add, List.length_cons, Nat.add_mul, Nat.one_mul, Nat.add_comm]
    exact Nat.add_le_add hrest hfirst

/-- The attempts at a partition whose last one shows no error and no loss. -/
theorem WritePosts.settled {quiet : Prop} (hs : AttemptsAt cfg p a)
    (h : WritePosts act rules cfg a total) (hover : a.now.Over)
    (hrow : a.now.rest = .ret (.ok row)) (he : orZero row.errors = 0) (hd : row.delta ≤ 0)
    (hquiet : quiet → cfg.probes = false ∧ cfg.transportMaxRetries = 0 ∧ a.past = []) :
    ∃ acks idle, SettledLines act quiet p.actionLines row.counts total acks idle := by
  obtain ⟨past, now, hpast, hnow, rfl⟩ := h
  obtain ⟨entries, hentries, rfl⟩ := hnow.finished hover
  have hdivided : Divided cfg p.actionLines a.now.calls row.counts 0 0 :=
    write_settles (hs a.now (List.mem_append_right _ List.mem_cons_self)) hrow he hd
  refine ⟨linesOf ackedLines a.now.calls, linesOf noopLines a.now.calls, ?_, ?_,
    noops_of_entries hentries, hdivided.card_acked, hdivided.card_noops, ?_⟩
  · simpa using hdivided.places
  · exact (acked_le_entries hentries).trans (Multiset.le_add_left ..)
  · intro hq
    obtain ⟨hprobes, hmax, hpast'⟩ := hquiet hq
    have hsends : cfg.sendsPerRequest = 1 := by
      rw [EsWriteConfig.sendsPerRequest, hmax]
      exact ite_self 1
    have hmissing := missing_eq_zero_iff.mp hdivided.card_gone
    have hconclusive : ∀ call ∈ a.now.calls, Conclusive call := by
      intro call hcall
      obtain ⟨hanswered, hprobe⟩ := hdivided.quiet hprobes hsends rfl call hcall
      exact conclusive_of_answered hanswered hprobe (hmissing call hcall)
    rw [hpast'] at hpast
    cases hpast
    rw [List.sum_nil, zero_add, entries_eq_acked hentries (by rw [hmax]; rfl) hconclusive]

/-- Nothing of a write is sent more than needed: no fast-path probes, no re-sends by the transport
and no partition started again. -/
def Quiet (cfg : EsWriteConfig) (as : List (WriteAttempts Line)) : Prop :=
  cfg.probes = false ∧ cfg.transportMaxRetries = 0 ∧ ∀ a ∈ as, a.past = []

variable {totals : List (Multiset Line)}

theorem WritePosts.sum_le (kind : Line → Bool) (hs : List.Forall₂ (AttemptsAt cfg) parts as)
    (h : List.Forall₂ (WritePosts act rules cfg) as totals) (hn : ∀ a ∈ as, a.all.length ≤ n) :
    totals.sum.countP (kind · = true) ≤
      n * cfg.sendsPerAttempt * (inputLines parts).countP kind := by
  induction hs generalizing totals with
  | nil =>
    cases h
    exact Nat.zero_le _
  | @cons p a parts as hs _ ih =>
    cases h with
    | @cons _ total _ totals hpost hposts =>
      have hrest := ih hposts fun a ha => hn a (List.mem_cons_of_mem _ ha)
      have hfirst := (WritePosts.le kind hs hpost).trans
        (Nat.mul_le_mul_right _ (hn a List.mem_cons_self))
      rw [← Nat.mul_assoc] at hfirst
      rw [List.sum_cons, Multiset.countP_add, inputLines, List.flatMap_cons, List.countP_append,
        Nat.mul_add]
      exact Nat.add_le_add hfirst hrest

theorem WritePosts.sum_settled {quiet : Prop} (hs : List.Forall₂ (AttemptsAt cfg) parts as)
    (h : List.Forall₂ (WritePosts act rules cfg) as totals)
    (hover : ∀ a ∈ as, ∀ out, a.now.rest = .ret out → a.now.Over) (hrows : Reported as rows)
    (hclean : CleanRows rows)
    (hquiet : ∀ a ∈ as, quiet → cfg.probes = false ∧ cfg.transportMaxRetries = 0 ∧ a.past = []) :
    ∃ acks idle, SettledLines act quiet (inputLines parts) (rows.map SummaryRow.counts).sum
      totals.sum acks idle := by
  induction hs generalizing totals rows with
  | nil =>
    cases h
    cases hrows
    exact ⟨0, 0, .nil act quiet⟩
  | @cons p a parts as hs _ ih =>
    cases h with
    | @cons _ total _ totals hpost hposts =>
      cases hrows with
      | @cons _ row _ rows hrow hrows =>
        obtain ⟨he, hd⟩ := hclean row List.mem_cons_self
        obtain ⟨acks, idle, hfirst⟩ := WritePosts.settled hs hpost
          (hover a List.mem_cons_self _ hrow) hrow he hd (hquiet a List.mem_cons_self)
        obtain ⟨acks', idle', hrest⟩ := ih hposts
          (fun a ha => hover a (List.mem_cons_of_mem _ ha)) hrows
          (fun row hr => hclean row (List.mem_cons_of_mem _ hr))
          (fun a ha => hquiet a (List.mem_cons_of_mem _ ha))
        exact ⟨_, _, hfirst.append hrest⟩

/-- The books of a write over all attempts at its partitions: the lines that have taken effect, how
often each can have done so, and what the reports say of them. -/
theorem AttemptedWrite.books (h : AttemptedWrite act rules cfg parts s s' as) :
    ∃ applied : List Line, applied ⊆ inputLines parts ∧ AppliesAll act applied s.store s'.store ∧
      (∀ (kind : Line → Bool) (n : Nat), (∀ a ∈ as, a.all.length ≤ n) →
        applied.countP kind ≤ n * cfg.sendsPerAttempt * (inputLines parts).countP kind) ∧
      ∀ rows, Reported as rows → CleanRows rows → ∃ acks idle, SettledLines act (Quiet cfg as)
        (inputLines parts) (rows.map SummaryRow.counts).sum (Multiset.ofList applied) acks idle := by
  obtain ⟨applied, hlist, hsub, hall⟩ := (h.keeps (keepsApplied s) (.refl _ s)).state
  obtain ⟨totals, hposted, hposts⟩ := h.posts
  -- what the calls have made is what Elasticsearch has applied
  have htotals : totals.sum = Multiset.ofList applied := by
    rw [hlist, ← Multiset.coe_add] at hposted
    exact (add_left_cancel hposted).symm
  refine ⟨applied, hsub, hall, fun kind n hn => ?_, fun rows hrows hclean => ?_⟩
  · have hle := WritePosts.sum_le kind h.sound hposts hn
    rw [htotals, Multiset.coe_countP] at hle
    simpa only [Bool.decide_eq_true] using hle
  · rw [← htotals]
    apply WritePosts.sum_settled h.sound hposts (fun a ha _ => h.over ha) hrows hclean
    intro a ha hquiet
    exact ⟨hquiet.1, hquiet.2.1, hquiet.2.2 a ha⟩

end Jobs

/-- A write of one partition that waits for a request of one line, which is sent once, handled and
then answered. -/
theorem AttemptSteps.single {rules : EsRules} {cfg : EsWriteConfig} {s s' : EsState Id Src Line}
    {a : WriteAttempts Line} {line : Line} {body : List Line → BulkProg Line ChunkResult}
    {mains : List (PartitionProg Line (Except WriteError SummaryRow))}
    {k : BulkReply → PartitionProg Line (Except WriteError SummaryRow)}
    (hx : a.now.rest = .ask (.call ⟨[line], fp⟩) k) (hp : a.now.progress = none)
    (hw : Handles act rules s ⟨[line], fp⟩ [none] s' [some item])
    (hr : Replies rules ⟨[line], fp⟩ [some item] reply) :
    Relation.ReflTransGen (fun b c : EsState Id Src Line × List (WriteAttempts Line) =>
        (clientServer act rules cfg).AttemptStep body mains b.1 b.2 c.1 c.2) (s, [a])
      (s', [{ a with now := { a.now with
        log := a.now.log ++ [⟨⟨[line], fp⟩, reply⟩], rest := k reply, progress := none } }]) := by
  let x : WriteAttempts Line := { a with now := { a.now with progress := some [[some item]] } }
  have hwork : (clientServer act rules cfg).ProcessStep body s a.now s' x.now :=
    .work hx (by rw [hp]; exact .work 0 rfl hw)
  have hreply : (clientServer act rules cfg).ProcessStep body s' x.now s' { x.now with
      log := a.now.log ++ [⟨⟨[line], fp⟩, reply⟩], rest := k reply, progress := none } :=
    .reply hx ⟨_, rfl, hr⟩
  have hfirst : (clientServer act rules cfg).AttemptStep body mains s [a] s' [x] :=
    .step 0 rfl hwork
  have hsecond : (clientServer act rules cfg).AttemptStep body mains s' [x] s' [{ x with
      now := { x.now with
        log := a.now.log ++ [⟨⟨[line], fp⟩, reply⟩], rest := k reply, progress := none } }] :=
    .step 0 rfl hreply
  exact .head (a := (s, [a])) (b := (s', [x])) hfirst (.single hsecond)

end EsConnector
