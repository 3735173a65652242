import Mathlib.Data.List.Chain
import EsConnector.ChunkRuns

namespace EsConnector
set_option autoImplicit true

open Interaction

variable {Line : Type}

section Loops

variable [NdjsonLine Line]

/-- `_send_retrying` with the counter of its `while True`. A run that the fuel cuts off has no
result. -/
def sendWhile (cfg : EsWriteConfig) (ops : List Line) (filterPath : FilterPath) :
    (fuel attempt : Nat) → Option (List SendRecord) → BulkProg Line (Option SendResult)
  | 0, _, _ => pure none
  | fuel + 1, attempt, stats => do
    let (result, stats) ← send cfg ops filterPath stats
    match result with
    | .ok resp => pure (some (.ok resp, stats))
    | .error e =>
      if cfg.retryTransportTimeout && e.isConnectionTimeout then
        if cfg.transportMaxRetries ≤ attempt then pure (some (.error e, stats))
        else sendWhile cfg ops filterPath fuel (attempt + 1) stats
      else pure (some (.error e, stats))

/-- The `while pending` of the full path with its counter. -/
def fullWhile (cfg : EsWriteConfig) (sendFuel : Nat) :
    (fuel attempt : Nat) → List Line → Tally →
      BulkProg Line (Option (Except ShipError Tally))
  | 0, _, _, _ => pure none
  | fuel + 1, attempt, pending, t =>
    if pending = [] then pure (some (.ok t))
    else do
      match ← sendWhile cfg pending (fullFilterPath t) sendFuel 0 t.stats with
      | none => pure none
      | some (.error e, stats) =>
        pure (some (.ok (Tally.failRequest { t with stats } pending.length e)))
      | some (.ok resp, stats) =>
        match classifyResponse cfg (decide (attempt < cfg.maxRetriesPerDoc)) pending resp
            { t with stats } with
        | .error e => pure (some (.error e))
        | .ok r =>
          if r.retryLines = [] then pure (some (.ok r.tally))
          else fullWhile cfg sendFuel fuel (attempt + 1) r.retryLines r.tally

/-- `_ship_ndjson_chunk` with the loops of the source. -/
def shipWhile (cfg : EsWriteConfig) (sendFuel fuel : Nat) (lines : List Line) (t : Tally) :
    BulkProg Line (Option (Except ShipError Tally)) :=
  if cfg.probes then do
    match ← sendWhile cfg lines (fastFilterPath t) sendFuel 0 t.stats with
    | none => pure none
    | some (.error e, stats) =>
      pure (some (.ok (Tally.failRequest { t with stats } lines.length e)))
    | some (.ok resp, stats) =>
      if resp.errors.getD true = false then
        pure (some (.ok (Tally.addCounts { t with stats } { written := lines.length })))
      else fullWhile cfg sendFuel fuel 0 lines { t with stats }
  else fullWhile cfg sendFuel fuel 0 lines t

theorem bind_congr_right {Q : Type} {R : Q → Type} (p : Prog Q R α) {f g : α → Prog Q R β}
    (h : ∀ a, f a = g a) : p >>= f = p >>= g :=
  congrArg (p >>= ·) (funext h)

/-- Fuel for the re-sends that are left is fuel enough. -/
theorem sendWhile_eq (cfg : EsWriteConfig) (ops : List Line) (fp : FilterPath)
    (stats : Option (List SendRecord)) (hleft : cfg.transportMaxRetries.toNat - attempt = left)
    (hfuel : left < fuel) :
    sendWhile cfg ops fp fuel attempt stats =
      sendRetrying cfg ops fp left stats >>= fun r => pure (some r) := by
  induction left generalizing attempt fuel stats with
  | zero =>
    obtain ⟨fuel, rfl⟩ := Nat.exists_eq_add_one.mpr (Nat.zero_lt_of_lt hfuel)
    rw [sendWhile, sendRetrying]
    apply bind_congr_right
    rintro ⟨result, stats⟩
    cases result with
    | ok resp => rfl
    | error e =>
      dsimp only
      rw [if_pos (show cfg.transportMaxRetries ≤ attempt by omega), ite_self]
  | succ left ih =>
    obtain ⟨fuel, rfl⟩ := Nat.exists_eq_add_one.mpr (Nat.zero_lt_of_lt hfuel)
    rw [sendWhile, sendRetrying, Prog.bind_assoc]
    apply bind_congr_right
    rintro ⟨result, stats⟩
    cases result with
    | ok resp => rfl
    | error e =>
      dsimp only
      rw [if_neg (show ¬cfg.transportMaxRetries ≤ attempt by omega),
        ih stats (by omega) (Nat.lt_of_succ_lt_succ hfuel)]
      split <;> rfl

/-- An iteration of the full path is a round, after which the lines left to retry go on. -/
theorem fullWhile_round (cfg : EsWriteConfig) (pending : List Line) (t : Tally)
    (hsend : cfg.transportMaxRetries.toNat < sendFuel) :
    fullWhile cfg sendFuel (fuel + 1) attempt pending t =
      if pending = [] then pure (some (.ok t))
      else fullRound cfg (decide ((attempt : Int) < cfg.maxRetriesPerDoc)) pending t >>= fun
        | .error e => pure (some (.error e))
        | .ok r =>
          if r.retryLines = [] then pure (some (.ok r.tally))
          else fullWhile cfg sendFuel fuel (attempt + 1) r.retryLines r.tally := by
  rw [fullWhile]
  split
  · rfl
  · rw [sendWhile_eq cfg pending _ t.stats rfl hsend, fullRound, Prog.bind_assoc, Prog.bind_assoc]
    apply bind_congr_right
    rintro ⟨result, stats⟩
    cases result with
    | error e => rfl
    | ok resp => rfl

theorem fullRound_last {pending : List Line} {t : Tally}
    {f g : Except ShipError (Round Line) → BulkProg Line α} (herror : ∀ e, f (.error e) = g (.error e))
    (hok : ∀ r : Round Line, r.retryLines = [] → f (.ok r) = g (.ok r)) :
    fullRound cfg false pending t >>= f = fullRound cfg false pending t >>= g := by
  rw [fullRound, Prog.bind_assoc, Prog.bind_assoc]
  apply bind_congr_right
  rintro ⟨result, stats⟩
  cases result with
  | error e => exact hok _ rfl
  | ok resp =>
    change f (classifyResponse cfg false pending resp { t with stats }) =
      g (classifyResponse cfg false pending resp { t with stats })
    cases hround : classifyResponse cfg false pending resp { t with stats } with
    | error e => exact herror e
    | ok r => exact hok r (classifyResponse_no_retry hround)

theorem fullWhile_eq (cfg : EsWriteConfig) (pending : List Line) (t : Tally)
    (hsend : cfg.transportMaxRetries.toNat < sendFuel)
    (hleft : cfg.maxRetriesPerDoc.toNat - attempt = left) (hfuel : left < fuel) :
    fullWhile cfg sendFuel fuel attempt pending t =
      fullPath cfg left pending t >>= fun r => pure (some r) := by
  induction left generalizing attempt fuel pending t with
  | zero =>
    have hspent : decide ((attempt : Int) < cfg.maxRetriesPerDoc) = false :=
      decide_eq_false (by omega)
    obtain ⟨fuel, rfl⟩ := Nat.exists_eq_add_one.mpr (Nat.zero_lt_of_lt hfuel)
    rw [fullWhile_round cfg pending t hsend, hspent, fullPath]
    split
    · rfl
    · rw [Prog.bind_assoc]
      apply fullRound_last
      · intro e
        rfl
      · intro r hnone
        dsimp only
        rw [if_pos hnone]
        rfl
  | succ left ih =>
    have hretry : decide ((attempt : Int) < cfg.maxRetriesPerDoc) = true :=
      decide_eq_true (by omega)
    obtain ⟨fuel, rfl⟩ := Nat.exists_eq_add_one.mpr (Nat.zero_lt_of_lt hfuel)
    rw [fullWhile_round cfg pending t hsend, hretry, fullPath]
    split
    · rfl
    · rw [Prog.bind_assoc]
      apply bind_congr_right
      intro round
      cases round with
      | error e => rfl
      | ok r =>
        dsimp only
        split
        · rfl
        · exact ih r.retryLines r.tally (by omega) (Nat.lt_of_succ_lt_succ hfuel)

theorem shipWhile_eq (cfg : EsWriteConfig) (lines : List Line) (t : Tally)
    (hsend : cfg.transportMaxRetries.toNat < sendFuel) (hfuel : cfg.maxRetriesPerDoc.toNat < fuel) :
    shipWhile cfg sendFuel fuel lines t =
      shipNdjsonChunk cfg lines t >>= fun r => pure (some r) := by
  rw [shipWhile, shipNdjsonChunk]
  split
  · rw [sendWhile_eq cfg lines _ t.stats rfl hsend, Prog.bind_assoc, Prog.bind_assoc]
    apply bind_congr_right
    rintro ⟨result, stats⟩
    cases result with
    | error e => rfl
    | ok resp =>
      change (if resp.errors.getD true = false then _ else fullWhile cfg sendFuel fuel 0 lines _) =
        (if resp.errors.getD true = false then _ else fullPath cfg _ lines _) >>= _
      split
      · rfl
      · exact fullWhile_eq cfg lines _ hsend rfl hfuel
  · exact fullWhile_eq cfg lines t hsend rfl hfuel

end Loops

/-- How often one request may be sent: once, and once more for each timeout retry that the
connector owns. -/
def EsWriteConfig.sendsPerRequest (cfg : EsWriteConfig) : Nat :=
  if cfg.retryTransportTimeout then 1 + cfg.transportMaxRetries.toNat else 1

/-- The requests of a chunk: the probe if there is one, and the rounds of the full path. -/
def EsWriteConfig.requestsPerChunk (cfg : EsWriteConfig) : Nat :=
  (if cfg.probes then 1 else 0) + 1 + cfg.maxRetriesPerDoc.toNat

/-- A call that raised is followed by another only as a re-send of its own request after a
connection timeout. -/
def ResendsTimeouts (cfg : EsWriteConfig) (c d : BulkCall Line) : Prop :=
  ∀ e, c.2.result = .error e →
    cfg.retryTransportTimeout = true ∧ e.isConnectionTimeout = true ∧ d.1 = c.1

theorem Burst.length_le (h : Burst cfg (q : BulkRequest Line) result left calls) :
    calls.length ≤ if cfg.retryTransportTimeout then 1 + left else 1 := by
  induction h with
  | last => split <;> simp
  | again reply he hresend _ ih =>
    simp only [EsWriteConfig.retriesTransport, Bool.and_eq_true] at hresend
    simp only [hresend.1, if_true, List.length_cons] at ih ⊢
    omega

theorem Burst.answered_le (h : Burst cfg (q : BulkRequest Line) result left calls) :
    calls.countP answered ≤ 1 := by
  induction h with
  | last => exact List.countP_le_length
  | again reply he _ _ ih =>
    rwa [List.countP_cons_of_neg (by simp [answered, he])]

theorem Burst.head (h : Burst cfg (q : BulkRequest Line) result left calls) :
    ∀ c ∈ calls.head?, c.1 = q := by
  cases h <;> simp

theorem Burst.resends (h : Burst cfg (q : BulkRequest Line) result left calls) :
    calls.IsChain (ResendsTimeouts cfg) := by
  induction h with
  | last => exact .singleton _
  | again reply he hresend hrest ih =>
    rw [List.isChain_cons]
    refine ⟨fun d hd e' he' => ?_, ih⟩
    rw [EsWriteConfig.retriesTransport, Bool.and_eq_true] at hresend
    rw [he] at he'
    cases he'
    exact ⟨hresend.1, hresend.2, hrest.head d hd⟩

theorem Burst.resends_append (h : Burst cfg (q : BulkRequest Line) (.ok resp) left calls)
    (hrest : rest.IsChain (ResendsTimeouts cfg)) :
    (calls ++ rest).IsChain (ResendsTimeouts cfg) := by
  apply List.IsChain.append h.resends hrest
  intro c hc d _ e he
  obtain ⟨reply, hl, hr⟩ := h.getLast
  rw [hl] at hc
  cases hc
  rw [hr] at he
  cases he

/-- What the calls of some requests keep to. -/
structure WithinBudget (cfg : EsWriteConfig) (requests : Nat) (calls : List (BulkCall Line)) :
    Prop where
  length : calls.length ≤ requests * cfg.sendsPerRequest
  answered : calls.countP answered ≤ requests
  resends : calls.IsChain (ResendsTimeouts cfg)

theorem Burst.withinBudget
    (h : Burst cfg (q : BulkRequest Line) result cfg.transportMaxRetries.toNat calls) :
    WithinBudget cfg 1 calls where
  length := by
    rw [one_mul]
    exact h.length_le
  answered := h.answered_le
  resends := h.resends

theorem WithinBudget.mono (h : WithinBudget cfg m (calls : List (BulkCall Line))) (hmn : m ≤ n) :
    WithinBudget cfg n calls where
  length := h.length.trans (Nat.mul_le_mul_right _ hmn)
  answered := h.answered.trans hmn
  resends := h.resends

theorem Burst.withinBudget_append
    (h : Burst cfg (q : BulkRequest Line) (.ok resp) cfg.transportMaxRetries.toNat calls)
    (hrest : WithinBudget cfg n rest) : WithinBudget cfg (n + 1) (calls ++ rest) where
  length := by
    have hl := h.withinBudget.length
    have hr := hrest.length
    rw [List.length_append, Nat.add_mul]
    omega
  answered := by
    rw [List.countP_append, Nat.add_comm n]
    exact Nat.add_le_add h.answered_le hrest.answered
  resends := h.resends_append hrest.resends

theorem WithinBudget.initial (h : WithinBudget cfg n (calls : List (BulkCall Line)))
    (hpre : before <+: calls) : WithinBudget cfg n before where
  length := hpre.length_le.trans h.length
  answered := (hpre.sublist.countP_le ..).trans h.answered
  resends := by
    obtain ⟨rest, rfl⟩ := hpre
    exact h.resends.left_of_append

section Runs

variable [NdjsonLine Line]

theorem FullRun.withinBudget (h : FullRun cfg left (pending : List Line) t calls out) :
    WithinBudget cfg (left + 1) calls := by
  induction h with
  | nil => exact ⟨Nat.zero_le _, Nat.zero_le _, .nil⟩
  | raised _ hb => exact hb.withinBudget.mono (Nat.le_add_left ..)
  | failed _ hb _ => exact hb.withinBudget.mono (Nat.le_add_left ..)
  | done _ hb _ _ => exact hb.withinBudget.mono (Nat.le_add_left ..)
  | again _ hb _ _ _ ih => exact hb.withinBudget_append ih

theorem EsWriteConfig.le_requestsPerChunk (cfg : EsWriteConfig) :
    cfg.maxRetriesPerDoc.toNat + 1 ≤ cfg.requestsPerChunk := by
  rw [requestsPerChunk]
  omega

theorem ChunkRun.withinBudget (h : ChunkRun cfg (lines : List Line) t calls out) :
    WithinBudget cfg cfg.requestsPerChunk calls := by
  cases h with
  | raised hp hb =>
    exact hb.withinBudget.mono ((Nat.le_add_left ..).trans cfg.le_requestsPerChunk)
  | clean hp hb _ =>
    exact hb.withinBudget.mono ((Nat.le_add_left ..).trans cfg.le_requestsPerChunk)
  | probed hp hb _ hf =>
    have hbudget := hb.withinBudget_append hf.withinBudget
    rwa [show cfg.maxRetriesPerDoc.toNat + 1 + 1 = cfg.requestsPerChunk by
      simp only [EsWriteConfig.requestsPerChunk, hp, if_true]
      omega] at hbudget
  | direct hp hf => exact hf.withinBudget.mono cfg.le_requestsPerChunk

/-- With enough fuel the loops of the source return what the chunk returns. -/
theorem wp_shipWhile (cfg : EsWriteConfig) (lines : List Line) (t : Tally)
    (hsend : cfg.transportMaxRetries.toNat < sendFuel) (hfuel : cfg.maxRetriesPerDoc.toNat < fuel) :
    wp (anyEnv legal) (shipWhile cfg sendFuel fuel lines t)
      (fun out calls => ∃ r, out = some r ∧ ChunkRun cfg lines t calls r) [] := by
  rw [shipWhile_eq cfg lines t hsend hfuel, wp_bind]
  apply wp_mono (wp_shipNdjsonChunk_run cfg lines t)
  rintro r log ⟨calls, rfl, hrun⟩
  exact ⟨r, rfl, hrun⟩

theorem shipWhile_withinBudget (cfg : EsWriteConfig) (lines : List Line) (t : Tally)
    (hsend : cfg.transportMaxRetries.toNat < sendFuel) (hfuel : cfg.maxRetriesPerDoc.toNat < fuel)
    (h : (anyEnv fun _ _ => True).Reach [] (shipWhile cfg sendFuel fuel lines t) log p) :
    WithinBudget cfg cfg.requestsPerChunk log := by
  have hanswers (log : List (BulkCall Line)) (q : BulkRequest Line) :
      ∃ r log', (anyEnv fun _ _ => True).answers log q r log' :=
    ⟨{ result := .ok {} }, _, trivial, rfl⟩
  obtain ⟨log', out, hrest⟩ := exists_completion hanswers p log
  obtain ⟨r, -, hrun⟩ := Env.Run.ensures (h.trans hrest) (wp_shipWhile cfg lines t hsend hfuel)
  exact hrun.withinBudget.initial hrest.grows

/-- The shipping of a chunk returns whatever Elasticsearch does. At each point of it the calls are
within the budget of requests and timeout retries, no line is in more answered requests than the
budget has, and the only calls made again are those that timed out. -/
theorem chunk_ends_within_budget [DecidableEq Line] {cfg : EsWriteConfig} (hcfg : cfg.Accepted)
    (lines : List Line) (t : Tally) {sendFuel fuel : Nat}
    (hsend : cfg.transportMaxRetries < sendFuel) (hfuel : cfg.maxRetriesPerDoc < fuel) :
    (∀ log out, (anyEnv fun _ _ => True).Run [] (shipWhile cfg sendFuel fuel lines t) log out →
      ∃ r, out = some r) ∧
    ∀ log p, (anyEnv fun _ _ => True).Reach [] (shipWhile cfg sendFuel fuel lines t) log p →
      (log.length : Int) ≤ ((if cfg.probes then 1 else 0) + 1 + cfg.maxRetriesPerDoc) *
          (if cfg.retryTransportTimeout then 1 + cfg.transportMaxRetries else 1) ∧
      (∀ line, (log.countP fun c => answered c && decide (line ∈ c.1.operations) : Int) ≤
          (if cfg.probes then 1 else 0) + 1 + cfg.maxRetriesPerDoc) ∧
      log.IsChain (ResendsTimeouts cfg) := by
  obtain ⟨htransport, hdoc⟩ := hcfg.retries_nonneg
  have hsend' : cfg.transportMaxRetries.toNat < sendFuel := by omega
  have hfuel' : cfg.maxRetriesPerDoc.toNat < fuel := by omega
  constructor
  · intro log out h
    obtain ⟨r, hr, -⟩ := Env.Run.ensures h (wp_shipWhile cfg lines t hsend' hfuel')
    exact ⟨r, hr⟩
  · intro log p h
    obtain ⟨hlength, hanswered, hresends⟩ := shipWhile_withinBudget cfg lines t hsend' hfuel' h
    have hrequests : (cfg.requestsPerChunk : Int) =
        (if cfg.probes then 1 else 0) + 1 + cfg.maxRetriesPerDoc := by
      rw [EsWriteConfig.requestsPerChunk]
      split <;> omega
    have hsends : (cfg.sendsPerRequest : Int) =
        if cfg.retryTransportTimeout then 1 + cfg.transportMaxRetries else 1 := by
      rw [EsWriteConfig.sendsPerRequest]
      split <;> omega
    rw [← hrequests, ← hsends]
    refine ⟨by exact_mod_cast hlength, fun line => ?_, hresends⟩
    have hline := List.countP_mono_left (l := log)
      (p := fun c => answered c && decide (line ∈ c.1.operations)) (q := answered)
      fun c _ hc => (Bool.and_eq_true _ _ |>.mp hc).1
    exact_mod_cast hline.trans hanswered

end Runs

/-- One line and the default budget of three retries, with the loops cut off after four rounds. -/
theorem default_chunk_ends :
    EsWriteConfig.Accepted { hosts := "h", apiKey := some "k" } ∧ ∀ log p,
      (anyEnv fun _ _ => True).Reach []
          (shipWhile { hosts := "h", apiKey := some "k" } 4 4 ["{}"] (.start false)) log p →
        (log.length : Int) ≤ 5 :=
  ⟨by decide, fun log p h =>
    have haccepted : EsWriteConfig.Accepted { hosts := "h", apiKey := some "k" } := by decide
    ((chunk_ends_within_budget haccepted ["{}"] (.start false) (by decide) (by decide)).2 log p h).1⟩

end EsConnector
