import EsConnector.SendBudget

namespace EsConnector
set_option autoImplicit true

open Interaction

/-- The settings of the client that only its constructor reads. -/
structure ClientTuning where
  httpCompress : Bool := true
  requestTimeout : Int := 60
  retryOnTimeout : Bool := true
deriving DecidableEq, Repr

/-- The keyword arguments of `elasticsearch.Elasticsearch`. -/
structure ClientKwargs where
  hosts : String
  httpCompress : Bool
  requestTimeout : Int
  maxRetries : Int
  retryOnTimeout : Bool
  verifyCerts : Bool
  apiKey : Option String := none
  basicAuth : Option (String × String) := none
  caCerts : Option String := none
  connectionsPerNode : Option Int := none
deriving DecidableEq, Repr

/-- `EsConnection.client_kwargs`. -/
def EsConnection.clientKwargs (c : EsConnection) (tuning : ClientTuning) : ClientKwargs where
  hosts := c.hosts
  httpCompress := tuning.httpCompress
  requestTimeout := tuning.requestTimeout
  maxRetries := c.transportMaxRetries
  retryOnTimeout := tuning.retryOnTimeout
  verifyCerts := c.verifyCerts
  apiKey := c.apiKey
  basicAuth := c.basicAuth
  caCerts := c.caCerts

/-- `EsWriteConfig.client_kwargs`. -/
def EsWriteConfig.clientKwargs (cfg : EsWriteConfig) (tuning : ClientTuning) : ClientKwargs :=
  let kw := cfg.toEsConnection.clientKwargs tuning
  let kw := if 1 < cfg.writeConcurrency then
    { kw with connectionsPerNode := some cfg.writeConcurrency } else kw
  if cfg.retryTransportTimeout then { kw with retryOnTimeout := false } else kw

@[simp] theorem EsWriteConfig.clientKwargs_maxRetries (cfg : EsWriteConfig) (tuning : ClientTuning) :
    (cfg.clientKwargs tuning).maxRetries = cfg.transportMaxRetries := by
  rw [clientKwargs]
  split <;> split <;> rfl

theorem EsWriteConfig.clientKwargs_retryOnTimeout {cfg : EsWriteConfig}
    (h : cfg.retryTransportTimeout = true) (tuning : ClientTuning) :
    (cfg.clientKwargs tuning).retryOnTimeout = false := by
  rw [clientKwargs, if_pos h]

theorem EsWriteConfig.clientKwargs_connectionsPerNode (cfg : EsWriteConfig) (tuning : ClientTuning) :
    (cfg.clientKwargs tuning).connectionsPerNode =
      if 1 < cfg.writeConcurrency then some cfg.writeConcurrency else none := by
  rw [clientKwargs]
  split <;> split <;> rfl

/-- How an HTTP request ends. -/
inductive HttpAttempt where
  | answered
  | status (code : Nat)
  | connectionError
  | timeout
deriving DecidableEq, Repr

def HttpAttempt.isTimeout (a : HttpAttempt) : Bool := a = .timeout

/-- The HTTP requests that the transport of the client makes of one call: it sends the request again
at most `max_retries` times, and not after a timeout unless it retries on timeouts. -/
structure TransportCall (kw : ClientKwargs) (attempts : List HttpAttempt) : Prop where
  length : attempts.length ≤ 1 + kw.maxRetries.toNat
  timeouts : kw.retryOnTimeout = false → ∀ a ∈ attempts.dropLast, a ≠ .timeout

theorem TransportCall.timeouts_le_one {kw : ClientKwargs} (h : TransportCall kw attempts)
    (hkw : kw.retryOnTimeout = false) : attempts.countP HttpAttempt.isTimeout ≤ 1 := by
  have hnone : attempts.dropLast.countP HttpAttempt.isTimeout = 0 := by
    rw [List.countP_eq_zero]
    intro a ha htimeout
    exact h.timeouts hkw a ha (of_decide_eq_true htimeout)
  cases hlast : attempts.getLast? with
  | none =>
    rw [List.getLast?_eq_none_iff.mp hlast]
    exact Nat.zero_le _
  | some a =>
    rw [← List.dropLast_append_getLast? a hlast, List.countP_append, hnone, Nat.zero_add]
    exact List.countP_le_length

/-- How many requests of one call can time out. -/
def EsWriteConfig.timeoutsPerCall (cfg : EsWriteConfig) : Nat :=
  if cfg.retryTransportTimeout then 1 else 1 + cfg.transportMaxRetries.toNat

/-- Whichever layer re-sends after a timeout, the budget for timeouts of a request is the same. -/
theorem EsWriteConfig.sends_mul_timeouts (cfg : EsWriteConfig) :
    cfg.sendsPerRequest * cfg.timeoutsPerCall = 1 + cfg.transportMaxRetries.toNat := by
  rw [sendsPerRequest, timeoutsPerCall]
  split
  · exact Nat.mul_one _
  · exact Nat.one_mul _

theorem TransportCall.timeouts_le {cfg : EsWriteConfig} {tuning : ClientTuning}
    (h : TransportCall (cfg.clientKwargs tuning) attempts) :
    attempts.countP HttpAttempt.isTimeout ≤ cfg.timeoutsPerCall := by
  rw [EsWriteConfig.timeoutsPerCall]
  split
  · rename_i hown
    exact h.timeouts_le_one (cfg.clientKwargs_retryOnTimeout hown tuning)
  · have hlength := h.length
    rw [EsWriteConfig.clientKwargs_maxRetries] at hlength
    exact List.countP_le_length.trans hlength

theorem timeouts_flatten_le {cfg : EsWriteConfig} {tuning : ClientTuning}
    {https : List (List HttpAttempt)}
    (h : ∀ attempts ∈ https, TransportCall (cfg.clientKwargs tuning) attempts) :
    https.flatten.countP HttpAttempt.isTimeout ≤ https.length * cfg.timeoutsPerCall := by
  induction https with
  | nil => exact Nat.zero_le _
  | cons attempts https ih =>
    rw [List.flatten_cons, List.countP_append, List.length_cons, Nat.add_mul, Nat.one_mul,
      Nat.add_comm]
    exact Nat.add_le_add (ih fun a ha => h a (List.mem_cons_of_mem _ ha))
      (h attempts List.mem_cons_self).timeouts_le

section Runs

variable {Line : Type} [NdjsonLine Line]

/-- The two layers that can re-send a request after a timeout do not add up: however a chunk is
shipped, at most `1 + transport_max_retries` HTTP requests time out for each of its `_bulk` requests,
whether the transport or the connector re-sends. -/
theorem timeouts_do_not_stack {cfg : EsWriteConfig} (hcfg : cfg.Accepted) (tuning : ClientTuning)
    (lines : List Line) (t : Tally) {sendFuel fuel : Nat}
    (hsend : cfg.transportMaxRetries < sendFuel) (hfuel : cfg.maxRetriesPerDoc < fuel)
    (log : List (BulkCall Line)) (p : BulkProg Line (Option ChunkResult))
    (hrun : (anyEnv fun _ _ => True).Reach [] (shipWhile cfg sendFuel fuel lines t) log p)
    (https : List (List HttpAttempt)) (hlength : https.length = log.length)
    (htransport : ∀ attempts ∈ https, TransportCall (cfg.clientKwargs tuning) attempts) :
    (https.flatten.countP HttpAttempt.isTimeout : Int) ≤
      ((if cfg.probes then 1 else 0) + 1 + cfg.maxRetriesPerDoc) * (1 + cfg.transportMaxRetries) := by
  obtain ⟨hmax, hdoc⟩ := hcfg.retries_nonneg
  have hbudget := (shipWhile_withinBudget cfg lines t (by omega) (by omega) hrun).length
  have hcount : https.flatten.countP HttpAttempt.isTimeout ≤
      cfg.requestsPerChunk * (1 + cfg.transportMaxRetries.toNat) :=
    calc https.flatten.countP HttpAttempt.isTimeout
        ≤ https.length * cfg.timeoutsPerCall := timeouts_flatten_le htransport
      _ ≤ cfg.requestsPerChunk * cfg.sendsPerRequest * cfg.timeoutsPerCall :=
          Nat.mul_le_mul_right _ (hlength ▸ hbudget)
      _ = cfg.requestsPerChunk * (1 + cfg.transportMaxRetries.toNat) := by
          rw [Nat.mul_assoc, cfg.sends_mul_timeouts]
  have hrequests : (cfg.requestsPerChunk : Int) =
      (if cfg.probes then 1 else 0) + 1 + cfg.maxRetriesPerDoc := by
    rw [EsWriteConfig.requestsPerChunk]
    split <;> omega
  have hsends : ((1 + cfg.transportMaxRetries.toNat : Nat) : Int) = 1 + cfg.transportMaxRetries := by
    omega
  rw [← hrequests, ← hsends]
  exact_mod_cast hcount

end Runs

def resendingConfig : EsWriteConfig where
  hosts := "h"
  apiKey := some "k"
  transportMaxRetries := 1
  retryTransportTimeout := true
  bypassFastPath := true

/-- A line whose request timed out, was sent again and timed out once more. -/
theorem timeouts_do_not_stack_resent :
    ∃ log p, (anyEnv fun _ _ => True).Reach [] (shipWhile resendingConfig 2 4 ["{}"] (.start false))
        log p ∧
      (∀ attempts ∈ ([[.timeout], [.timeout]] : List (List HttpAttempt)),
        TransportCall (resendingConfig.clientKwargs {}) attempts) ∧
      (([[.timeout], [.timeout]] : List (List HttpAttempt)).flatten.countP HttpAttempt.isTimeout : Int)
        ≤ ((if resendingConfig.probes then 1 else 0) + 1 + resendingConfig.maxRetriesPerDoc) *
          (1 + resendingConfig.transportMaxRetries) := by
  let timedOut : BulkReply := { result := .error ⟨"ConnectionTimeout", "timed out", true⟩ }
  obtain ⟨log, p, hreach, hlength⟩ : ∃ log p, (anyEnv fun _ _ => True).Reach []
      (shipWhile resendingConfig 2 4 ["{}"] (.start false)) log p ∧ log.length = 2 :=
    ⟨_, _, .step (r := timedOut) (And.intro trivial rfl)
      (.step (r := timedOut) (And.intro trivial rfl) (.refl _ _)), rfl⟩
  have htransport : ∀ attempts ∈ ([[.timeout], [.timeout]] : List (List HttpAttempt)),
      TransportCall (resendingConfig.clientKwargs {}) attempts := by
    intro attempts h
    obtain rfl : attempts = [.timeout] := by simpa using h
    exact ⟨by decide, fun _ a ha => absurd ha List.not_mem_nil⟩
  exact ⟨log, p, hreach, htransport, timeouts_do_not_stack (by decide) {} ["{}"] (.start false)
    (by decide) (by decide) log p hreach _ hlength.symm htransport⟩

end EsConnector
