import Mathlib.Data.List.Basic

namespace EsConnector
set_option autoImplicit true

/-- Connection settings shared by reads and writes. -/
structure EsConnection where
  hosts : String
  apiKey : Option String := none
  basicAuth : Option (String × String) := none
  verifyCerts : Bool := true
  caCerts : Option String := none
  transportMaxRetries : Int := 3
deriving DecidableEq, Repr

/-- The checks of `EsConnection.__post_init__`, in order. -/
def EsConnection.postInit (c : EsConnection) : Except String Unit := do
  if c.hosts = "" then
    throw "hosts is required"
  if c.apiKey = none ∧ c.basicAuth = none then
    throw "EsConfig requires either api_key or basic_auth"
  if c.verifyCerts = false ∧ c.caCerts.getD "" ≠ "" then
    throw "ca_certs is set but verify_certs is False, pick one"
  if c.transportMaxRetries < 0 then
    throw "transport_max_retries must be >= 0"

/-- Connection and write behaviour. -/
structure EsWriteConfig extends EsConnection where
  index : String := ""
  idField : Option String := none
  chunkSize : Int := 500
  writeConcurrency : Int := 1
  maxRetriesPerDoc : Int := 3
  retryOnDocStatus : List Int := [429]
  retryTransportTimeout : Bool := false
  bulkStats : Bool := false
  dropFields : List String := []
  strictDropFields : Bool := true
  requireExistingIndex : Bool := true
  hasDeletes : Bool := false
  deleteFlagColumn : Option String := none
  opType : String := "index"
  bypassFastPath : Bool := false
deriving DecidableEq, Repr

/-- The checks of `EsWriteConfig.__post_init__`, in order. -/
def EsWriteConfig.postInit (cfg : EsWriteConfig) : Except String Unit := do
  cfg.toEsConnection.postInit
  if cfg.maxRetriesPerDoc < 0 then
    throw "EsWriteConfig.max_retries_per_doc must be >= 0"
  if cfg.writeConcurrency < 1 then
    throw "EsWriteConfig.write_concurrency must be >= 1"
  if cfg.retryOnDocStatus = [] ∧ cfg.maxRetriesPerDoc ≠ 0 then
    throw ("max_retries_per_doc is set but retry_on_doc_status is empty, " ++
      "name at least one status (e.g. (429,)) or set max_retries_per_doc=0")
  if cfg.hasDeletes then
    if cfg.deleteFlagColumn.getD "" = "" then
      throw "has_deletes=True requires delete_flag_column"
    if cfg.idField = none then
      throw "has_deletes=True requires id_field (deletes target a doc _id)"
  else if cfg.deleteFlagColumn ≠ none then
    throw ("delete_flag_column is set but has_deletes is False, " ++
      "enable has_deletes or drop it")
  if cfg.opType ≠ "index" ∧ cfg.opType ≠ "create" then
    throw s!"op_type must be 'index' or 'create', got '{cfg.opType}'"
  if cfg.opType = "create" then
    if cfg.idField = none then
      throw ("op_type='create' requires id_field: without an explicit _id a create never " ++
        "conflicts, so it would be 'index' with extra steps and no dedup. Set id_field, or " ++
        "use op_type='index'.")
    if cfg.hasDeletes then
      throw ("op_type='create' is incompatible with has_deletes: a feed that issues deletes is " ++
        "not append-only. Use op_type='index' for delete-bearing feeds.")

/-- The constructor accepts the configuration. -/
def EsWriteConfig.Accepted (cfg : EsWriteConfig) : Prop := cfg.postInit = .ok ()

instance (cfg : EsWriteConfig) : Decidable cfg.Accepted :=
  inferInstanceAs (Decidable (cfg.postInit = .ok ()))

theorem EsWriteConfig.Accepted.opType {cfg : EsWriteConfig} (h : cfg.Accepted) :
    cfg.opType = "index" ∨ cfg.opType = "create" := by
  by_contra hop
  have hop : cfg.opType ≠ "index" ∧ cfg.opType ≠ "create" := not_or.mp hop
  rw [Accepted, postInit] at h
  simp only [hop, bind, Except.bind, throw, throwThe, MonadExceptOf.throw] at h
  repeat' split at h
  all_goals simp_all

theorem EsConnection.transportMaxRetries_nonneg {c : EsConnection} (h : c.postInit = .ok ()) :
    0 ≤ c.transportMaxRetries := by
  by_contra hneg
  rw [postInit] at h
  simp only [Int.not_le.mp hneg, bind, Except.bind, throw, throwThe, MonadExceptOf.throw] at h
  repeat' split at h
  all_goals simp_all

theorem EsWriteConfig.Accepted.connection {cfg : EsWriteConfig} (h : cfg.Accepted) :
    cfg.toEsConnection.postInit = .ok () := by
  rw [Accepted, postInit] at h
  cases hc : cfg.toEsConnection.postInit with
  | ok => rfl
  | error e => simp only [hc, bind, Except.bind, reduceCtorEq] at h

/-- Neither retry budget of an accepted configuration is negative. -/
theorem EsWriteConfig.Accepted.retries_nonneg {cfg : EsWriteConfig} (h : cfg.Accepted) :
    0 ≤ cfg.transportMaxRetries ∧ 0 ≤ cfg.maxRetriesPerDoc := by
  refine ⟨EsConnection.transportMaxRetries_nonneg h.connection, ?_⟩
  by_contra hneg
  have hc := h.connection
  rw [Accepted, postInit] at h
  simp [hc, Int.not_le.mp hneg, bind, Except.bind, throw, throwThe, MonadExceptOf.throw] at h

end EsConnector
