import Mathlib.Data.List.Dedup
import EsConnector.CallBinding
import EsConnector.ClientConfig
import EsConnector.SliceReader

namespace EsConnector
set_option autoImplicit true

open CallBinding

/-- A value that a configuration is built from. -/
inductive Argument (F : Type) where
  | none
  | bool (b : Bool)
  | int (i : Int)
  | str (s : String)
  | tuple (items : List (Argument F))
  | dict (items : List (String × Json F))

namespace Argument

def ofText : Option String → Argument F
  | .none => .none
  | some s => .str s

def text? : Argument F → Option (Option String)
  | .none => some .none
  | .str s => some (some s)
  | _ => .none

def ofPair : Option (String × String) → Argument F
  | .none => .none
  | some (user, password) => .tuple [.str user, .str password]

def pair? : Argument F → Option (Option (String × String))
  | .none => some .none
  | .tuple [.str user, .str password] => some (some (user, password))
  | _ => .none

def ofCount : Option Int → Argument F
  | .none => .none
  | some i => .int i

def count? : Argument F → Option (Option Int)
  | .none => some .none
  | .int i => some (some i)
  | _ => .none

def ofQuery : Option (List (String × Json F)) → Argument F
  | .none => .none
  | some items => .dict items

def query? : Argument F → Option (Option (List (String × Json F)))
  | .none => some .none
  | .dict items => some (some items)
  | _ => .none

def ints? : List (Argument F) → Option (List Int)
  | [] => some []
  | .int i :: items => (ints? items).map (i :: ·)
  | _ => .none

def strs? : List (Argument F) → Option (List String)
  | [] => some []
  | .str s :: items => (strs? items).map (s :: ·)
  | _ => .none

variable {a : Argument F} {items : List (Argument F)}

theorem of_text {o : Option String} (h : a.text? = some o) : ofText o = a := by
  cases a <;> cases h <;> rfl

theorem of_pair {o : Option (String × String)} (h : a.pair? = some o) : ofPair o = a := by
  rw [pair?.eq_def] at h
  split at h <;> cases h <;> rfl

theorem of_count {o : Option Int} (h : a.count? = some o) : ofCount o = a := by
  cases a <;> cases h <;> rfl

theorem of_query {o : Option (List (String × Json F))} (h : a.query? = some o) : ofQuery o = a := by
  cases a <;> cases h <;> rfl

theorem of_ints {is : List Int} (h : ints? items = some is) : is.map .int = items := by
  induction items generalizing is with
  | nil =>
    cases h
    rfl
  | cons a items ih =>
    cases a with
    | int i =>
      obtain ⟨rest, hrest, rfl⟩ := Option.map_eq_some_iff.mp h
      rw [List.map_cons, ih hrest]
    | _ => cases h

theorem of_strs {ss : List String} (h : strs? items = some ss) : ss.map .str = items := by
  induction items generalizing ss with
  | nil =>
    cases h
    rfl
  | cons a items ih =>
    cases a with
    | str s =>
      obtain ⟨rest, hrest, rfl⟩ := Option.map_eq_some_iff.mp h
      rw [List.map_cons, ih hrest]
    | _ => cases h

end Argument

/-- The per-layer fields `max_retries` fans out to. -/
def retryLayerFields : List String := ["transport_max_retries", "max_retries_per_doc"]

/-- A configuration class, with its fields in the order of the constructor. -/
structure ConfigClass (F C : Type) where
  name : String
  params : List (Param (Argument F))
  ofValues : List (Argument F) → Option C
  values : C → List (Argument F)
  retries : C → List Int
  postInit : C → Except String Unit
  distinct : (params.map Param.name).Nodup
  notField : "max_retries" ∉ params.map Param.name
  values_eq : ∀ vs c, ofValues vs = some c → values c = vs
  retries_eq : ∀ c, (retryLayerFields.filter (· ∈ params.map Param.name)).map
    (((params.map Param.name).zip (values c)).lookup ·) = (retries c).map fun i => some (.int i)

/-- Why no configuration is built. The last is the model's: a field is not of its declared type. -/
inductive InitError where
  | typeError (e : TypeError)
  | valueError (message : String)
  | illTyped
deriving DecidableEq, Repr

namespace ConfigClass

variable (cls : ConfigClass F C)

def fields : List String := cls.params.map Param.name

/-- The retry layers that the class has. -/
def layers : List String := retryLayerFields.filter (· ∈ cls.fields)

def getattr (c : C) (name : String) : Option (Argument F) :=
  (cls.fields.zip (cls.values c)).lookup name

/-- The generated `__init__`. -/
def init (call : Call (Argument F)) : Except InitError C := do
  let bound ← (bindArguments cls.params call).mapError .typeError
  match cls.ofValues (bound.map Prod.snd) with
  | none => throw .illTyped
  | some c =>
    (cls.postInit c).mapError .valueError
    return c

/-- The message for a call that names the umbrella and layers of it. -/
def mixed (repr : Argument F → String) (conflicts : List String) (umbrella : Argument F) : String :=
  "pass either max_retries (the umbrella, which sets " ++ " and ".intercalate cls.layers ++ ") or " ++
    "the per-layer field(s) " ++ ", ".intercalate conflicts ++ ", not both. Mixing them would " ++
    "make the effective retry count depend on an invisible precedence rule. " ++
    s!"For {cls.name}, max_retries=" ++ repr umbrella ++ " is equivalent to " ++
    ", ".intercalate (cls.layers.map fun f => f ++ "=" ++ repr umbrella) ++ "."

/-- The layers that a call names, in alphabetical order. -/
def conflicts (call : Call (Argument F)) : List String :=
  (cls.layers.filter (· ∈ call.keywords)).mergeSort (· ≤ ·)

/-- The `__init__` of `_support_max_retries_umbrella`. -/
def construct (repr : Argument F → String) (call : Call (Argument F)) : Except InitError C :=
  match call.kwargs.lookup "max_retries" with
  | none => cls.init call
  | some umbrella =>
    if cls.conflicts call ≠ [] then
      .error (.valueError (cls.mixed repr (cls.conflicts call) umbrella))
    else cls.init ((call.pop "max_retries").setAll cls.layers umbrella)

/-- The `max_retries` property. -/
def maxRetries (c : C) : Option Int :=
  match (cls.retries c).dedup with
  | [i] => some i
  | _ => none

end ConfigClass

section Construction

variable {cls : ConfigClass F C} {repr : Argument F → String} {call call' : Call (Argument F)} {c : C}

theorem ConfigClass.init_ok : cls.init call = .ok c ↔
    ∃ bound, bindArguments cls.params call = .ok bound ∧
      cls.ofValues (bound.map Prod.snd) = some c ∧ cls.postInit c = .ok () := by
  constructor
  · intro h
    obtain ⟨bound, hbound, h⟩ := bind_ok h
    split at h
    · cases h
    · rename_i hc
      obtain ⟨⟨⟩, hpost, h⟩ := bind_ok h
      cases h
      exact ⟨bound, mapError_ok hbound, hc, mapError_ok hpost⟩
  · rintro ⟨bound, hbound, hc, hpost⟩
    rw [init, hbound]
    simp only [Except.mapError, bind, Except.bind, hc, hpost, pure, Except.pure]

/-- The configuration of a call has the values that its parameters are bound to. -/
theorem ConfigClass.init_bound (h : cls.init call = .ok c) :
    bindArguments cls.params call = .ok (cls.fields.zip (cls.values c)) := by
  obtain ⟨bound, hbound, hvalues, -⟩ := init_ok.mp h
  rw [fields, ← bound_names hbound, cls.values_eq _ _ hvalues, ← List.zip_of_prod rfl rfl]
  exact hbound

theorem ConfigClass.init_getattr (h : cls.init call = .ok c) {name : String} {v : Argument F}
    (hv : call.kwargs.lookup name = some v) : cls.getattr c name = some v :=
  bound_keyword cls.distinct (init_bound h) hv

theorem ConfigClass.init_default (h : cls.init call = .ok c) {p : Param (Argument F)}
    (hp : p ∈ cls.params) (hv : p.name ∉ call.keywords)
    (hpos : p.name ∉ byPosition cls.params call.args) : cls.getattr c p.name = p.default :=
  bound_default cls.distinct (init_bound h) hp hv hpos

theorem ConfigClass.init_perm (hargs : call.args = call'.args)
    (hkwargs : call.kwargs.Perm call'.kwargs) :
    cls.init call = .ok c ↔ cls.init call' = .ok c := by
  simp only [init_ok, bindArguments_perm hargs hkwargs]

theorem dedup_eq_singleton {l : List Int} {i : Int} : l.dedup = [i] ↔ l ≠ [] ∧ ∀ x ∈ l, x = i := by
  constructor
  · intro h
    constructor
    · rintro rfl
      cases h
    · intro x hx
      rw [← List.mem_dedup, h] at hx
      exact List.mem_singleton.mp hx
  · rintro ⟨hne, hall⟩
    rw [List.eq_replicate_of_mem hall]
    exact List.replicate_dedup (List.length_eq_zero_iff.not.mpr hne)

theorem ConfigClass.getattr_layers (cls : ConfigClass F C) (c : C) :
    cls.layers.map (cls.getattr c) = (cls.retries c).map fun i => some (.int i) :=
  cls.retries_eq c

/-- The property is the number that all layers have. -/
theorem ConfigClass.maxRetries_iff {i : Int} : cls.maxRetries c = some i ↔
    cls.layers ≠ [] ∧ ∀ f ∈ cls.layers, cls.getattr c f = some (.int i) := by
  have hlayers := cls.getattr_layers c
  have hempty : cls.layers = [] ↔ cls.retries c = [] := by
    rw [← List.map_eq_nil_iff (f := cls.getattr c), hlayers, List.map_eq_nil_iff]
  have hall : (∀ f ∈ cls.layers, cls.getattr c f = some (.int i)) ↔ ∀ x ∈ cls.retries c, x = i := by
    have hmap : (∀ a ∈ cls.layers.map (cls.getattr c), a = some (.int i)) ↔
        ∀ a ∈ (cls.retries c).map fun x => some (.int x : Argument F), a = some (.int i) := by
      rw [hlayers]
    simpa only [List.forall_mem_map, Option.some.injEq, Argument.int.injEq] using hmap
  rw [hall, Ne, hempty, ← Ne, ← dedup_eq_singleton, maxRetries]
  constructor
  · intro h
    split at h
    · rename_i hone
      cases h
      exact hone
    · cases h
  · intro h
    rw [h]

end Construction

section Classes

variable {F : Type}

def connectionParams (F : Type) : List (Param (Argument F)) :=
  [⟨"hosts", none⟩, ⟨"api_key", some .none⟩, ⟨"basic_auth", some .none⟩,
    ⟨"verify_certs", some (.bool true)⟩, ⟨"ca_certs", some .none⟩,
    ⟨"http_compress", some (.bool true)⟩, ⟨"request_timeout", some (.int 60)⟩,
    ⟨"transport_max_retries", some (.int 3)⟩, ⟨"retry_on_timeout", some (.bool true)⟩]

def EsConnection.ofValues : List (Argument F) → Option (EsConnection × ClientTuning)
  | [.str hosts, apiKey, basicAuth, .bool verifyCerts, caCerts, .bool httpCompress,
      .int requestTimeout, .int transportMaxRetries, .bool retryOnTimeout] => do
    let apiKey ← apiKey.text?
    let basicAuth ← basicAuth.pair?
    let caCerts ← caCerts.text?
    return ({ hosts, apiKey, basicAuth, verifyCerts, caCerts, transportMaxRetries },
      { httpCompress, requestTimeout, retryOnTimeout })
  | _ => none

def EsConnection.values (c : EsConnection × ClientTuning) : List (Argument F) :=
  [.str c.1.hosts, .ofText c.1.apiKey, .ofPair c.1.basicAuth, .bool c.1.verifyCerts,
    .ofText c.1.caCerts, .bool c.2.httpCompress, .int c.2.requestTimeout,
    .int c.1.transportMaxRetries, .bool c.2.retryOnTimeout]

theorem EsConnection.values_eq (vs : List (Argument F)) (c : EsConnection × ClientTuning)
    (h : ofValues vs = some c) : values c = vs := by
  rw [ofValues.eq_def] at h
  split at h
  · obtain ⟨apiKey, hapiKey, h⟩ := Option.bind_eq_some_iff.mp h
    obtain ⟨basicAuth, hbasicAuth, h⟩ := Option.bind_eq_some_iff.mp h
    obtain ⟨caCerts, hcaCerts, h⟩ := Option.bind_eq_some_iff.mp h
    cases h
    rw [values, Argument.of_text hapiKey, Argument.of_pair hbasicAuth, Argument.of_text hcaCerts]
  · cases h

def esConnectionClass (F : Type) : ConfigClass F (EsConnection × ClientTuning) where
  name := "EsConnection"
  params := connectionParams F
  ofValues := EsConnection.ofValues
  values := EsConnection.values
  retries c := [c.1.transportMaxRetries]
  postInit c := c.1.postInit
  distinct := by simp [connectionParams]
  notField := by simp [connectionParams]
  values_eq := EsConnection.values_eq
  retries_eq _ := rfl

def EsWriteConfig.ofValues (vs : List (Argument F)) : Option (EsWriteConfig × ClientTuning) := do
  let (connection, tuning) ← EsConnection.ofValues (vs.take 9)
  match vs.drop 9 with
  | [.str index, idField, .int chunkSize, .int writeConcurrency, .int maxRetriesPerDoc,
      .tuple retryOnDocStatus, .bool retryTransportTimeout, .bool bulkStats, .tuple dropFields,
      .bool strictDropFields, .bool requireExistingIndex, .bool hasDeletes, deleteFlagColumn,
      .str opType, .bool bypassFastPath] =>
    let idField ← idField.text?
    let retryOnDocStatus ← Argument.ints? retryOnDocStatus
    let dropFields ← Argument.strs? dropFields
    let deleteFlagColumn ← deleteFlagColumn.text?
    return ({ toEsConnection := connection, index, idField, chunkSize, writeConcurrency,
              maxRetriesPerDoc, retryOnDocStatus, retryTransportTimeout, bulkStats, dropFields,
              strictDropFields, requireExistingIndex, hasDeletes, deleteFlagColumn, opType,
              bypassFastPath }, tuning)
  | _ => none

def EsWriteConfig.values (c : EsWriteConfig × ClientTuning) : List (Argument F) :=
  EsConnection.values (c.1.toEsConnection, c.2) ++
    [.str c.1.index, .ofText c.1.idField, .int c.1.chunkSize, .int c.1.writeConcurrency,
      .int c.1.maxRetriesPerDoc, .tuple (c.1.retryOnDocStatus.map .int),
      .bool c.1.retryTransportTimeout, .bool c.1.bulkStats, .tuple (c.1.dropFields.map .str),
      .bool c.1.strictDropFields, .bool c.1.requireExistingIndex, .bool c.1.hasDeletes,
      .ofText c.1.deleteFlagColumn, .str c.1.opType, .bool c.1.bypassFastPath]

theorem EsWriteConfig.values_eq (vs : List (Argument F)) (c : EsWriteConfig × ClientTuning)
    (h : ofValues vs = some c) : values c = vs := by
  rw [ofValues] at h
  obtain ⟨⟨connection, tuning⟩, hconnection, h⟩ := Option.bind_eq_some_iff.mp h
  dsimp only at h
  split at h
  · rename_i hdrop
    obtain ⟨idField, hidField, h⟩ := Option.bind_eq_some_iff.mp h
    obtain ⟨retryOnDocStatus, hstatus, h⟩ := Option.bind_eq_some_iff.mp h
    obtain ⟨dropFields, hdropFields, h⟩ := Option.bind_eq_some_iff.mp h
    obtain ⟨deleteFlagColumn, hflag, h⟩ := Option.bind_eq_some_iff.mp h
    cases h
    rw [values, EsConnection.values_eq _ _ hconnection, Argument.of_text hidField,
      Argument.of_ints hstatus, Argument.of_strs hdropFields, Argument.of_text hflag, ← hdrop,
      List.take_append_drop]
  · cases h

def esWriteConfigClass (F : Type) : ConfigClass F (EsWriteConfig × ClientTuning) where
  name := "EsWriteConfig"
  params := connectionParams F ++
    [⟨"index", some (.str "")⟩, ⟨"id_field", some .none⟩, ⟨"chunk_size", some (.int 500)⟩,
      ⟨"write_concurrency", some (.int 1)⟩, ⟨"max_retries_per_doc", some (.int 3)⟩,
      ⟨"retry_on_doc_status", some (.tuple [.int 429])⟩,
      ⟨"retry_transport_timeout", some (.bool false)⟩, ⟨"bulk_stats", some (.bool false)⟩,
      ⟨"drop_fields", some (.tuple [])⟩, ⟨"strict_drop_fields", some (.bool true)⟩,
      ⟨"require_existing_index", some (.bool true)⟩, ⟨"has_deletes", some (.bool false)⟩,
      ⟨"delete_flag_column", some .none⟩, ⟨"op_type", some (.str "index")⟩,
      ⟨"bypass_fast_path", some (.bool false)⟩]
  ofValues := EsWriteConfig.ofValues
  values := EsWriteConfig.values
  retries c := [c.1.transportMaxRetries, c.1.maxRetriesPerDoc]
  postInit c := c.1.postInit
  distinct := by simp [connectionParams]
  notField := by simp [connectionParams]
  values_eq := EsWriteConfig.values_eq
  retries_eq _ := rfl

def EsReadConfig.ofValues (vs : List (Argument F)) : Option (EsReadConfig F × ClientTuning) := do
  let (connection, tuning) ← EsConnection.ofValues (vs.take 9)
  match vs.drop 9 with
  | [.str index, idField, query, numSlices, .int batchSize, .str pitKeepAlive, .bool includeId,
      .bool strictSlices] =>
    let idField ← idField.text?
    let query ← query.query?
    let numSlices ← numSlices.count?
    return ({ toEsConnection := connection, index, idField, query, numSlices, batchSize,
              pitKeepAlive, includeId, strictSlices }, tuning)
  | _ => none

def EsReadConfig.values (c : EsReadConfig F × ClientTuning) : List (Argument F) :=
  EsConnection.values (c.1.toEsConnection, c.2) ++
    [.str c.1.index, .ofText c.1.idField, .ofQuery c.1.query, .ofCount c.1.numSlices,
      .int c.1.batchSize, .str c.1.pitKeepAlive, .bool c.1.includeId, .bool c.1.strictSlices]

theorem EsReadConfig.values_eq (vs : List (Argument F)) (c : EsReadConfig F × ClientTuning)
    (h : ofValues vs = some c) : values c = vs := by
  rw [ofValues] at h
  obtain ⟨⟨connection, tuning⟩, hconnection, h⟩ := Option.bind_eq_some_iff.mp h
  dsimp only at h
  split at h
  · rename_i hdrop
    obtain ⟨idField, hidField, h⟩ := Option.bind_eq_some_iff.mp h
    obtain ⟨query, hquery, h⟩ := Option.bind_eq_some_iff.mp h
    obtain ⟨numSlices, hnumSlices, h⟩ := Option.bind_eq_some_iff.mp h
    cases h
    rw [values, EsConnection.values_eq _ _ hconnection, Argument.of_text hidField,
      Argument.of_query hquery, Argument.of_count hnumSlices, ← hdrop, List.take_append_drop]
  · cases h

def esReadConfigClass (F : Type) : ConfigClass F (EsReadConfig F × ClientTuning) where
  name := "EsReadConfig"
  params := connectionParams F ++
    [⟨"index", some (.str "")⟩, ⟨"id_field", some .none⟩, ⟨"query", some .none⟩,
      ⟨"num_slices", some .none⟩, ⟨"batch_size", some (.int 1000)⟩,
      ⟨"pit_keep_alive", some (.str "5m")⟩, ⟨"include_id", some (.bool true)⟩,
      ⟨"strict_slices", some (.bool true)⟩]
  ofValues := EsReadConfig.ofValues
  values := EsReadConfig.values
  retries c := [c.1.transportMaxRetries]
  postInit c := c.1.postInit
  distinct := by simp [connectionParams]
  notField := by simp [connectionParams]
  values_eq := EsReadConfig.values_eq
  retries_eq _ := rfl

end Classes

end EsConnector
