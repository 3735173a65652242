import Mathlib.Data.Rat.Defs
import EsConnector.Config

namespace EsConnector
set_option autoImplicit true

/-- The key of a `_bulk` response item, with the connector's own two markers: `unknown` for an
item without a key, `bulk` for a request that failed as a whole. -/
inductive OpType where
  | index | create | update | delete | unknown | bulk
deriving DecidableEq, Repr

/-- Per-document outcomes of `classify_bulk_result`. -/
inductive Outcome where
  | written | deleted | ignored | error
deriving DecidableEq, Repr

def errorSampleCap : Nat := 20

/-- The `error` value of a failed item: an object with its reason and type, or a plain text. -/
inductive ItemError where
  | object (reason type : Option String)
  | text (s : String)
deriving DecidableEq, Repr

/-- The body of a response item. A missing and a null value are both `none`. -/
structure ItemBody where
  id : Option String := none
  status : Option Int := none
  error : Option ItemError := none
deriving DecidableEq, Repr

/-- A response item `{op_type: body}`, or `none` for the empty item `{}`. -/
abbrev Item := Option (OpType × ItemBody)

/-- A retained diagnostic of a failed document or request. -/
structure ErrorSample where
  id : Option String
  opType : OpType
  status : Option Int
  reason : String
deriving DecidableEq, Repr

/-- `s[:300]`. -/
def truncateReason (s : String) : String := String.ofList (s.toList.take 300)

def nonempty (s : Option String) : Option String := s.filter (· ≠ "")

def ItemError.reasonText : Option ItemError → String
  | none => ""
  | some (.text s) => s
  | some (.object reason type) => ((nonempty reason).or (nonempty type)).getD ""

def extractErrorSample (opType : OpType) (item : ItemBody) : ErrorSample where
  id := item.id
  opType := opType
  status := item.status
  reason := truncateReason (ItemError.reasonText item.error)

def classifyBulkResult (ok : Bool) (opType : OpType) (status : Int) : Outcome :=
  if ok then
    if opType = .delete then .deleted else .written
  else if opType = .delete ∧ status = 404 then .ignored
  else if opType = .create ∧ status = 409 then .ignored
  else .error

/-- `int(body.get("status", 500) or 500)`. -/
def ItemBody.statusCode (body : ItemBody) : Int :=
  match body.status with
  | none => 500
  | some 0 => 500
  | some s => s

def isOk (status : Int) : Bool := decide (200 ≤ status ∧ status < 300)

/-- One tuple `(op_type, body, ok, outcome)` of `iter_bulk_response_outcomes`. -/
structure ItemOutcome where
  opType : OpType
  body : ItemBody
  ok : Bool
  outcome : Outcome
deriving DecidableEq, Repr

def itemOutcome : Item → ItemOutcome
  | none => ⟨.unknown, {}, false, .error⟩
  | some (opType, body) =>
    let ok := isOk body.statusCode
    ⟨opType, body, ok, classifyBulkResult ok opType body.statusCode⟩

def iterBulkResponseOutcomes (items : List Item) : List ItemOutcome := items.map itemOutcome

/-- The `filter_path` values the connector sends. -/
inductive FilterPath where
  | errors | errorsTook | items | tookItems
deriving DecidableEq, Repr

def FilterPath.text : FilterPath → String
  | .errors => "errors"
  | .errorsTook => "errors,took"
  | .items => "items.*.status,items.*.error,items.*._id"
  | .tookItems => "took,items.*.status,items.*.error,items.*._id"

/-- The fast path asks for the top-level flag only, the full path for the items. -/
def FilterPath.isProbe : FilterPath → Bool
  | .errors | .errorsTook => true
  | .items | .tookItems => false

/-- One `es.bulk(operations=..., filter_path=...)` call. -/
structure BulkRequest (Line : Type) where
  operations : List Line
  filterPath : FilterPath
deriving DecidableEq, Repr

/-- What the connector reads of a response. `errors = none` stands for a flag that is missing or
no boolean, `items = none` for a missing key, `isDict` for a plain dict rather than an API
response object. -/
structure BulkResponse where
  isDict : Bool := false
  errors : Option Bool := none
  items : Option (List Item) := none
  tookMs : Option ℚ := none
  httpMs : Option ℚ := none
deriving DecidableEq, Repr

/-- An exception raised by `es.bulk`. -/
structure BulkException where
  typeName : String
  message : String
  isConnectionTimeout : Bool
deriving DecidableEq, Repr

/-- The result of an `es.bulk` call with the clock readings taken around it. -/
structure BulkReply where
  result : Except BulkException BulkResponse
  rttMs : ℚ := 0
  cpuMs : ℚ := 0
deriving DecidableEq

/-- The diagnostic of a request that failed as a whole. -/
def requestErrorSample (e : BulkException) : ErrorSample where
  id := none
  opType := .bulk
  status := none
  reason := truncateReason s!"{e.typeName}: {e.message}"

@[simp] theorem itemOutcome_none : itemOutcome none = ⟨.unknown, {}, false, .error⟩ := rfl

@[simp] theorem iterBulkResponseOutcomes_length (items : List Item) :
    (iterBulkResponseOutcomes items).length = items.length := List.length_map ..

theorem classifyBulkResult_written_iff :
    classifyBulkResult ok op st = .written ↔ ok = true ∧ op ≠ .delete := by
  rw [classifyBulkResult]
  split
  · split <;> simp_all
  · split
    · simp_all
    · split <;> simp_all

theorem classifyBulkResult_deleted_iff :
    classifyBulkResult ok op st = .deleted ↔ ok = true ∧ op = .delete := by
  rw [classifyBulkResult]
  split
  · split <;> simp_all
  · split
    · simp_all
    · split <;> simp_all

/-- The two suppressed no-ops: a delete-404 and a create-409. -/
theorem classifyBulkResult_ignored_iff :
    classifyBulkResult ok op st = .ignored ↔
      ok = false ∧ (op = .delete ∧ st = 404 ∨ op = .create ∧ st = 409) := by
  rw [classifyBulkResult]
  split
  · split <;> simp_all
  · split
    · simp_all
    · split <;> simp_all

end EsConnector
