import EsConnector.Config
import EsConnector.SparkPrep

namespace EsConnector
set_option autoImplicit true

variable {F : Type}

/-- `_payload_columns`. -/
def payloadColumns (columns dropFields : List String) : List String :=
  columns.filter (· ∉ dropFields)

theorem mem_payloadColumns {columns dropFields : List String} {name : String} :
    name ∈ payloadColumns columns dropFields ↔ name ∈ columns ∧ name ∉ dropFields := by
  simp [payloadColumns]

def isFloat (t : AtomicType) : Bool := t = .float || t = .double

def isDateOrNtz (t : AtomicType) : Bool := t = .date || t = .timestampNtz

def typeHasFloat : SparkType → Bool := typeHas isFloat true

def typeHasDateOrNtz : SparkType → Bool := typeHas isDateOrNtz false

def epochType : SparkType → SparkType := epochTypeOf isDateOrNtz false

/-- `_date_ntz_leaf_to_epoch_millis`. -/
def dateNtzLeafToEpochMillis (t : AtomicType) (c : Column F) :
    Except AnalysisException (Column F) :=
  match t with
  | .date => do (← (← c.unixDate).castLong).mul (← (Column.litInt 86400000).castLong)
  | .timestampNtz => do
    let year ← c.clockField "year" fun w => w.civil.year
    let month ← c.clockField "month" fun w => w.civil.month
    let day ← c.clockField "dayofmonth" fun w => w.civil.day
    let hour ← c.clockField "hour" fun w => w.hour
    let minute ← c.clockField "minute" fun w => w.minute
    let second ← c.clockField "date_part" fun w => w.second
    (Column.makeTimestamp year month day hour minute second).unixMillis
  | _ => .ok c

def dateNtzRewrite : Rewrite F where
  leaf := dateNtzLeafToEpochMillis
  has := typeHasDateOrNtz
  nullStruct dt _ := .litNull (epochType dt)

/-- `_rewrite_date_ntz`. -/
def rewriteDateNtz (r : Resolver) (c : Column F) (dt : SparkType) :
    Except AnalysisException (Column F) :=
  dateNtzRewrite.apply r dt c

section Serialize

variable [PyFloat F]

def nonfiniteRewrite : Rewrite F where
  leaf t c :=
    if isFloat t then do
      (← c.isNonFinite).whenOtherwise (.litNull (.atomic t)) c
    else .ok c
  has := typeHasFloat
  nullStruct _ c := c

/-- `_null_nonfinite`. -/
def nullNonfinite (r : Resolver) (c : Column F) (dt : SparkType) :
    Except AnalysisException (Column F) :=
  nonfiniteRewrite.apply r dt c

/-- `build_ndjson` raises: the analyzer rejects a column, or there is no id column to cast. -/
inductive BuildError where
  | analysis (e : AnalysisException)
  | attributeError

variable (J : SparkFunctions F) (r : Resolver) (cfg : EsWriteConfig) (schema : Schema)

/-- `field_types.get(name)`. -/
def fieldType (name : String) : Option SparkType := schema.reverse.lookup name

/-- `_source_expr`. -/
def sourceExpr (name : String) : Except AnalysisException (String × Column F) := do
  let c ← Column.col r schema name
  match fieldType schema name with
  | none => return (name, c)
  | some dt =>
    let c ← (if typeHasDateOrNtz dt then rewriteDateNtz r c dt else .ok c)
    let c ← (if typeHasFloat dt then nullNonfinite r c dt else .ok c)
    return (name, c)

/-- The names that stay out of `_source`. -/
def droppedColumns : List String :=
  match cfg.hasDeletes, cfg.deleteFlagColumn with
  | true, some flag => if flag = "" then cfg.dropFields else cfg.dropFields ++ [flag]
  | _, _ => cfg.dropFields

theorem dropFields_subset : cfg.dropFields ⊆ droppedColumns cfg := by
  intro name hname
  rw [droppedColumns]
  split
  · split
    · exact hname
    · exact List.mem_append_left _ hname
  · exact hname

/-- The struct that becomes the `_source` line. -/
def sourceStruct : Except AnalysisException (Column F) := do
  let payload := payloadColumns (schema.map Prod.fst) (droppedColumns cfg)
  return .struct (← payload.mapM (sourceExpr r schema))

/-- The id column, guarded against values that are not finite. -/
def idColumn (idField : String) : Except AnalysisException (Column F) := do
  let c ← Column.col r schema idField
  match fieldType schema idField with
  | some (.atomic t) =>
    if isFloat t then nullNonfinite r c (.atomic t) else return c
  | _ => return c

/-- The header line of an action. -/
def actionHeader (op : String) (idCol : Option (Column F)) : Except AnalysisException (Column F) :=
  let index := ("_index", Column.litString cfg.index)
  let fields := match idCol with
    | none => [index]
    | some c => [index, ("_id", c.castString J)]
  (Column.struct [(op, Column.struct fields)]).toJson J

/-- An index or create action: its header and its source on two lines. -/
def indexLine (idCol : Option (Column F)) : Except AnalysisException (Column F) := do
  let source ← (← sourceStruct r cfg schema).toJson J
  return (← actionHeader J cfg cfg.opType idCol).concat (.litString "\n") source

/-- The action line where a row may be a delete. -/
def routedLine (idCol : Column F) : Except AnalysisException (Column F) := do
  let line ← indexLine J r cfg schema (some idCol)
  let flag ← (← Column.col r schema (cfg.deleteFlagColumn.getD "")).equalsTrue J
  flag.whenOtherwise (← actionHeader J cfg "delete" (some idCol)) line

/-- `if cfg.id_field`. -/
def EsWriteConfig.idColumnName (cfg : EsWriteConfig) : Option String :=
  match cfg.idField with
  | some name => if name = "" then none else some name
  | none => none

theorem idField_of_idColumnName {cfg : EsWriteConfig} {name : String}
    (h : cfg.idColumnName = some name) : cfg.idField = some name := by
  rw [EsWriteConfig.idColumnName] at h
  split at h
  · rename_i name' hname'
    split at h
    · cases h
    · exact hname'.trans h
  · cases h

/-- The action line of a row with an id; null where the id is. -/
def guardedLine (idField : String) : Except AnalysisException (Column F) := do
  let c ← idColumn r schema idField
  let line ← if cfg.hasDeletes then routedLine J r cfg schema c
    else indexLine J r cfg schema (some c)
  c.isNull.whenOtherwise (.litNull (.atomic .string)) line

/-- `build_ndjson`, as the column of its one-column frame. -/
def buildNdjson : Except BuildError (Column F) :=
  match cfg.idColumnName with
  | some name => (guardedLine J r cfg schema name).mapError .analysis
  | none =>
    if cfg.hasDeletes then .error .attributeError
    else (indexLine J r cfg schema none).mapError .analysis

/-- The action line of a row, which is missing where it is null. -/
def lineOf (c : Column F) (row : Row F) : Option String :=
  match c.eval row with
  | .string s => some s
  | _ => none

end Serialize

end EsConnector
