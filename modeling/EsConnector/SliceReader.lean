import EsConnector.Config
import EsConnector.Interaction
import EsConnector.ReadCoerce

namespace EsConnector
set_option autoImplicit true

open Interaction

/-- Connection and read behaviour. -/
structure EsReadConfig (F : Type) extends EsConnection where
  index : String := ""
  idField : Option String := none
  query : Option (List (String × Json F)) := none
  numSlices : Option Int := none
  batchSize : Int := 1000
  pitKeepAlive : String := "5m"
  includeId : Bool := true
  strictSlices : Bool := true

/-- The checks of `EsReadConfig.__post_init__`, in order. -/
def EsReadConfig.postInit (cfg : EsReadConfig F) : Except String Unit := do
  cfg.toEsConnection.postInit
  if cfg.batchSize ≤ 0 then
    throw "EsReadConfig.batch_size must be positive"
  if cfg.numSlices.any (· < 1) then
    throw "EsReadConfig.num_slices must be >= 1 when set"

structure Pit where
  id : String
  keepAlive : String
deriving DecidableEq

structure SliceSpec where
  id : Nat
  max : Nat
deriving DecidableEq

/-- The arguments of `es.search`. -/
structure SearchRequest (Key F : Type) where
  size : Int
  query : List (String × Json F)
  pit : Pit
  sort : List (String × String)
  slice : Option SliceSpec
  searchAfter : Option Key

/-- A hit. `Key` is the type of its sort values. -/
structure Hit (Key F : Type) where
  source : Option (List (String × Json F)) := none
  id : Option String := none
  sort : Key

structure SearchResponse (Key F : Type) where
  hits : List (Hit Key F)
  pitId : Option String

/-- The search raised. -/
structure SearchError where
  message : String
deriving DecidableEq

abbrev SearchReply (Key F : Type) (_ : SearchRequest Key F) : Type :=
  Except SearchError (SearchResponse Key F)

/-- What a slice reader asks of ES. -/
abbrev SearchProg (Key F α : Type) : Type := Prog (SearchRequest Key F) (SearchReply Key F) α

/-- How a slice reader can end early. The last is the model's: its searches are bounded. -/
inductive ReadError (F : Type) where
  | search (e : SearchError)
  | coerce (e : PyError F)
  | outOfFuel

variable {Key F : Type}

/-- The parameters of `_slice_hits` that do not change. -/
structure SliceHitsArgs (F : Type) where
  query : List (String × Json F)
  batchSize : Int
  keepAlive : String
  sliceSpec : Option SliceSpec := none

def SliceHitsArgs.request (args : SliceHitsArgs F) (searchAfter : Option Key) (pitId : String) :
    SearchRequest Key F where
  size := args.batchSize
  query := args.query
  pit := ⟨pitId, args.keepAlive⟩
  sort := [("_shard_doc", "asc")]
  slice := args.sliceSpec
  searchAfter

/-- `_slice_hits`. Its consumer folds the hits it yields into `acc`, and may raise on one.
The loop has no bound of its own; here `fuel` bounds its searches. -/
def sliceHits (args : SliceHitsArgs F) (consume : β → Hit Key F → Except (ReadError F) β) :
    Nat → β → Option Key → String → SearchProg Key F (Except (ReadError F) β)
  | 0, _, _, _ => pure (.error .outOfFuel)
  | fuel + 1, acc, searchAfter, pitId => do
    let resp : Except SearchError (SearchResponse Key F) ←
      Prog.query (args.request searchAfter pitId)
    match resp with
    | .error e => pure (.error (.search e))
    | .ok resp =>
      match resp.hits.getLast? with
      | none => pure (.ok acc)
      | some last =>
        match resp.hits.foldlM consume acc with
        | .error e => pure (.error e)
        | .ok acc => sliceHits args consume fuel acc (some last.sort) (resp.pitId.getD pitId)

/-- A data frame, with its rows in the order of its columns. -/
structure Frame (F : Type) where
  columns : List String
  rows : List (List (PyValue F))

/-- `pd.DataFrame(rows, columns=columns)`. -/
def dataFrame (rows : List (List (String × PyValue F))) (columns : List String) : Frame F where
  columns
  rows := rows.map fun row => columns.map fun c => (row.lookup c).getD .none

section Reader

variable [PyFloat F] (cfg : EsReadConfig F) (pitId : String) (query : List (String × Json F))
  (fieldTokens : List (String × TypeToken)) (numSlices : Nat) (fuel : Nat)

/-- The arguments of the `_slice_hits` that reads one slice: a single slice is read unsliced. -/
def sliceArgs (sliceId : Nat) : SliceHitsArgs F where
  query
  batchSize := cfg.batchSize
  keepAlive := cfg.pitKeepAlive
  sliceSpec := if 1 < numSlices then some ⟨sliceId, numSlices⟩ else none

/-- A hit as a row of the declared schema. -/
def hitRow (h : Hit Key F) : Except (ReadError F) (List (String × PyValue F)) :=
  match coerceHit (h.source.getD []) h.id fieldTokens cfg.idField cfg.includeId with
  | .ok row => .ok row
  | .error e => .error (.coerce e)

/-- The list of rows that `_read` builds for one slice. -/
def readSlice (sliceId : Nat) :
    SearchProg Key F (Except (ReadError F) (List (List (String × PyValue F)))) :=
  sliceHits (sliceArgs cfg query numSlices sliceId)
    (fun rows h => do return rows ++ [← hitRow cfg fieldTokens h]) fuel [] none pitId

/-- The frames that `_read` yields for the slice ids of its input. -/
def readSlices : List Nat → SearchProg Key F (Except (ReadError F) (List (Frame F)))
  | [] => pure (.ok [])
  | sliceId :: ids => do
    match ← readSlice cfg pitId query fieldTokens numSlices fuel sliceId with
    | .error e => pure (.error e)
    | .ok rows =>
      match ← readSlices ids with
      | .error e => pure (.error e)
      | .ok frames =>
        pure (.ok (if rows.isEmpty then frames
          else dataFrame rows (fieldTokens.map Prod.fst) :: frames))

/-- The function `_make_slice_reader` returns. Its input is a list of frames of slice ids. -/
def makeSliceReader (iterator : List (List Nat)) :
    SearchProg Key F (Except (ReadError F) (List (Frame F))) :=
  readSlices cfg pitId query fieldTokens numSlices fuel iterator.flatten

end Reader

/-- What `read_index` asks on the driver. -/
inductive IndexQuery where
  | numberOfShards (index : String)
  | openPointInTime (index keepAlive : String)
  | close
deriving DecidableEq

@[reducible] def IndexQuery.Reply : IndexQuery → Type
  | .numberOfShards _ => Except String Int
  | .openPointInTime .. => Except String String
  | .close => Unit

abbrev IndexProg (α : Type) : Type := Prog IndexQuery IndexQuery.Reply α

/-- The exceptions `read_index` raises before its frame is evaluated. -/
inductive ReadIndexError (F : Type) where
  | valueError (message : String)
  | schemaMismatch (e : ReadSchemaMismatch F)
  | shardCount (index exception : String)
  | openPointInTime (exception : String)

/-- A map key type that ES can give back. -/
def stringKeyToken : TypeToken → Bool
  | .scalar name => name = "string" || "string collate ".toList.isPrefixOf name.toList
  | _ => false

mutual

/-- `_reject_non_string_map_keys_in_token`. -/
def rejectNonStringMapKeysInToken (path : String) : TypeToken → Except (ReadSchemaMismatch F) Unit
  | .scalar _ => .ok ()
  | .array element => rejectNonStringMapKeysInToken (path ++ "[]") element
  | .map key value =>
    if stringKeyToken key then rejectNonStringMapKeysInToken (path ++ "\x7b\x7d") value
    else .error (.mapKey path key)
  | .struct fields => rejectNonStringMapKeys (path ++ ".") fields

/-- `_reject_non_string_map_keys`. -/
def rejectNonStringMapKeys (path : String) :
    List (String × TypeToken) → Except (ReadSchemaMismatch F) Unit
  | [] => .ok ()
  | (name, token) :: fields => do
    rejectNonStringMapKeysInToken (path ++ name) token
    rejectNonStringMapKeys path fields

end

/-- `_resolve_num_slices`. -/
def resolveNumSlices (index : String) (configured : Option Int) (strict : Bool) :
    IndexProg (Except (ReadIndexError F) Nat) :=
  match configured with
  | some n => pure (.ok (max 1 n).toNat)
  | none => do
    let shards : Except String Int ← Prog.query (IndexQuery.numberOfShards index)
    match shards with
    | .ok shards => pure (.ok (max 1 shards).toNat)
    | .error exc => if strict then pure (.error (.shardCount index exc)) else pure (.ok 1)

/-- `_validate`. -/
def validate (cfg : EsReadConfig F) (schema : Schema) : Except (ReadIndexError F) Unit := do
  if schema.isEmpty then
    throw (.valueError ("read_index requires a non-empty Spark StructType schema (there is no " ++
      "mapping inference, declare the schema explicitly)"))
  if cfg.index = "" then
    throw (.valueError "EsReadConfig.index is required to read")

/-- The lazy frame that `read_index` returns: what its slice reader has captured. The frame has one
partition for each slice. -/
structure SliceRead (F : Type) where
  pitId : String
  query : List (String × Json F)
  fieldTokens : List (String × TypeToken)
  numSlices : Nat

/-- `cfg.query or {"match_all": {}}`. -/
def EsReadConfig.queryOrAll (cfg : EsReadConfig F) : List (String × Json F) :=
  match cfg.query with
  | some (clause :: clauses) => clause :: clauses
  | _ => [("match_all", .dict [])]

/-- `read_index`. -/
def readIndex (cfg : EsReadConfig F) (schema : Schema) :
    IndexProg (Except (ReadIndexError F) (SliceRead F)) :=
  match validate cfg schema with
  | .error e => pure (.error e)
  | .ok () =>
    let fieldTokens := schemaFieldTokens schema
    match rejectNonStringMapKeys "" fieldTokens with
    | .error e => pure (.error (.schemaMismatch e))
    | .ok () => do
      match ← resolveNumSlices cfg.index cfg.numSlices cfg.strictSlices with
      | .error e =>
        let _ : Unit ← Prog.query IndexQuery.close
        pure (.error e)
      | .ok numSlices =>
        let pit : Except String String ←
          Prog.query (IndexQuery.openPointInTime cfg.index cfg.pitKeepAlive)
        let _ : Unit ← Prog.query IndexQuery.close
        match pit with
        | .error e => pure (.error (.openPointInTime e))
        | .ok pitId => pure (.ok { pitId, query := cfg.queryOrAll, fieldTokens, numSlices })

/-- The inputs of the tasks of a read: each reads the slice id of its own partition. -/
def SliceRead.partitions (r : SliceRead F) : List (List (List Nat)) :=
  (List.range r.numSlices).map fun sliceId => [[sliceId]]

end EsConnector
