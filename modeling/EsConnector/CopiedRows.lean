import EsConnector.ArrowSanitizer
import EsConnector.CleanVerdict
import EsConnector.RequestBody
import EsConnector.RoundTrip

namespace EsConnector
set_option autoImplicit true

open Interaction

variable {F : Type} {J : SparkFunctions F} {r : Resolver} {parse : String → Option (Json F)}
  {json : SparkType → SparkValue F → Json F} {cfg : EsWriteConfig} {schema : Schema}

/-- What `bulk_write` raises before its Spark job. -/
inductive BulkPlanError where
  | analysis (e : AnalysisException)
  | preflight (e : PreflightError)
  | build (e : BuildError)

/-- `bulk_write` up to its Spark job: the action lines of the rows, where `indices.exists` answers
`indexExists`. -/
def bulkWriteLines [PyFloat F] (J : SparkFunctions F) (r : Resolver) (cfg : EsWriteConfig)
    (indexExists : Bool) (df : DataFrame F) : Except BulkPlanError (List (Option String)) := do
  let df ← (preparedFrame J r df).mapError .analysis
  (preflight cfg df.schema indexExists).mapError .preflight
  let line ← (buildNdjson J r cfg df.schema).mapError .build
  return df.rows.map (lineOf line)

/-- The fields of a document. -/
abbrev Document (F : Type) : Type := List (String × Json F)

/-- What Elasticsearch does for an action. -/
def BulkAction.action (a : BulkAction F) : Action String (Document F) :=
  if a.op = "delete" then .delete (a.id.getD "")
  else if a.op = "create" then .create (a.id.getD "") (a.source.getD [])
  else .index a.id (a.source.getD [])

/-- What Elasticsearch does for a line. -/
def lineAction (parse : String → Option (Json F)) (line : String) : Action String (Document F) :=
  match decodeBody parse (requestBody [line]) with
  | some [a] => a.action
  | _ => .index none []

/-- The frame that the lines of a plain frame are built from. -/
def normalizedSchema (schema : Schema) : Schema := mapFields (longWhere isTimestamp) schema

/-- The `_id` that a row is written under: the text of its id column, where a timestamp is its
epoch milliseconds. -/
def writtenId (J : SparkFunctions F) (schema : Schema) (name : String) (row : Row F) : String :=
  J.castString ((columnType (normalizedSchema schema) name).getD (.atomic .string))
    (valueOf (normalizedSchema schema) (mapCells timestampLeaf schema row) name)

/-- A row that is marked for deletion. -/
def isFlagged (cfg : EsWriteConfig) (schema : Schema) (row : Row F) : Bool :=
  cfg.hasDeletes && cfg.deleteFlagColumn.any fun name => (valueOf schema row name).isTrue

/-- What is read back of a row: the columns that are kept, up to the documented deltas. -/
def readBack [PyFloat F] (cfg : EsWriteConfig) (schema : Schema) (row : Row F) :
    List (String × PyValue F) :=
  toPythonCells (keptFields cfg schema)
    (mapCells documentedDelta (keptFields cfg schema) (keptCells cfg schema row))

theorem PlainName.unmarked {name : String} (h : PlainName name) : Unmarked name := h.2

theorem PlainSchema.linesUnmarked (hs : PlainSchema r schema) (hpre : Preflighted cfg schema) :
    LinesUnmarked cfg := by
  constructor
  · intro name hname
    obtain ⟨f, hf, rfl⟩ := List.mem_map.mp (hpre.id name (idField_of_idColumnName hname))
    exact (hs.names f hf).unmarked
  · intro hdeletes name hname
    obtain ⟨name', hname', hdt⟩ := hpre.flag hdeletes
    cases hname.symm.trans hname'
    exact (hs.names _ (columnType_mem hdt)).unmarked

theorem isFlagged_iff {row : Row F} : isFlagged cfg schema row = true ↔ Flagged cfg schema row := by
  rw [isFlagged, Flagged, Bool.and_eq_true]
  apply and_congr_right
  intro _
  cases cfg.deleteFlagColumn with
  | none => simp
  | some name => simp [isTrue_iff]

theorem findIdx_mapFields (g : AtomicType → AtomicType) (schema : Schema) (name : String) :
    ((mapFields g schema).findIdx fun f => f.1 = name) = schema.findIdx fun f => f.1 = name := by
  induction schema with
  | nil => rfl
  | cons f schema ih => rw [mapFields, List.findIdx_cons, List.findIdx_cons, ih]

theorem columnType_mapFields (g : AtomicType → AtomicType) (schema : Schema) (name : String) :
    columnType (mapFields g schema) name = (columnType schema name).map (mapTypes g) := by
  induction schema with
  | nil => rfl
  | cons f schema ih =>
    rw [columnType, columnType, mapFields, List.find?_cons, List.find?_cons]
    dsimp only
    cases decide (f.1 = name) with
    | true => rfl
    | false => exact ih

theorem getD_mapCells {f : AtomicType → SparkValue F → SparkValue F} {fd : String × SparkType}
    {i : Nat} (hi : schema[i]? = some fd) {row : Row F} (hrow : row.length = schema.length) :
    (mapCells f schema row).getD i .null = mapLeaves f fd.2 (row.getD i .null) := by
  induction schema generalizing row i with
  | nil => cases hi
  | cons first schema ih =>
    cases row with
    | nil => cases hrow
    | cons v row =>
      rw [mapCells]
      cases i with
      | zero =>
        cases hi
        rfl
      | succ i => exact ih hi (Nat.succ.inj hrow)

theorem valueOf_mapCells {g : AtomicType → AtomicType} {f : AtomicType → SparkValue F → SparkValue F}
    {name : String} {dt : SparkType} (hdt : columnType schema name = some dt) {row : Row F}
    (hrow : row.length = schema.length) :
    valueOf (mapFields g schema) (mapCells f schema row) name =
      mapLeaves f dt (valueOf schema row name) := by
  rw [valueOf, valueOf, findIdx_mapFields]
  exact getD_mapCells (columnType_findIdx hdt) hrow

section Lines

variable [PyFloat F] {line : Column F} {name : String} {row : Row F} {text : String}

omit [PyFloat F] in
theorem flagged_normalized (hpre : Preflighted cfg (normalizedSchema schema))
    (hrow : row.length = schema.length) :
    Flagged cfg (normalizedSchema schema) (mapCells timestampLeaf schema row) ↔
      Flagged cfg schema row := by
  apply and_congr_right
  intro hdeletes
  obtain ⟨name, hname, hdt⟩ := hpre.flag hdeletes
  rw [normalizedSchema, columnType_mapFields] at hdt
  obtain ⟨dt, hdt, hbool⟩ := Option.map_eq_some_iff.mp hdt
  obtain rfl : dt = .atomic .boolean := by
    cases dt with
    | atomic t => cases t <;> first | rfl | cases hbool
    | _ => cases hbool
  have hvalue : valueOf (normalizedSchema schema) (mapCells timestampLeaf schema row) name =
      valueOf schema row name := valueOf_mapCells hdt hrow
  simp only [hname, Option.some.injEq, exists_eq_left', hvalue]

omit [PyFloat F] in
theorem lineAction_of_decodes {action : BulkAction F}
    (h : ∀ rest, decodeActions parse (physicalLines [] (text.toList ++ '\n' :: rest)) =
      (decodeActions parse (physicalLines [] rest)).map (action :: ·)) :
    decodeBody parse (requestBody [text]) = some [action] ∧ lineAction parse text = action.action := by
  have hbody : decodeBody parse (requestBody [text]) = some [action] := by
    rw [decodeBody, requestBody, List.flatMap_singleton, h []]
    rfl
  refine ⟨hbody, ?_⟩
  rw [lineAction, hbody]

/-- The document of a line has what the source line of the row has. -/
theorem source_of_line (hJ : WritesObjects J parse json) {cols : List (String × Column F)}
    (hcols : (payloadColumns (schema.map Prod.fst) (droppedColumns cfg)).mapM (sourceExpr r schema) =
      .ok cols) {source : Column F} (hsource : sourceLine J r cfg schema = .ok source)
    {tokens : List (String × TypeToken)} {expected : List (String × PyValue F)}
    (h : ReadsBackAs parse tokens (source.eval row) expected) :
    ∀ docId idField includeId, coerceHit
      (cols.map fun c => (c.1, json c.2.dataType (c.2.eval row))) docId tokens idField includeId =
        .ok expected := by
  obtain ⟨struct, hstruct, hline⟩ := bind_ok hsource
  obtain ⟨cols', hcols', rfl⟩ := sourceStruct_ok hstruct
  cases hcols.symm.trans hcols'
  obtain ⟨text, items, htext, hparse, hread⟩ := h
  rw [toJson_ok hline row rfl] at htext
  cases htext
  have hitems : parse (J.toJson (Column.struct cols).dataType ((Column.struct cols).eval row)) =
      some (.dict (cols.map fun c => (c.1, json c.2.dataType (c.2.eval row)))) := by
    refine (hJ.parses _ _).trans ?_
    rw [hJ.struct, List.zipWith_map, List.zipWith_self]
  cases hitems.symm.trans hparse
  exact hread

theorem row_reads_back (hjson : RestoresJson J parse) (hs : PlainSchema r schema)
    (hback : ∀ f ∈ schema, ComesBack f.2) (hrow : CellsTyped InRange schema row) :
    ∃ source, sourceLine J r cfg (normalizedSchema schema) = .ok source ∧
      ReadsBackAs parse (schemaFieldTokens (keptFields cfg schema))
        (source.eval (mapCells timestampLeaf schema row)) (readBack cfg schema row) := by
  obtain ⟨struct, hstruct, htype, heval⟩ := sourceStruct_of_plain (F := F)
    (hs.mapFields (longWhere isTimestamp)) cfg
  obtain ⟨source, hsource, -, htext⟩ := Column.toJson_struct J htype
  have hkept {f : String × SparkType} (hf : f ∈ keptFields cfg schema) : f ∈ schema :=
    (List.mem_filter.mp hf).1
  have hcells := heval _ (hrow.shaped.mapCells (longWhere isTimestamp) timestampLeaf)
  rw [keptFields_mapFields, keptCells_mapCells, storedCells_eq] at hcells
  refine ⟨source, ?_, ?_⟩
  · rw [sourceLine, normalizedSchema, hstruct]
    exact hsource
  · rw [htext _ _ hcells, keptFields_mapFields, mapFields_mapFields]
    exact row_comes_back hjson (hs.apart.filter _) (fun f hf => hs.types f (hkept hf))
      (fun f hf => hback f (hkept hf)) (hrow.kept cfg)

/-- What the line of a row asks of Elasticsearch: to delete the document of a flagged row, and else
to index a document that the row can be read back from. -/
theorem lineAction_of_row (hJ : WritesObjects J parse json) (hjson : RestoresJson J parse)
    (hop : cfg.opType = "index") (hs : PlainSchema r schema) (hback : ∀ f ∈ schema, ComesBack f.2)
    (hpre : Preflighted cfg (normalizedSchema schema)) (hid : cfg.idColumnName = some name)
    (hok : buildNdjson J r cfg (normalizedSchema schema) = .ok line)
    (hrow : CellsTyped InRange schema row)
    (htext : lineOf line (mapCells timestampLeaf schema row) = some text) :
    (isFlagged cfg schema row = true →
      lineAction parse text = .delete (writtenId J schema name row)) ∧
    (isFlagged cfg schema row = false → ∃ doc,
      lineAction parse text = .index (some (writtenId J schema name row)) doc ∧
        ∀ docId idField includeId, coerceHit doc docId (schemaFieldTokens (keptFields cfg schema))
          idField includeId = .ok (readBack cfg schema row)) := by
  obtain ⟨a, ha, hlines⟩ := buildNdjson_lines hok
  rw [hlines] at htext
  have hplain := hs.mapFields (longWhere isTimestamp)
  obtain ⟨cols, action, hcols, -, -, -, hwrite, hdecode⟩ := lineText_decodes hJ (.inl hop) ha htext
  obtain ⟨action', hintended, hdecode'⟩ :=
    lineText_intended hJ (.inl hop) ha hpre (hplain.linesUnmarked hpre) htext
  obtain ⟨hbody, haction⟩ := lineAction_of_decodes hdecode
  cases hbody.symm.trans (lineAction_of_decodes hdecode').1
  have hflag : isFlagged cfg schema row = true ↔
      Flagged cfg (normalizedSchema schema) (mapCells timestampLeaf schema row) :=
    isFlagged_iff.trans (flagged_normalized hpre hrow.shaped.length_eq).symm
  have hidText : action.id = some (writtenId J schema name row) := by
    obtain ⟨dt, hdt⟩ := columnType_of_mem (hpre.id name (idField_of_idColumnName hid))
    rw [hintended.id name dt hid hdt, writtenId, hdt]
    rfl
  constructor
  · intro hflagged
    obtain ⟨hdelete, -⟩ := hintended.delete (hflag.mp hflagged)
    rw [haction, BulkAction.action, if_pos hdelete, hidText]
    rfl
  · intro hunflagged
    have hnot : ¬Flagged cfg (normalizedSchema schema) (mapCells timestampLeaf schema row) :=
      fun h => Bool.false_ne_true (hunflagged.symm.trans (hflag.mpr h))
    have hfalse : a.flagged (mapCells timestampLeaf schema row) = false := by
      rw [← Bool.not_eq_true, flagged_iff ha hpre (hplain.linesUnmarked hpre)]
      exact hnot
    obtain ⟨hop', hsource⟩ := hwrite hfalse
    rw [hop] at hop'
    obtain ⟨source, hline, hread⟩ := row_reads_back hjson hs hback hrow
    refine ⟨_, ?_, source_of_line hJ hcols hline hread⟩
    rw [haction, BulkAction.action, hop', if_neg (by decide), if_neg (by decide), hsource, hidText]
    rfl

end Lines

end EsConnector
