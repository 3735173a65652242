import EsConnector.ColumnReads

namespace EsConnector
set_option autoImplicit true

variable {F : Type} [PyFloat F] {r : Resolver}

/-- The type of the struct behind an action header. -/
def headerType (op : String) (withId : Bool) : SparkType :=
  .struct [(op, .struct (("_index", .atomic .string) ::
    if withId then [("_id", .atomic .string)] else []))]

def headerValue (index : String) (id : Option String) : SparkValue F :=
  .struct [.struct (.string index :: (id.map SparkValue.string).toList)]

variable (J : SparkFunctions F) (cfg : EsWriteConfig)

/-- The text of an action header. -/
def headerText (op : String) (id : Option String) : String :=
  J.toJson (headerType op id.isSome) (headerValue cfg.index id)

/-- An action line: a delete is a header only. -/
def actionText (id : Option String) (flagged : Bool) (source : String) : String :=
  if flagged then headerText J cfg "delete" id
  else headerText J cfg cfg.opType id ++ "\n" ++ source

/-- The columns that an action line is put together from. -/
structure ActionColumns (F : Type) where
  source : Column F
  id : Option (Column F)
  flag : Option (Column F)

def ActionColumns.flagged (a : ActionColumns F) (row : Row F) : Bool :=
  a.flag.any fun flag => (flag.eval row).isTrue

/-- The line of a row, which is missing where its id is null. -/
def ActionColumns.lineText (a : ActionColumns F) (row : Row F) : Option String :=
  let source := J.toJson a.source.dataType (a.source.eval row)
  match a.id with
  | none => some (actionText J cfg none (a.flagged row) source)
  | some id =>
    if (id.eval row).isNull then none
    else some (actionText J cfg (some (J.castString id.dataType (id.eval row))) (a.flagged row) source)

/-- The columns that `build_ndjson` puts a line together from. -/
structure ActionColumns.Of (r : Resolver) (schema : Schema) (a : ActionColumns F) : Prop where
  source : sourceStruct r cfg schema = .ok a.source
  id : ∀ name, cfg.idColumnName = some name → ∃ c, idColumn r schema name = .ok c ∧ a.id = some c
  noId : cfg.idColumnName = none → a.id = none
  flag : cfg.hasDeletes = true → ∃ c d, Column.col r schema (cfg.deleteFlagColumn.getD "") = .ok c ∧
    c.equalsTrue J = .ok d ∧ a.flag = some d
  noFlag : cfg.hasDeletes = false → a.flag = none

variable {J cfg} {schema : Schema}

omit [PyFloat F] in
theorem toJsonBy_ok {text : SparkType → SparkValue F → String} {c d : Column F}
    (h : c.toJsonBy text = .ok d) (row : Row F) (hrow : (c.eval row).isNull = false) :
    d.eval row = .string (text c.dataType (c.eval row)) := by
  obtain rfl := Column.function_eq h
  dsimp only
  cases hv : c.eval row with
  | null =>
    rw [hv] at hrow
    cases hrow
  | _ => rfl

omit [PyFloat F] in
theorem toJsonBy_string {text : SparkType → SparkValue F → String} {c d : Column F}
    (h : c.toJsonBy text = .ok d) : d.dataType = .atomic .string :=
  (Column.function_eq h) ▸ rfl

omit [PyFloat F] in
theorem toJson_ok {c d : Column F} (h : c.toJson J = .ok d) (row : Row F)
    (hrow : (c.eval row).isNull = false) : d.eval row = .string (J.toJson c.dataType (c.eval row)) :=
  toJsonBy_ok h row hrow

omit [PyFloat F] in
theorem castString_eval {c : Column F} {row : Row F} (hrow : (c.eval row).isNull = false) :
    (c.castString J).eval row = .string (J.castString c.dataType (c.eval row)) := by
  dsimp only [Column.castString]
  cases hv : c.eval row with
  | null =>
    rw [hv] at hrow
    cases hrow
  | _ => rfl

theorem sourceStruct_ok {c : Column F} (h : sourceStruct r cfg schema = .ok c) :
    ∃ cols, (payloadColumns (schema.map Prod.fst) (droppedColumns cfg)).mapM (sourceExpr r schema) =
      .ok cols ∧ c = .struct cols := by
  obtain ⟨cols, hcols, hc⟩ := bind_ok h
  exact ⟨cols, hcols, (Except.ok.inj hc).symm⟩

omit [PyFloat F] in
theorem actionHeader_ok {op : String} {id : Option (Column F)} {c : Column F}
    (h : actionHeader J cfg op id = .ok c) (row : Row F)
    (hid : ∀ d, id = some d → (d.eval row).isNull = false) :
    c.eval row = .string (headerText J cfg op (id.map fun d => J.castString d.dataType (d.eval row))) := by
  have h : Column.toJson J _ = .ok c := h
  rw [toJson_ok h row rfl]
  cases id with
  | none => rfl
  | some d =>
    simp only [Column.struct, List.map_cons, List.map_nil, castString_eval (hid d rfl)]
    rfl

theorem indexLine_ok {id : Option (Column F)} {c : Column F} (h : indexLine J r cfg schema id = .ok c) :
    ∃ source, sourceStruct r cfg schema = .ok source ∧
      ∀ row, (∀ d, id = some d → (d.eval row).isNull = false) → c.eval row =
        .string (actionText J cfg (id.map fun d => J.castString d.dataType (d.eval row)) false
          (J.toJson source.dataType (source.eval row))) := by
  obtain ⟨source, hsource, h⟩ := bind_ok h
  obtain ⟨text, htext, h⟩ := bind_ok h
  obtain ⟨header, hheader, h⟩ := bind_ok h
  cases h
  refine ⟨source, hsource, ?_⟩
  intro row hid
  obtain ⟨cols, -, rfl⟩ := sourceStruct_ok hsource
  dsimp only [Column.concat]
  rw [actionHeader_ok hheader row hid, toJson_ok htext row rfl]
  rfl

theorem routedLine_ok {id c : Column F} (h : routedLine J r cfg schema id = .ok c) :
    ∃ source flag d, sourceStruct r cfg schema = .ok source ∧
      Column.col r schema (cfg.deleteFlagColumn.getD "") = .ok flag ∧ flag.equalsTrue J = .ok d ∧
      ∀ row, (id.eval row).isNull = false → c.eval row =
        .string (actionText J cfg (some (J.castString id.dataType (id.eval row))) (d.eval row).isTrue
          (J.toJson source.dataType (source.eval row))) := by
  obtain ⟨line, hline, h⟩ := bind_ok h
  obtain ⟨flag, hflag, h⟩ := bind_ok h
  obtain ⟨d, hd, h⟩ := bind_ok h
  obtain ⟨header, hheader, hwhen⟩ := bind_ok h
  obtain ⟨source, hsource, htext⟩ := indexLine_ok hline
  obtain ⟨-, -, heval⟩ := Column.whenOtherwise_ok hwhen
  refine ⟨source, flag, d, hsource, hflag, hd, ?_⟩
  intro row hid
  have hid' : ∀ e, some id = some e → (e.eval row).isNull = false := by
    rintro e ⟨⟩
    exact hid
  rw [heval, htext row hid', actionHeader_ok hheader row hid']
  cases (d.eval row).isTrue <;> rfl

omit [PyFloat F] in
theorem lineOf_string {c : Column F} {row : Row F} {text : String}
    (h : c.eval row = .string text) : lineOf c row = some text := by
  rw [lineOf, h]

omit [PyFloat F] in
theorem guarded_lineText {id line c : Column F} {a : ActionColumns F} (ha : a.id = some id)
    (hwhen : id.isNull.whenOtherwise (.litNull (.atomic .string)) line = .ok c) {row : Row F}
    (htext : (id.eval row).isNull = false → line.eval row =
      .string (actionText J cfg (some (J.castString id.dataType (id.eval row))) (a.flagged row)
        (J.toJson a.source.dataType (a.source.eval row)))) :
    lineOf c row = a.lineText J cfg row := by
  obtain ⟨-, -, heval⟩ := Column.whenOtherwise_ok hwhen
  rw [lineOf, heval, Column.isNull_isTrue, ActionColumns.lineText, ha]
  cases hrow : (id.eval row).isNull with
  | true =>
    dsimp only
    rw [hrow]
    rfl
  | false =>
    dsimp only
    rw [hrow, if_neg Bool.false_ne_true, htext hrow]
    rfl

theorem guardedLine_ok {idField : String} {c : Column F}
    (h : guardedLine J r cfg schema idField = .ok c) :
    ∃ (source id : Column F) (flag : Option (Column F)), sourceStruct r cfg schema = .ok source ∧
      idColumn r schema idField = .ok id ∧
      (cfg.hasDeletes = true → ∃ c d, Column.col r schema (cfg.deleteFlagColumn.getD "") = .ok c ∧
        c.equalsTrue J = .ok d ∧ flag = some d) ∧ (cfg.hasDeletes = false → flag = none) ∧
      ∀ row, lineOf c row = ActionColumns.lineText J cfg ⟨source, some id, flag⟩ row := by
  obtain ⟨id, hid, h⟩ := bind_ok h
  split at h
  · rename_i hdeletes
    obtain ⟨line, hline, hwhen⟩ := bind_ok h
    obtain ⟨source, flag, d, hsource, hflag, hd, hroute⟩ := routedLine_ok hline
    refine ⟨source, id, some d, hsource, hid, fun _ => ⟨flag, d, hflag, hd, rfl⟩,
      fun hno => absurd hdeletes (by simp [hno]), ?_⟩
    intro row
    exact guarded_lineText rfl hwhen (hroute row)
  · rename_i hdeletes
    obtain ⟨line, hline, hwhen⟩ := bind_ok h
    obtain ⟨source, hsource, hindex⟩ := indexLine_ok hline
    refine ⟨source, id, none, hsource, hid, fun hyes => absurd hyes hdeletes, fun _ => rfl, ?_⟩
    intro row
    apply guarded_lineText rfl hwhen
    intro hrow
    exact hindex row (by rintro d ⟨⟩; exact hrow)

/-- The line of a row is put together from the columns of the source, the id and the flag. -/
theorem buildNdjson_lines {line : Column F} (hok : buildNdjson J r cfg schema = .ok line) :
    ∃ a : ActionColumns F, a.Of J cfg r schema ∧ ∀ row, lineOf line row = a.lineText J cfg row := by
  rw [buildNdjson] at hok
  split at hok
  · rename_i name hname
    obtain ⟨source, id, flag, hsource, hid, hflag, hnoFlag, hlines⟩ :=
      guardedLine_ok (mapError_ok hok)
    refine ⟨⟨source, some id, flag⟩, ⟨hsource, ?_, ?_, hflag, hnoFlag⟩, hlines⟩
    · intro name' hname'
      cases hname.symm.trans hname'
      exact ⟨id, hid, rfl⟩
    · intro hnone
      rw [hname] at hnone
      cases hnone
  · rename_i hnone
    split at hok
    · cases hok
    · rename_i hdeletes
      obtain ⟨source, hsource, hindex⟩ := indexLine_ok (mapError_ok hok)
      refine ⟨⟨source, none, none⟩, ⟨hsource, ?_, fun _ => rfl, fun hyes => absurd hyes hdeletes,
        fun _ => rfl⟩, fun row => lineOf_string (hindex row (by rintro d ⟨⟩))⟩
      intro name hname
      rw [hnone] at hname
      cases hname

omit [PyFloat F] in
theorem equalsTrue_congr {c d : Column F} (h : c.equalsTrue J = .ok d) {row row' : Row F}
    (heq : c.eval row = c.eval row') : d.eval row = d.eval row' := by
  rw [Column.equalsTrue] at h
  split at h
  · cases h
    exact heq
  · split at h
    · cases h
      dsimp only
      rw [heq]
    · cases h

/-- The line of a row is decided by what `F.col` gives for the names that are read. -/
theorem lineText_congr {a : ActionColumns F} (ha : a.Of J cfg r schema) {row row' : Row F}
    (hcols : ∀ name ∈ payloadColumns (schema.map Prod.fst) (droppedColumns cfg),
      ∀ c : Column F, Column.col r schema name = .ok c → c.eval row = c.eval row')
    (hid : ∀ name, cfg.idColumnName = some name →
      ∀ c : Column F, Column.col r schema name = .ok c → c.eval row = c.eval row')
    (hflag : cfg.hasDeletes = true → ∀ c : Column F,
      Column.col r schema (cfg.deleteFlagColumn.getD "") = .ok c → c.eval row = c.eval row') :
    a.lineText J cfg row = a.lineText J cfg row' := by
  have hsource : a.source.eval row = a.source.eval row' := by
    obtain ⟨cols, hmap, hstruct⟩ := sourceStruct_ok ha.source
    rw [hstruct]
    refine congrArg SparkValue.struct (List.map_congr_left fun e he => ?_)
    obtain ⟨name, hname, hexpr⟩ := mapM_ok_mem hmap e he
    obtain ⟨c, hc, -, hfollows⟩ := sourceExpr_follows hexpr
    exact hfollows.congr row row' (hcols name hname c hc)
  have hflagged : a.flagged row = a.flagged row' := by
    cases hdeletes : cfg.hasDeletes with
    | false =>
      rw [ActionColumns.flagged, ActionColumns.flagged, ha.noFlag hdeletes]
      rfl
    | true =>
      obtain ⟨c, d, hc, hd, hsome⟩ := ha.flag hdeletes
      rw [ActionColumns.flagged, ActionColumns.flagged, hsome]
      simp only [Option.any_some, equalsTrue_congr hd (hflag hdeletes c hc)]
  cases hname : cfg.idColumnName with
  | none => simp only [ActionColumns.lineText, ha.noId hname, hsource, hflagged]
  | some name =>
    obtain ⟨c, hc, hsome⟩ := ha.id name hname
    obtain ⟨d, hd, hfollows⟩ := idColumn_follows hc
    have hvalue := hfollows.congr row row' (hid name hname d hd)
    simp only [ActionColumns.lineText, hsome, hsource, hflagged, hvalue]

/-- The line that `build_ndjson` gives a row, where it gives one. -/
def rowLine (J : SparkFunctions F) (r : Resolver) (cfg : EsWriteConfig) (schema : Schema)
    (row : Row F) : Option String :=
  match buildNdjson J r cfg schema with
  | .ok line => lineOf line row
  | .error _ => none

end EsConnector
