import EsConnector.LiteralColumns

namespace EsConnector
set_option autoImplicit true

/-- An action of a `_bulk` request. -/
structure BulkAction (F : Type) where
  op : String
  index : String
  id : Option String
  source : Option (List (String × Json F))

/-- The lines of a text, each ended by a newline. What follows the last one is a line only if there
is something. -/
def physicalLines (part : List Char) : List Char → List String
  | [] => if part = [] then [] else [String.ofList part]
  | c :: cs => if c = '\n' then String.ofList part :: physicalLines [] cs
    else physicalLines (part ++ [c]) cs

/-- The body of a request: one newline after each action line. -/
def requestBody (lines : List String) : List Char := lines.flatMap fun line => line.toList ++ ['\n']

/-- The operation of an action header, the index and the `_id`, which is a string if it is there. -/
def decodeHeader : Json F → Option (String × String × Option String)
  | .dict [(op, .dict fields)] =>
    if op = "index" ∨ op = "create" ∨ op = "delete" then
      match fields.lookup "_index", fields.lookup "_id" with
      | some (.str index), some (.str id) => some (op, index, some id)
      | some (.str index), none => some (op, index, none)
      | _, _ => none
    else none
  | _ => none

/-- The grammar of `_bulk`: the line after the header of an index or create action is its source, and
a delete has none. -/
def decodeActions (parse : String → Option (Json F)) : List String → Option (List (BulkAction F))
  | [] => some []
  | header :: rest => do
    let (op, index, id) ← decodeHeader (← parse header)
    if op = "delete" then
      return ⟨op, index, id, none⟩ :: (← decodeActions parse rest)
    else
      match rest with
      | [] => none
      | source :: rest =>
        match ← parse source with
        | .dict items => return ⟨op, index, id, some items⟩ :: (← decodeActions parse rest)
        | _ => none

/-- The actions that Elasticsearch reads in a body. -/
def decodeBody (parse : String → Option (Json F)) (body : List Char) : Option (List (BulkAction F)) :=
  decodeActions parse (physicalLines [] body)

theorem physicalLines_line {line : List Char} (hline : '\n' ∉ line) (part rest : List Char) :
    physicalLines part (line ++ '\n' :: rest) =
      String.ofList (part ++ line) :: physicalLines [] rest := by
  induction line generalizing part with
  | nil => simp [physicalLines]
  | cons c line ih =>
    have hc : c ≠ '\n' := fun hc => hline (hc ▸ List.mem_cons_self)
    rw [List.cons_append, physicalLines, if_neg hc, ih fun hmem => hline (List.mem_cons_of_mem _ hmem),
      List.append_assoc, List.singleton_append]

variable {F : Type} {r : Resolver}

/-- `to_json` writes a struct on one line, as a JSON object with the fields of the struct. -/
structure WritesObjects (J : SparkFunctions F) (parse : String → Option (Json F))
    (json : SparkType → SparkValue F → Json F) : Prop where
  newline : ∀ fields cells, '\n' ∉ (J.toJson (.struct fields) (.struct cells)).toList
  parses : ∀ fields cells, parse (J.toJson (.struct fields) (.struct cells)) =
    some (json (.struct fields) (.struct cells))
  struct : ∀ fields cells, json (.struct fields) (.struct cells) =
    .dict (List.zipWith (fun f v => (f.1, json f.2 v)) fields cells)
  string : ∀ s, json (.atomic .string) (.string s) = .str s

variable {J : SparkFunctions F} {parse : String → Option (Json F)}
  {json : SparkType → SparkValue F → Json F} {cfg : EsWriteConfig}

theorem WritesObjects.header (hJ : WritesObjects J parse json) (cfg : EsWriteConfig) (op : String)
    (hop : op = "index" ∨ op = "create" ∨ op = "delete") (id : Option String) :
    '\n' ∉ (headerText J cfg op id).toList ∧
      ((parse (headerText J cfg op id)).bind decodeHeader) = some (op, cfg.index, id) := by
  refine ⟨hJ.newline _ _, ?_⟩
  rw [headerText, headerType, headerValue, hJ.parses, hJ.struct]
  simp only [List.zipWith_cons_cons, List.zipWith_nil_left, Option.bind_some]
  rw [hJ.struct]
  cases id <;> simp [decodeHeader, hop, hJ.string, List.lookup_cons]

theorem decodeActions_line (hJ : WritesObjects J parse json)
    (hop : cfg.opType = "index" ∨ cfg.opType = "create") (id : Option String) (flagged : Bool)
    (fields : Schema) (cells : List (SparkValue F)) (rest : List Char) :
    decodeActions parse (physicalLines []
        ((actionText J cfg id flagged (J.toJson (.struct fields) (.struct cells))).toList ++
          '\n' :: rest)) =
      (decodeActions parse (physicalLines [] rest)).map
        (⟨if flagged then "delete" else cfg.opType, cfg.index, id,
          if flagged then none else
            some (List.zipWith (fun f v => (f.1, json f.2 v)) fields cells)⟩ :: ·) := by
  cases flagged with
  | true =>
    obtain ⟨hline, hheader⟩ := hJ.header cfg "delete" (by decide) id
    obtain ⟨j, hj, hdecoded⟩ := Option.bind_eq_some_iff.mp hheader
    rw [actionText, if_pos rfl, physicalLines_line hline, List.nil_append, String.ofList_toList,
      decodeActions, hj]
    simp only [Option.bind_eq_bind, Option.bind_some, hdecoded, if_true]
    cases decodeActions parse (physicalLines [] rest) <;> rfl
  | false =>
    obtain ⟨hline, hheader⟩ := hJ.header cfg cfg.opType (hop.imp_right .inl) id
    obtain ⟨j, hj, hdecoded⟩ := Option.bind_eq_some_iff.mp hheader
    have hnot : cfg.opType ≠ "delete" := by
      rcases hop with hop | hop <;> rw [hop] <;> decide
    have hnewline : ("\n" : String).toList = ['\n'] := rfl
    rw [actionText, if_neg Bool.false_ne_true, String.toList_append, String.toList_append, hnewline,
      List.append_assoc, List.append_assoc, List.singleton_append, physicalLines_line hline,
      physicalLines_line (hJ.newline fields cells), List.nil_append, List.nil_append,
      String.ofList_toList, String.ofList_toList, decodeActions, hj]
    simp only [Option.bind_eq_bind, Option.bind_some, hdecoded, if_neg hnot, hJ.parses, hJ.struct]
    cases decodeActions parse (physicalLines [] rest) <;> rfl

/-- The value of a row under a name. -/
def valueOf (schema : Schema) (row : Row F) (name : String) : SparkValue F :=
  row.getD (schema.findIdx fun f => f.1 = name) .null

section Intended

variable [PyFloat F]

/-- A row that is marked for deletion: a null flag is no mark. -/
def Flagged (cfg : EsWriteConfig) (schema : Schema) (row : Row F) : Prop :=
  cfg.hasDeletes = true ∧
    ∃ name, cfg.deleteFlagColumn = some name ∧ valueOf schema row name = .boolean true

/-- A row whose id is null, or a float that is not finite. -/
def MissesId (cfg : EsWriteConfig) (schema : Schema) (row : Row F) : Prop :=
  ∃ name, cfg.idColumnName = some name ∧
    (valueOf schema row name = .null ∨ ∃ x, valueOf schema row name = .floating x ∧ nonFinite x = true)

/-- The action that a row asks for. -/
structure Intended (J : SparkFunctions F) (cfg : EsWriteConfig) (schema : Schema) (row : Row F)
    (action : BulkAction F) : Prop where
  index : action.index = cfg.index
  noId : cfg.idColumnName = none → action.id = none
  id : ∀ name dt, cfg.idColumnName = some name → columnType schema name = some dt →
    action.id = some (J.castString dt (valueOf schema row name))
  delete : Flagged cfg schema row → action.op = "delete" ∧ action.source = none
  write : ¬Flagged cfg schema row → action.op = cfg.opType ∧ ∃ items, action.source = some items ∧
    items.map Prod.fst = payloadColumns (schema.map Prod.fst) (droppedColumns cfg)

/-- The body of a request has one action for each row, in the order of the rows, and a row has no line
just where its id is missing. -/
structure DecodesAsIntended (J : SparkFunctions F) (parse : String → Option (Json F))
    (cfg : EsWriteConfig) (schema : Schema) (line : Column F) : Prop where
  noLine : ∀ row, CellsTyped OfType schema row →
    (lineOf line row = none ↔ MissesId cfg schema row)
  body : ∀ rows lines, (∀ row ∈ rows, CellsTyped OfType schema row) →
    rows.mapM (lineOf line) = some lines → ∃ actions,
      decodeBody parse (requestBody lines) = some actions ∧
        List.Forall₂ (Intended J cfg schema) rows actions

variable {schema : Schema} {line : Column F}

omit [PyFloat F] in
theorem columnType_findIdx {name : String} {dt : SparkType} (h : columnType schema name = some dt) :
    schema[schema.findIdx fun f => f.1 = name]? = some (name, dt) := by
  obtain ⟨⟨_, _⟩, hf, rfl⟩ := Option.map_eq_some_iff.mp h
  have hname := List.find?_some hf
  rw [← List.find?_eq_getElem?_findIdx, hf]
  exact congrArg some (Prod.ext (by simpa using hname) rfl)

omit [PyFloat F] in
theorem columnType_of_mem {name : String} (h : name ∈ schema.map Prod.fst) :
    ∃ dt, columnType schema name = some dt := by
  obtain ⟨f, hf, hname⟩ := List.mem_map.mp h
  cases hfound : columnType schema name with
  | some dt => exact ⟨dt, rfl⟩
  | none =>
    have hnone := List.find?_eq_none.mp (Option.map_eq_none_iff.mp hfound) f hf
    exact absurd hname (by simpa using hnone)

omit [PyFloat F] in
theorem col_of_present {name : String} {dt : SparkType} (hname : Unmarked name)
    (hdt : columnType schema name = some dt) {c : Column F}
    (hc : Column.col r schema name = .ok c) :
    c = .cellAt (name, dt) (schema.findIdx fun f => f.1 = name) ∧
      r.candidates schema name = [((name, dt), schema.findIdx fun f => f.1 = name)] := by
  obtain ⟨f, i, -, -, -, hfound, -⟩ := col_reads hc
  obtain ⟨rfl, hone⟩ := hfound hname
  have hself := mem_candidates.mpr ⟨columnType_findIdx hdt, r.refl name⟩
  rw [hone, List.mem_singleton] at hself
  rw [hone, ← hself]
  cases hself
  exact ⟨rfl, rfl⟩

/-- The keys of `_source` are the names of the payload. -/
theorem sourceExprs_names {names : List String} {cols : List (String × Column F)}
    (h : names.mapM (sourceExpr r schema) = .ok cols) : cols.map Prod.fst = names := by
  induction names generalizing cols with
  | nil =>
    cases h
    rfl
  | cons name names ih =>
    rw [List.mapM_cons] at h
    obtain ⟨e, he, h⟩ := bind_ok h
    obtain ⟨rest, hrest, h⟩ := bind_ok h
    cases h
    obtain ⟨c, -, hname, -⟩ := sourceExpr_follows he
    rw [List.map_cons, ih hrest, hname]

/-- What a line is read as, in terms of the columns that it was put together from. -/
theorem lineText_decodes (hJ : WritesObjects J parse json)
    (hop : cfg.opType = "index" ∨ cfg.opType = "create") {a : ActionColumns F}
    (ha : a.Of J cfg r schema) {row : Row F} {text : String} (h : a.lineText J cfg row = some text) :
    ∃ (cols : List (String × Column F)) (action : BulkAction F),
      (payloadColumns (schema.map Prod.fst) (droppedColumns cfg)).mapM (sourceExpr r schema) = .ok cols ∧
      action.index = cfg.index ∧
      action.id = a.id.map (fun c => J.castString c.dataType (c.eval row)) ∧
      (a.flagged row = true → action.op = "delete" ∧ action.source = none) ∧
      (a.flagged row = false → action.op = cfg.opType ∧
        action.source = some (cols.map fun c => (c.1, json c.2.dataType (c.2.eval row)))) ∧
      ∀ rest, decodeActions parse (physicalLines [] (text.toList ++ '\n' :: rest)) =
        (decodeActions parse (physicalLines [] rest)).map (action :: ·) := by
  obtain ⟨cols, hcols, hsource⟩ := sourceStruct_ok ha.source
  have htext : text = actionText J cfg (a.id.map fun c => J.castString c.dataType (c.eval row))
      (a.flagged row) (J.toJson (.struct (cols.map fun c => (c.1, c.2.dataType)))
        (.struct (cols.map fun c => c.2.eval row))) := by
    rw [ActionColumns.lineText, hsource] at h
    cases hid : a.id with
    | none =>
      rw [hid] at h
      exact (Option.some.inj h).symm
    | some c =>
      rw [hid] at h
      dsimp only at h
      split at h
      · cases h
      · exact (Option.some.inj h).symm
  refine ⟨cols, _, hcols, rfl, rfl, ?_, ?_, fun rest =>
    htext ▸ decodeActions_line hJ hop _ (a.flagged row) _ _ rest⟩
  · intro hflag
    simp only [hflag, if_true, and_self]
  · intro hflag
    refine ⟨if_neg (by simp [hflag]), (if_neg (by simp [hflag])).trans ?_⟩
    rw [List.zipWith_map, List.zipWith_self]

theorem idLeaf_of_present {dt : SparkType} {v : SparkValue F} (hv : (idLeaf dt v).isNull = false) :
    idLeaf dt v = v := by
  cases dt with
  | atomic t =>
    rw [idLeaf, nonfiniteLeaf] at hv ⊢
    split
    · rename_i ht
      rw [if_pos ht] at hv
      cases v with
      | floating x =>
        rw [SparkValue.finiteOrNull] at hv ⊢
        split
        · rename_i hx
          rw [if_pos hx] at hv
          cases hv
        · rfl
      | _ => rfl
    · rfl
  | _ => rfl

theorem idLeaf_isNull {dt : SparkType} {v : SparkValue F} (hv : Typed OfType dt v) :
    (idLeaf dt v).isNull = true ↔ v = .null ∨ ∃ x, v = .floating x ∧ nonFinite x = true := by
  cases v with
  | null =>
    refine iff_of_true ?_ (.inl rfl)
    cases dt with
    | atomic t =>
      rw [idLeaf, nonfiniteLeaf]
      split <;> rfl
    | _ => rfl
  | floating x =>
    cases dt with
    | atomic t =>
      have ht : isFloat t = true := by
        rcases hv with hv | hv
        · cases hv
        · cases t <;> first | rfl | cases hv
      rw [idLeaf, nonfiniteLeaf, if_pos ht, SparkValue.finiteOrNull]
      cases hx : nonFinite x <;> simp [SparkValue.isNull, hx]
    | array element =>
      rcases hv with hv | ⟨_, hv, -⟩ <;> cases hv
    | map key value =>
      rcases hv with hv | ⟨_, hv, -⟩ <;> cases hv
    | struct fields =>
      rcases hv with hv | ⟨_, hv, -⟩ <;> cases hv
  | _ =>
    refine iff_of_false ?_ (by simp)
    cases dt with
    | atomic t =>
      rw [idLeaf, nonfiniteLeaf]
      split <;> simp [SparkValue.finiteOrNull, SparkValue.isNull]
    | _ => simp [idLeaf, SparkValue.isNull]

theorem idColumn_of_unmarked {a : ActionColumns F} (ha : a.Of J cfg r schema) {name : String}
    {dt : SparkType} (hid : cfg.idColumnName = some name) (hname : Unmarked name)
    (hdt : columnType schema name = some dt) :
    ∃ c, a.id = some c ∧ c.dataType = dt ∧
      ∀ row, c.eval row = idLeaf dt (valueOf schema row name) := by
  obtain ⟨c, hc, hsome⟩ := ha.id name hid
  obtain ⟨d, hd, -⟩ := idColumn_follows hc
  obtain ⟨rfl, hone⟩ := col_of_present hname hdt hd
  obtain ⟨htype, heval⟩ := idColumn_value hone hd hc
  exact ⟨c, hsome, htype, heval⟩

omit [PyFloat F] in
theorem isTrue_iff {v : SparkValue F} : v.isTrue = true ↔ v = .boolean true := by
  cases v <;> simp [SparkValue.isTrue]

theorem flagged_of_unmarked {a : ActionColumns F} (ha : a.Of J cfg r schema) {name : String}
    (hdeletes : cfg.hasDeletes = true) (hflag : cfg.deleteFlagColumn = some name)
    (hname : Unmarked name) (hdt : columnType schema name = some (.atomic .boolean)) (row : Row F) :
    a.flagged row = true ↔ valueOf schema row name = .boolean true := by
  obtain ⟨c, d, hc, hd, hsome⟩ := ha.flag hdeletes
  rw [hflag] at hc
  obtain ⟨rfl, -⟩ := col_of_present hname hdt hc
  have hbool : (Column.cellAt (name, .atomic .boolean)
      (schema.findIdx fun f => f.1 = name) : Column F).dataType = .atomic .boolean := rfl
  rw [Column.equalsTrue, if_pos hbool] at hd
  cases hd
  rw [ActionColumns.flagged, hsome, Option.any_some]
  exact isTrue_iff

/-- The names that decide about the lines of a body have no marks. -/
def LinesUnmarked (cfg : EsWriteConfig) : Prop :=
  (∀ name, cfg.idColumnName = some name → Unmarked name) ∧
    (cfg.hasDeletes = true → ∀ name, cfg.deleteFlagColumn = some name → Unmarked name)

theorem flagged_iff {a : ActionColumns F} (ha : a.Of J cfg r schema) (hpre : Preflighted cfg schema)
    (hunmarked : LinesUnmarked cfg) (row : Row F) :
    a.flagged row = true ↔ Flagged cfg schema row := by
  cases hdeletes : cfg.hasDeletes with
  | false =>
    rw [ActionColumns.flagged, ha.noFlag hdeletes]
    apply iff_of_false (by simp)
    intro h
    rw [Flagged, hdeletes] at h
    exact Bool.false_ne_true h.1
  | true =>
    obtain ⟨name, hname, hdt⟩ := hpre.flag hdeletes
    rw [flagged_of_unmarked ha hdeletes hname (hunmarked.2 hdeletes name hname) hdt]
    constructor
    · exact fun h => ⟨hdeletes, name, hname, h⟩
    · rintro ⟨-, name', hname', h⟩
      cases hname.symm.trans hname'
      exact h

theorem lineText_none_iff {a : ActionColumns F} (ha : a.Of J cfg r schema)
    (hpre : Preflighted cfg schema) (hunmarked : LinesUnmarked cfg) {row : Row F}
    (hrow : CellsTyped OfType schema row) :
    a.lineText J cfg row = none ↔ MissesId cfg schema row := by
  cases hid : cfg.idColumnName with
  | none =>
    rw [ActionColumns.lineText, ha.noId hid]
    apply iff_of_false (by simp)
    rintro ⟨name, hname, -⟩
    rw [hid] at hname
    cases hname
  | some name =>
    obtain ⟨dt, hdt⟩ := columnType_of_mem (hpre.id name (idField_of_idColumnName hid))
    obtain ⟨c, hsome, -, heval⟩ := idColumn_of_unmarked ha hid (hunmarked.1 name hid) hdt
    have hmisses : MissesId cfg schema row ↔ (c.eval row).isNull = true := by
      have hv : Typed OfType dt (valueOf schema row name) := hrow.getD (columnType_findIdx hdt)
      rw [heval, idLeaf_isNull hv]
      constructor
      · rintro ⟨name', hname', h⟩
        cases hid.symm.trans hname'
        exact h
      · exact fun h => ⟨name, hid, h⟩
    rw [hmisses, ActionColumns.lineText, hsome]
    dsimp only
    split <;> simp_all

/-- A line is read as the action that its row asks for. -/
theorem lineText_intended (hJ : WritesObjects J parse json)
    (hop : cfg.opType = "index" ∨ cfg.opType = "create") {a : ActionColumns F}
    (ha : a.Of J cfg r schema) (hpre : Preflighted cfg schema) (hunmarked : LinesUnmarked cfg)
    {row : Row F} {text : String} (h : a.lineText J cfg row = some text) :
    ∃ action, Intended J cfg schema row action ∧
      ∀ rest, decodeActions parse (physicalLines [] (text.toList ++ '\n' :: rest)) =
        (decodeActions parse (physicalLines [] rest)).map (action :: ·) := by
  obtain ⟨cols, action, hcols, hindex, hid, hdelete, hwrite, hdecode⟩ := lineText_decodes hJ hop ha h
  have hflag := flagged_iff ha hpre hunmarked row
  refine ⟨action, ⟨hindex, ?_, ?_,
    fun hf => hdelete (hflag.mpr hf), ?_⟩, hdecode⟩
  · intro hnone
    rw [hid, ha.noId hnone]
    rfl
  · intro name dt hname hdt
    obtain ⟨c, hsome, htype, heval⟩ := idColumn_of_unmarked ha hname (hunmarked.1 name hname) hdt
    have hpresent : (c.eval row).isNull = false := by
      rw [ActionColumns.lineText, hsome] at h
      dsimp only at h
      split at h
      · cases h
      · simpa using ‹¬(c.eval row).isNull = true›
    rw [hid, hsome, Option.map_some, htype, heval, idLeaf_of_present (heval row ▸ hpresent)]
  · intro hf
    cases hcase : a.flagged row with
    | false =>
      obtain ⟨hop, hsource⟩ := hwrite hcase
      refine ⟨hop, _, hsource, ?_⟩
      rw [← sourceExprs_names hcols, List.map_map]
      rfl
    | true => exact absurd (hflag.mp hcase) hf

theorem decodes_of_unmarked (hJ : WritesObjects J parse json)
    (hop : cfg.opType = "index" ∨ cfg.opType = "create")
    (hok : buildNdjson J r cfg schema = .ok line) (hpre : Preflighted cfg schema)
    (hunmarked : LinesUnmarked cfg) : DecodesAsIntended J parse cfg schema line := by
  obtain ⟨a, ha, hlines⟩ := buildNdjson_lines hok
  refine ⟨fun row hrow => by rw [hlines]; exact lineText_none_iff ha hpre hunmarked hrow, ?_⟩
  intro rows lines htyped hrows
  clear htyped
  induction rows generalizing lines with
  | nil =>
    cases hrows
    exact ⟨[], rfl, .nil⟩
  | cons row rows ih =>
    rw [List.mapM_cons] at hrows
    obtain ⟨text, htext, hrows⟩ := Option.bind_eq_some_iff.mp hrows
    obtain ⟨rest, hrest, hrows⟩ := Option.bind_eq_some_iff.mp hrows
    cases hrows
    rw [hlines] at htext
    obtain ⟨action, hintended, hdecode⟩ := lineText_intended hJ hop ha hpre hunmarked htext
    obtain ⟨actions, hactions, hall⟩ := ih rest hrest
    refine ⟨action :: actions, ?_, .cons hintended hall⟩
    rw [decodeBody] at hactions ⊢
    rw [requestBody, List.flatMap_cons, List.append_assoc, List.singleton_append, hdecode]
    exact congrArg (Option.map (action :: ·)) hactions

theorem sample_present {x : F} (hx : nonFinite x = false) (dt : SparkType) :
    ¬(dt.sample x = .null ∨ ∃ y, dt.sample x = .floating y ∧ nonFinite y = true) := by
  rintro (hnull | ⟨y, hy, hbad⟩)
  · cases dt with
    | atomic t => cases t <;> cases hnull
    | _ => cases hnull
  · have hxy : x = y := by
      cases dt with
      | atomic t => cases t <;> cases hy <;> rfl
      | _ => cases hy
    rw [← hxy, hx] at hbad
    cases hbad

omit [PyFloat F] in
theorem CellsTyped.set {P : AtomicType → SparkValue F → Prop} {row : Row F}
    (h : CellsTyped P schema row) {k : Nat} {f : String × SparkType} (hk : schema[k]? = some f)
    {v : SparkValue F} (hv : Typed P f.2 v) : CellsTyped P schema (row.set k v) := by
  induction schema generalizing row k with
  | nil => cases hk
  | cons g schema ih =>
    obtain ⟨w, rest, rfl, hw, hrest⟩ := h
    cases k with
    | zero =>
      cases hk
      exact ⟨v, rest, rfl, hv, hrest⟩
    | succ k => exact ⟨w, _, rfl, hw, ih hrest hk⟩

/-- The row with another value under a name. -/
def setValue (schema : Schema) (row : Row F) (name : String) (v : SparkValue F) : Row F :=
  row.set (schema.findIdx fun f => f.1 = name) v

omit [PyFloat F] in
theorem setValue_typed {P : AtomicType → SparkValue F → Prop} {name : String} {dt : SparkType}
    (hdt : columnType schema name = some dt) {row : Row F} (hrow : CellsTyped P schema row)
    {v : SparkValue F} (hv : Typed P dt v) : CellsTyped P schema (setValue schema row name v) :=
  hrow.set (columnType_findIdx hdt) hv

omit [PyFloat F] in
theorem setValue_other {name : String} {dt : SparkType} (hdt : columnType schema name = some dt)
    {i : Nat} {f : String × SparkType} (hi : schema[i]? = some f) (hne : f.1 ≠ name) (row : Row F)
    (v : SparkValue F) : (setValue schema row name v).getD i .null = row.getD i .null := by
  have hother : (schema.findIdx fun f => f.1 = name) ≠ i := by
    intro rfl
    cases hi.symm.trans (columnType_findIdx hdt)
    exact hne rfl
  rw [setValue, List.getD_eq_getElem?_getD, List.getElem?_set_ne hother,
    ← List.getD_eq_getElem?_getD]

omit [PyFloat F] in
theorem valueOf_setValue {name : String} {dt : SparkType} (hdt : columnType schema name = some dt)
    {row : Row F} (hlength : row.length = schema.length) (v : SparkValue F) :
    valueOf schema (setValue schema row name v) name = v := by
  have hlt := (List.getElem?_eq_some_iff.mp (columnType_findIdx hdt)).1
  simp [valueOf, setValue, List.getD_eq_getElem?_getD, hlength, hlt]

theorem noLine_unmarked {x : F} (hx : nonFinite x = false) {a : ActionColumns F}
    (ha : a.Of J cfg r schema) {name : String} (hid : cfg.idColumnName = some name)
    (hmem : name ∈ schema.map Prod.fst)
    (h : ∀ row, CellsTyped OfType schema row → a.lineText J cfg row = none →
      MissesId cfg schema row) : Unmarked name := by
  by_contra hname
  obtain ⟨dt, hdt⟩ := columnType_of_mem hmem
  have hi := columnType_findIdx hdt
  obtain ⟨c, hc, hsome⟩ := ha.id name hid
  obtain ⟨d, hd, hfollows⟩ := idColumn_follows hc
  obtain ⟨f, j, hj, hreads, -, -, hshorter⟩ := col_reads hd
  -- the only value of the row is in the column that the guard does not look at
  have hnull := (hreads.trans hfollows).null (loneRow schema _ (dt.sample x))
    (loneRow_nullBelow hi _ j f hj (hshorter hname))
  have hmisses := h _ (loneRow_typed hi (sample_typed x dt)) (by
    rw [ActionColumns.lineText, hsome]
    simp only [hnull, SparkValue.isNull, if_true])
  obtain ⟨name', hname', hvalue⟩ := hmisses
  cases hid.symm.trans hname'
  rw [valueOf, loneRow_self (List.getElem?_eq_some_iff.mp hi).1] at hvalue
  exact absurd hvalue (sample_present hx dt)

theorem exists_lined {x : F} (hx : nonFinite x = false) {a : ActionColumns F}
    (ha : a.Of J cfg r schema) (hpre : Preflighted cfg schema)
    (hid : ∀ name, cfg.idColumnName = some name → Unmarked name) {name : String}
    (hname : ¬Unmarked name) {dt : SparkType} (hdt : columnType schema name = some dt) :
    ∃ row, CellsTyped OfType schema row ∧ ∀ v, ∃ text,
      a.lineText J cfg (setValue schema row name v) = some text := by
  cases hidName : cfg.idColumnName with
  | none =>
    refine ⟨_, nulls_typed schema, ?_⟩
    intro v
    rw [ActionColumns.lineText, ha.noId hidName]
    exact ⟨_, rfl⟩
  | some id =>
    obtain ⟨idType, hidType⟩ := columnType_of_mem (hpre.id id (idField_of_idColumnName hidName))
    have hi := columnType_findIdx hidType
    have hne : id ≠ name := fun he => hname (he ▸ hid id hidName)
    obtain ⟨c, hsome, -, heval⟩ := idColumn_of_unmarked ha hidName (hid id hidName) hidType
    refine ⟨_, loneRow_typed hi (sample_typed x idType), ?_⟩
    intro v
    have hleaf : (idLeaf idType (idType.sample x)).isNull = false := by
      rw [← Bool.not_eq_true, idLeaf_isNull (sample_typed x idType)]
      exact sample_present hx idType
    rw [ActionColumns.lineText, hsome]
    simp only [heval, valueOf, setValue_other hdt hi hne,
      loneRow_self (List.getElem?_eq_some_iff.mp hi).1, hleaf]
    exact ⟨_, rfl⟩

theorem flag_unmarked {x : F} (hx : nonFinite x = false) (hJ : WritesObjects J parse json)
    (hop : cfg.opType = "index" ∨ cfg.opType = "create") {a : ActionColumns F}
    (ha : a.Of J cfg r schema) (hpre : Preflighted cfg schema)
    (hid : ∀ name, cfg.idColumnName = some name → Unmarked name) {name : String}
    (hdeletes : cfg.hasDeletes = true) (hflag : cfg.deleteFlagColumn = some name)
    (h : ∀ row text, CellsTyped OfType schema row → a.lineText J cfg row = some text →
      ∃ action, decodeBody parse (requestBody [text]) = some [action] ∧
        Intended J cfg schema row action) : Unmarked name := by
  by_contra hname
  obtain ⟨name', hname', hdt⟩ := hpre.flag hdeletes
  cases hflag.symm.trans hname'
  obtain ⟨row, hrow, hlined⟩ := exists_lined (J := J) hx ha hpre hid hname hdt
  -- the mark is set against what the other column says
  have hvalue := valueOf_setValue hdt hrow.shaped.length_eq (.boolean !a.flagged row)
  obtain ⟨text, htext⟩ := hlined (.boolean !a.flagged row)
  obtain ⟨action, hbody, hintended⟩ :=
    h _ _ (setValue_typed hdt hrow (v := .boolean !a.flagged row) (.inr trivial)) htext
  obtain ⟨_, action', -, -, -, hdelete, hwrite, hdecode⟩ := lineText_decodes hJ hop ha htext
  rw [decodeBody, requestBody, List.flatMap_singleton, hdecode []] at hbody
  cases hbody
  obtain ⟨c, d, hc, hd, hsome⟩ := ha.flag hdeletes
  rw [hflag] at hc
  obtain ⟨f, j, hj, hreads, -, -, hshorter⟩ := col_reads hc
  have hne : f.1 ≠ name := fun he => Nat.lt_irrefl _ (he ▸ hshorter hname)
  have hsame : a.flagged (setValue schema row name (.boolean !a.flagged row)) = a.flagged row := by
    rw [ActionColumns.flagged, ActionColumns.flagged, hsome, Option.any_some, Option.any_some,
      equalsTrue_congr hd (hreads.congr _ _ (setValue_other hdt hj hne row _))]
  have hmark : Flagged cfg schema (setValue schema row name (.boolean !a.flagged row)) ↔
      a.flagged row = false := by
    constructor
    · rintro ⟨-, name', hname', hmark⟩
      cases hflag.symm.trans hname'
      simpa [hvalue] using hmark
    · intro hcase
      exact ⟨hdeletes, name, hflag, by rw [hvalue, hcase, Bool.not_false]⟩
  have hopType : cfg.opType = "delete" := by
    cases hcase : a.flagged row with
    | true =>
      rw [← (hintended.write fun hf => by simp [hmark.mp hf] at hcase).1]
      exact (hdelete (hsame.trans hcase)).1
    | false =>
      rw [← (hwrite (hsame.trans hcase)).1]
      exact (hintended.delete (hmark.mpr hcase)).1
  rcases hop with hop | hop <;> simp [hop] at hopType

/-- A request says what its rows ask for if and only if the names of the id and of the flag are not
read as paths. -/
theorem request_body_iff {x : F} (hx : nonFinite x = false) (hJ : WritesObjects J parse json)
    {indexExists : Bool} (hcfg : cfg.Accepted) (hpre : preflight cfg schema indexExists = .ok ())
    (hok : buildNdjson J r cfg schema = .ok line) :
    DecodesAsIntended J parse cfg schema line ↔ LinesUnmarked cfg := by
  have hpre := preflight_ok hpre
  refine ⟨fun h => ?_, decodes_of_unmarked hJ hcfg.opType hok hpre⟩
  obtain ⟨a, ha, hlines⟩ := buildNdjson_lines hok
  have hid (name : String) (hname : cfg.idColumnName = some name) : Unmarked name :=
    noLine_unmarked hx ha hname (hpre.id name (idField_of_idColumnName hname)) fun row hrow hnone =>
      (h.noLine row hrow).mp ((hlines row).trans hnone)
  refine ⟨hid, fun hdeletes name hflag =>
    flag_unmarked hx hJ hcfg.opType ha hpre hid hdeletes hflag fun row text hrow htext => ?_⟩
  have hlines : [row].mapM (lineOf line) = some [text] := by
    simp [List.mapM_cons, hlines, htext]
  obtain ⟨actions, hbody, hall⟩ := h.body [row] [text] (List.forall_mem_singleton.mpr hrow) hlines
  obtain ⟨action, rest, hintended, hnil, rfl⟩ := List.forall₂_cons_left_iff.mp hall
  cases List.forall₂_nil_left_iff.mp hnil
  exact ⟨action, hbody, hintended⟩

end Intended

section Example

mutual

/-- The JSON of a value made of structs, strings and booleans. -/
def objectJson : SparkType → SparkValue F → Json F
  | .struct fields, .struct cells => .dict (objectItems fields cells)
  | .atomic .string, .string s => .str s
  | .atomic .boolean, .boolean b => .bool b
  | _, _ => .null

def objectItems : Schema → List (SparkValue F) → List (String × Json F)
  | (name, dt) :: fields, v :: cells => (name, objectJson dt v) :: objectItems fields cells
  | _, _ => []

end

theorem objectItems_eq (fields : Schema) (cells : List (SparkValue F)) :
    objectItems fields cells = List.zipWith (fun f v => (f.1, objectJson f.2 v)) fields cells := by
  induction fields generalizing cells with
  | nil => cases cells <;> simp [objectItems]
  | cons f fields ih =>
    cases cells with
    | nil => simp [objectItems]
    | cons v cells => rw [objectItems, List.zipWith_cons_cons, ih]

def objectFunctions (F : Type) [Json.FloatText F] : SparkFunctions F where
  toJson dt v := String.ofList (objectJson dt v).print
  toJsonNoOptions dt v := String.ofList (objectJson dt v).print
  castString _ v := match v with
    | .string s => s
    | _ => ""
  equalsTrue _ := none

theorem writesObjects (F : Type) [Json.FloatText F] :
    WritesObjects (objectFunctions F) parseJson objectJson where
  newline fields cells := by
    rw [objectFunctions, String.toList_ofList]
    exact Json.newline_not_mem_print _
  parses fields cells := by
    simp only [parseJson, objectFunctions, String.toList_ofList, Json.parse_print]
  struct fields cells := by rw [objectJson, objectItems_eq]
  string s := rfl

/-- A flag next to a struct column that has a field of the same path. -/
def memberSchema : Schema :=
  [("key", .atomic .string), ("row", .struct [("gone", .atomic .boolean)]),
    ("row.gone", .atomic .boolean), ("gone", .atomic .boolean)]

def memberConfig (flag : String) : EsWriteConfig :=
  { hosts := "https://es:9200", apiKey := some "key", index := "people", idField := some "key",
    dropFields := ["key", "row", "row.gone", "gone"], hasDeletes := true,
    deleteFlagColumn := some flag }

theorem request_body_members :
    ∃ line, buildNdjson (objectFunctions FewFloats) .caseSensitive (memberConfig "gone") memberSchema =
        .ok line ∧
      DecodesAsIntended (objectFunctions FewFloats) parseJson (memberConfig "gone") memberSchema line :=
  ⟨_, rfl, (request_body_iff (r := .caseSensitive) (x := FewFloats.half) rfl
    (writesObjects FewFloats) (by decide)
    (rfl : preflight (memberConfig "gone") memberSchema true = .ok ()) rfl).mpr
      ⟨by decide, by decide⟩⟩

def memberRow : Row FewFloats :=
  [.string "ann", .struct [.boolean false], .boolean true, .boolean true]

/-- A row that is marked for deletion is indexed. -/
theorem flagged_row_indexed :
    (memberConfig "row.gone").Accepted ∧
      preflight (memberConfig "row.gone") memberSchema true = .ok () ∧
      Flagged (memberConfig "row.gone") memberSchema memberRow ∧
      (rowLine (objectFunctions FewFloats) .caseSensitive (memberConfig "row.gone") memberSchema
          memberRow).map (fun line => (decodeBody (F := FewFloats) parseJson
            (requestBody [line])).map (List.map fun action => (action.op, action.id))) =
        some (some [("index", some "ann")]) :=
  ⟨by decide, by decide, ⟨rfl, _, rfl, rfl⟩, by decide +kernel⟩

end Example

end EsConnector
