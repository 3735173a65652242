import EsConnector.FilledRows
import EsConnector.RequestBody

namespace EsConnector
set_option autoImplicit true

variable {F : Type} [PyFloat F] {r : Resolver} {J : SparkFunctions F}
  {parse : String → Option (Json F)} {json : SparkType → SparkValue F → Json F}
  {cfg : EsWriteConfig} {schema : Schema}

/-- The `_id` of the action that a line is read as. -/
def lineId (parse : String → Option (Json F)) (text : String) : Option String :=
  match decodeBody parse (requestBody [text]) with
  | some [action] => action.id
  | _ => none

theorem lineId_lineText (hJ : WritesObjects J parse json)
    (hop : cfg.opType = "index" ∨ cfg.opType = "create") {a : ActionColumns F}
    (ha : a.Of J cfg r schema) {row : Row F} {text : String} (h : a.lineText J cfg row = some text) :
    lineId parse text = a.id.map fun c => J.castString c.dataType (c.eval row) := by
  obtain ⟨_, action, -, -, hid, -, -, hdecode⟩ := lineText_decodes hJ hop ha h
  rw [lineId, decodeBody, requestBody, List.flatMap_singleton, hdecode []]
  exact hid

omit [PyFloat F] in
theorem count_of_candidates {part name : String} {f : (String × SparkType) × Nat}
    (hone : r.candidates schema part = [f]) (hname : r.same name part = true) :
    (schema.map Prod.fst).count name ≤ 1 := by
  have hnames : schema.map Prod.fst = schema.zipIdx.map fun f => f.1.1 := by
    conv_lhs => rw [← List.zipIdx_map_fst 0 schema, List.map_map]
    rfl
  rw [hnames, List.count, List.countP_map]
  refine Nat.le_trans (List.countP_mono_left fun g _ hg => ?_)
    (Nat.le_of_eq ((List.countP_eq_length_filter ..).trans (congrArg List.length hone)))
  obtain rfl : g.1.1 = name := by simpa using hg
  exact hname

/-- A frame that the lines of `bulk_write` are built from. -/
structure Shipped (J : SparkFunctions F) (r : Resolver) (cfg : EsWriteConfig) (schema : Schema)
    (φ : Row F → Row F) (out : Schema) (a : ActionColumns F) (line : Column F) : Prop where
  traces : Traces schema out φ
  rows : ∀ rows : List (Row F), preparedFrame J r ⟨schema, rows⟩ = .ok ⟨out, rows.map φ⟩
  cells : ∀ (i : Nat) (n : String) (dt : SparkType), schema[i]? = some (n, dt) → Unmarked n →
    (schema.map Prod.fst).count n ≤ 1 → out[i]? = some (n, preparedType schema (n, dt)) ∧
      ∀ row, row.length = schema.length → Shaped dt (row.getD i .null) →
        (φ row).getD i .null = preparedValue J schema (n, dt) (row.getD i .null)
  built : buildNdjson J r cfg out = .ok line
  columns : a.Of J cfg r out
  lines : ∀ row, lineOf line row = a.lineText J cfg row

theorem shipped_of_ok {rows : List (Row F)} {out : DataFrame F} {line : Column F}
    (hok : preparedFrame J r ⟨schema, rows⟩ = .ok out)
    (hline : buildNdjson J r cfg out.schema = .ok line) :
    ∃ φ a, Shipped J r cfg schema φ out.schema a line := by
  obtain ⟨φ, hφ, hrows, hcells⟩ := preparedFrame_traces hok
  obtain ⟨a, ha, hlines⟩ := buildNdjson_lines hline
  exact ⟨φ, a, hφ, hrows, hcells, hline, ha, hlines⟩

variable {φ : Row F → Row F} {out : Schema} {a : ActionColumns F} {line : Column F} {name : String}
  {dt : SparkType}

theorem Shipped.cell_of_unmarked (h : Shipped J r cfg schema φ out a line) {k : Nat}
    {f : String × SparkType} (hk : schema[k]? = some f) (hf : Unmarked f.1) {c : Column F}
    (hc : Column.col r out f.1 = .ok c) :
    r.candidates out f.1 = [((f.1, preparedType schema f), k)] ∧
      c = .cellAt (f.1, preparedType schema f) k ∧ ∀ row, CellsShaped schema row →
        (φ row).getD k .null = preparedValue J schema f (row.getD k .null) := by
  obtain ⟨g, j, -, -, -, hfound, -⟩ := col_reads hc
  obtain ⟨rfl, hone⟩ := hfound hf
  have hcount := count_of_candidates hone (r.refl f.1)
  rw [h.traces.count_eq hf] at hcount
  obtain ⟨hfield, hvalue⟩ := h.cells k f.1 f.2 hk hf hcount
  have hself := mem_candidates.mpr ⟨hfield, r.refl f.1⟩
  rw [hone, List.mem_singleton] at hself
  cases hself
  exact ⟨hone, rfl, fun row hrow => hvalue row hrow.length_eq (hrow.getD hk)⟩

/-- The id of a row, where its column is found under its name. -/
theorem Shipped.id_of_unmarked (h : Shipped J r cfg schema φ out a line)
    (hid : cfg.idColumnName = some name) (hname : Unmarked name)
    (hdt : columnType schema name = some dt) :
    ∃ c, a.id = some c ∧ c.dataType = preparedType schema (name, dt) ∧
      ∀ row, CellsShaped schema row → c.eval (φ row) = idLeaf (preparedType schema (name, dt))
        (preparedValue J schema (name, dt) (valueOf schema row name)) := by
  obtain ⟨c, hc, hsome⟩ := h.columns.id name hid
  obtain ⟨d, hd, -⟩ := idColumn_follows hc
  obtain ⟨hone, rfl, hvalue⟩ := h.cell_of_unmarked (columnType_findIdx hdt) hname hd
  obtain ⟨htype, heval⟩ := idColumn_value hone hd hc
  exact ⟨c, hsome, htype, fun row hrow => (heval _).trans (congrArg _ (hvalue row hrow))⟩

theorem Shipped.id_of_marked {x : F} (hx : nonFinite x = false)
    (h : Shipped J r cfg schema φ out a line) (hid : cfg.idColumnName = some name)
    (hname : ¬Unmarked name) (hdt : columnType schema name = some dt) :
    ∃ c, a.id = some c ∧ ∃ row, CellsTyped OfType schema row ∧ ∀ v,
      (c.eval (φ (setValue schema row name v))).isNull = false ∧
        ∀ w, c.eval (φ (setValue schema row name v)) = c.eval (φ (setValue schema row name w)) := by
  obtain ⟨c, hc, hsome⟩ := h.columns.id name hid
  obtain ⟨d, hd, hfollows⟩ := idColumn_follows hc
  obtain ⟨f, j, hj, hreads, -, -, hshorter⟩ := col_reads hd
  obtain ⟨base, htyped, hfilled⟩ := exists_filled hx (pathKeys schema) schema
  have hlength := htyped.shaped.length_eq
  have hsame (v : SparkValue F) : c.eval (φ (setValue schema base name v)) = c.eval (φ base) := by
    have hset : (setValue schema base name v).length = schema.length :=
      List.length_set.trans hlength
    apply (hreads.trans hfollows).congr
    refine h.traces.agree name.length _ _ hset hlength (fun i g hi hlt => ?_) j f hj
      (hshorter hname)
    exact setValue_other hdt hi (fun he => Nat.lt_irrefl _ (he ▸ hlt)) base v
  have hpresent : (c.eval (φ base)).isNull = false := by
    obtain ⟨stored, hstored, hfilled⟩ := preparedFrame_filled (h.rows [base]) hfilled
    cases hstored
    exact idColumn_filled hc (pathKeys_subset (columnType_mem hdt)).1 hfilled
  exact ⟨c, hsome, base, htyped, fun v => ⟨hsame v ▸ hpresent, fun w => (hsame v).trans (hsame w).symm⟩⟩

theorem Shipped.lineOf_row (h : Shipped J r cfg schema φ out a line) {c : Column F}
    (hc : a.id = some c) {row : Row F} (hrow : (c.eval (φ row)).isNull = false) :
    ∃ text, lineOf line (φ row) = some text := by
  rw [h.lines, ActionColumns.lineText, hc]
  dsimp only
  rw [if_neg (by simp [hrow])]
  exact ⟨_, rfl⟩

theorem Shipped.lineId_row (h : Shipped J r cfg schema φ out a line)
    (hJ : WritesObjects J parse json) (hop : cfg.opType = "index" ∨ cfg.opType = "create")
    {c : Column F} (hc : a.id = some c) {row : Row F} {text : String}
    (htext : lineOf line (φ row) = some text) :
    lineId parse text = some (J.castString c.dataType (c.eval (φ row))) := by
  rw [lineId_lineText hJ hop h.columns ((h.lines _).symm.trans htext), hc, Option.map_some]

/-- The types of ids that are compared by their text. -/
def idType : AtomicType → Bool
  | .string | .boolean | .tinyint | .smallint | .int | .bigint | .decimal _ _ => true
  | .date | .timestamp | .timestampNtz => true
  | _ => false

/-- No two rows with different ids get the same `_id`. -/
def OnlyEqualIdsCollapse (J : SparkFunctions F) (parse : String → Option (Json F)) (r : Resolver)
    (cfg : EsWriteConfig) (schema : Schema) (name : String) : Prop :=
  ∀ (rows : List (Row F)) out line, (∀ row ∈ rows, CellsTyped OfType schema row) →
    preparedFrame J r ⟨schema, rows⟩ = .ok out → buildNdjson J r cfg out.schema = .ok line →
    ∀ (i j : Nat) row row' text text', rows[i]? = some row → rows[j]? = some row' →
      out.rows[i]?.bind (lineOf line) = some text → out.rows[j]?.bind (lineOf line) = some text' →
      lineId parse text = lineId parse text' → valueOf schema row name = valueOf schema row' name

/-- `cast(... as string)` tells the values of the types of ids apart. -/
def CastsApart (J : SparkFunctions F) : Prop :=
  ∀ t, idType t = true → ∀ v w, OfType t v → OfType t w →
    J.castString (.atomic t) v = J.castString (.atomic t) w → v = w

variable {t : AtomicType}

omit [PyFloat F] in
theorem not_sanitized_idType (ht : idType t = true) : ¬Sanitized schema (name, .atomic t) := by
  intro h
  have hhostile := h.hostile
  have hnamed : ∀ other, t ≠ .other other := by
    intro _ rfl
    cases ht
  rw [SparkType.simpleString, not_hostile_of_named hnamed] at hhostile
  cases hhostile

/-- An id that is not a timestamp is what its column holds. -/
theorem preparedId_of_idType (J : SparkFunctions F) (schema : Schema) (name : String)
    (ht : idType t = true) (hstamp : t ≠ .timestamp) (v : SparkValue F) :
    preparedType schema (name, .atomic t) = .atomic t ∧
      idLeaf (.atomic t) (preparedValue J schema (name, .atomic t) v) = v := by
  have hnot : ¬Sanitized schema (name, .atomic t) := not_sanitized_idType ht
  have hleaf : isTimestamp t = false := by simpa [isTimestamp] using hstamp
  have hfloat : isFloat t = false := by cases t <;> first | rfl | cases ht
  rw [preparedType, if_neg hnot, preparedValue, if_neg hnot]
  simp [mapTypes, mapLeaves, longWhere, timestampLeaf, idLeaf, nonfiniteLeaf, hleaf, hfloat]

omit [PyFloat F] in
theorem idType_values (ht : idType t = true) :
    ∃ v w : SparkValue F, OfType t v ∧ OfType t w ∧ v ≠ w := by
  cases t with
  | boolean => exact ⟨.boolean true, .boolean false, trivial, trivial, by simp⟩
  | tinyint => exact ⟨.integral 0, .integral 1, trivial, trivial, by simp⟩
  | smallint => exact ⟨.integral 0, .integral 1, trivial, trivial, by simp⟩
  | int => exact ⟨.integral 0, .integral 1, trivial, trivial, by simp⟩
  | bigint => exact ⟨.integral 0, .integral 1, trivial, trivial, by simp⟩
  | decimal precision scale => exact ⟨.decimal 0 scale, .decimal 1 scale, rfl, rfl, by simp⟩
  | string => exact ⟨.string "", .string "0", trivial, trivial, by simp⟩
  | date => exact ⟨.date 0, .date 1, trivial, trivial, by simp⟩
  | timestamp => exact ⟨.timestamp 0, .timestamp 1, trivial, trivial, by simp⟩
  | timestampNtz => exact ⟨.timestampNtz 0, .timestampNtz 1, trivial, trivial, by simp⟩
  | _ => cases ht

theorem Shipped.same_value (h : Shipped J r cfg schema φ out a line)
    (hJ : WritesObjects J parse json) (hop : cfg.opType = "index" ∨ cfg.opType = "create")
    (hapart : OnlyEqualIdsCollapse J parse r cfg schema name) {c : Column F} (hc : a.id = some c)
    {row row' : Row F} (hrow : CellsTyped OfType schema row) (hrow' : CellsTyped OfType schema row')
    (hpresent : (c.eval (φ row)).isNull = false) (hsame : c.eval (φ row) = c.eval (φ row')) :
    valueOf schema row name = valueOf schema row' name := by
  obtain ⟨text, htext⟩ := h.lineOf_row hc hpresent
  obtain ⟨text', htext'⟩ := h.lineOf_row hc (hsame ▸ hpresent)
  refine hapart [row, row'] _ line ?_ (h.rows _) h.built 0 1 row row' text text' rfl rfl htext htext' ?_
  · simp [hrow, hrow']
  · rw [h.lineId_row hJ hop hc htext, h.lineId_row hJ hop hc htext', hsame]

/-- Only equal ids collapse if and only if the id is found under its name and is no timestamp. -/
theorem ids_collapse_iff {x : F} (hx : nonFinite x = false) (hJ : WritesObjects J parse json)
    (hapart : CastsApart J) {rows : List (Row F)} {out : DataFrame F} (hcfg : cfg.Accepted)
    (hid : cfg.idColumnName = some name) (hdt : columnType schema name = some (.atomic t))
    (ht : idType t = true)
    (hok : preparedFrame J r ⟨schema, rows⟩ = .ok out)
    (hline : buildNdjson J r cfg out.schema = .ok line) :
    OnlyEqualIdsCollapse J parse r cfg schema name ↔ Unmarked name ∧ t ≠ .timestamp := by
  obtain ⟨φ, a, hship⟩ := shipped_of_ok hok hline
  have hk := columnType_findIdx hdt
  constructor
  · intro h
    have hname : Unmarked name := by
      by_contra hname
      obtain ⟨v, w, hv, hw, hne⟩ := idType_values (F := F) ht
      obtain ⟨c, hc, row, hrow, hsame⟩ := hship.id_of_marked hx hid hname hdt
      obtain ⟨hpresent, hids⟩ := hsame v
      have hvalue := hship.same_value hJ hcfg.opType h hc (setValue_typed hdt hrow (v := v) (.inr hv))
        (setValue_typed hdt hrow (v := w) (.inr hw)) hpresent (hids w)
      have hlength := hrow.shaped.length_eq
      exact hne ((valueOf_setValue hdt hlength v).symm.trans
        (hvalue.trans (valueOf_setValue hdt hlength w)))
    refine ⟨hname, ?_⟩
    intro rfl
    obtain ⟨c, hc, -, heval⟩ := hship.id_of_unmarked hid hname hdt
    have hnot : ¬Sanitized schema (name, .atomic .timestamp) := not_sanitized_idType ht
    -- two microseconds of one millisecond
    have hnulls : CellsTyped OfType schema (schema.map fun _ => (.null : SparkValue F)) :=
      nulls_typed schema
    have hrow (micros : Int) := setValue_typed hdt hnulls (v := .timestamp micros) (.inr trivial)
    have hvalue (micros : Int) := valueOf_setValue hdt hnulls.shaped.length_eq (.timestamp micros)
    have hids (micros : Int) : c.eval (φ (setValue schema (schema.map fun _ => .null) name
        (.timestamp micros))) = .integral (micros / 1000) := by
      rw [heval _ (hrow micros).shaped, hvalue, preparedType, if_neg hnot, preparedValue, if_neg hnot]
      rfl
    have hsame := hship.same_value hJ hcfg.opType h hc (hrow 0) (hrow 1) (by rw [hids]; rfl)
      ((hids 0).trans (hids 1).symm)
    rw [hvalue, hvalue] at hsame
    cases hsame
  · rintro ⟨hname, hstamp⟩ rows' out' line' hrows hok' hline' i j row row' text text' hi hj htext
      htext' hsame
    obtain rfl : out' = ⟨out.schema, rows'.map φ⟩ := Except.ok.inj (hok'.symm.trans (hship.rows rows'))
    obtain rfl : line' = line := Except.ok.inj (hline'.symm.trans hline)
    obtain ⟨c, hc, htype, heval⟩ := hship.id_of_unmarked hid hname hdt
    have hread {i : Nat} {row : Row F} {text : String} (hi : rows'[i]? = some row)
        (htext : (rows'.map φ)[i]?.bind (lineOf line') = some text) :
        OfType t (valueOf schema row name) ∧
          lineId parse text = some (J.castString (.atomic t) (valueOf schema row name)) := by
      have hrow := hrows row (List.mem_of_getElem? hi)
      obtain ⟨hprepared, hvalue⟩ :=
        preparedId_of_idType J schema name ht hstamp (valueOf schema row name)
      have hvalue : c.eval (φ row) = valueOf schema row name := by
        rw [heval row hrow.shaped, hprepared, hvalue]
      rw [List.getElem?_map, hi, Option.map_some, Option.bind_some, hship.lines] at htext
      have hdecoded := lineId_lineText hJ hcfg.opType hship.columns htext
      rw [hc, Option.map_some, htype, hprepared, hvalue] at hdecoded
      refine ⟨?_, hdecoded⟩
      rcases (show Typed OfType (.atomic t) (valueOf schema row name) from hrow.getD hk) with hnull | hv
      · rw [ActionColumns.lineText, hc] at htext
        simp [hvalue, hnull, SparkValue.isNull] at htext
      · exact hv
    obtain ⟨hv, hidText⟩ := hread hi htext
    obtain ⟨hw, hidText'⟩ := hread hj htext'
    refine hapart t ht _ _ hv hw (Option.some.inj ?_)
    rw [← hidText, ← hidText', hsame]

section Example

/-- A text for each value of a type that an id may have; dates and the like are numbers here. -/
def SparkValue.idText : SparkValue F → String
  | .string s => s
  | .boolean b => if b then "true" else "false"
  | .integral i | .decimal i _ | .date i | .timestamp i | .timestampNtz i =>
    String.ofList (Json.intText i)
  | _ => ""

def idFunctions (F : Type) [Json.FloatText F] : SparkFunctions F :=
  { objectFunctions F with castString := fun _ v => v.idText }

theorem idFunctions_writesObjects (F : Type) [Json.FloatText F] :
    WritesObjects (idFunctions F) parseJson objectJson :=
  ⟨(writesObjects F).newline, (writesObjects F).parses, (writesObjects F).struct, fun _ => rfl⟩

theorem intText_inj {i j : Int} (h : String.ofList (Json.intText i) = String.ofList (Json.intText j)) :
    i = j := by
  have htext := congrArg (fun s : String => Json.intOf s.toList) h
  simpa [Json.intOf_intText] using htext

theorem idFunctions_castsApart (F : Type) [Json.FloatText F] : CastsApart (idFunctions F) := by
  intro t ht v w hv hw h
  cases t with
  | string =>
    cases v with
    | string s =>
      cases w with
      | string s' => exact congrArg SparkValue.string h
      | _ => cases hw
    | _ => cases hv
  | boolean =>
    cases v with
    | boolean b =>
      cases w with
      | boolean b' =>
        have htext : (if b then "true" else "false") = if b' then "true" else "false" := h
        cases b <;> cases b' <;> simp at htext ⊢
      | _ => cases hw
    | _ => cases hv
  | tinyint | smallint | int | bigint =>
    cases v with
    | integral i =>
      cases w with
      | integral j => exact congrArg SparkValue.integral (intText_inj h)
      | _ => cases hw
    | _ => cases hv
  | date =>
    cases v with
    | date i =>
      cases w with
      | date j => exact congrArg SparkValue.date (intText_inj h)
      | _ => cases hw
    | _ => cases hv
  | timestamp =>
    cases v with
    | timestamp i =>
      cases w with
      | timestamp j => exact congrArg SparkValue.timestamp (intText_inj h)
      | _ => cases hw
    | _ => cases hv
  | timestampNtz =>
    cases v with
    | timestampNtz i =>
      cases w with
      | timestampNtz j => exact congrArg SparkValue.timestampNtz (intText_inj h)
      | _ => cases hw
    | _ => cases hv
  | decimal precision scale =>
    cases v with
    | decimal i scale' =>
      cases w with
      | decimal j scale'' =>
        cases hv
        cases hw
        rw [intText_inj h]
      | _ => cases hw
    | _ => cases hv
  | _ => cases ht

def stampSchema : Schema := [("key", .atomic .bigint), ("at", .atomic .timestamp)]

def stampConfig (idField : String) : EsWriteConfig :=
  { hosts := "https://es:9200", apiKey := some "key", index := "events", idField := some idField,
    dropFields := ["key", "at"] }

theorem ids_collapse_integers :
    OnlyEqualIdsCollapse (idFunctions FewFloats) parseJson .caseSensitive (stampConfig "key")
      stampSchema "key" :=
  (ids_collapse_iff (x := FewFloats.half) rfl (idFunctions_writesObjects FewFloats)
    (idFunctions_castsApart FewFloats) (by decide) rfl (t := .bigint) rfl rfl
    (rfl : preparedFrame (idFunctions FewFloats) .caseSensitive ⟨stampSchema, []⟩ =
      .ok ⟨[("key", .atomic .bigint), ("at", .atomic .bigint)], []⟩) rfl).mpr
    ⟨by decide, by decide⟩

/-- Two rows that are a microsecond apart become one document. -/
theorem timestamps_collapse :
    (stampConfig "at").Accepted ∧
      (preparedFrame (idFunctions FewFloats) .caseSensitive
          ⟨stampSchema, [[.integral 1, .timestamp 0], [.integral 2, .timestamp 1]]⟩).toOption.map
          (fun out => out.rows.map fun row =>
            (rowLine (idFunctions FewFloats) .caseSensitive (stampConfig "at") out.schema row).bind
              (lineId (F := FewFloats) parseJson)) =
        some [some "0", some "0"] ∧
      (.timestamp 0 : SparkValue FewFloats) ≠ .timestamp 1 :=
  ⟨by decide, by decide +kernel, by simp⟩

end Example

end EsConnector
