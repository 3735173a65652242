import EsConnector.ZoneReads

namespace EsConnector
set_option autoImplicit true

variable {F : Type} {r : Resolver} {schema : Schema}

/-- The mark that stands for a text: it is there if the text shows a timestamp. -/
def stampColumn (c : Column F) : Column F where
  dataType := .atomic .string
  eval row := if typeHasTimestamp c.dataType then .string "" else c.eval row

/-- Both passes over a row of nulls, with marks for the texts that the first one writes. -/
def stampedFrame (F : Type) (r : Resolver) (schema : Schema) :
    Except AnalysisException (DataFrame F) := do
  normalizeTimestampsForUtc r (← rewriteColumns r (fun _ c => .ok (stampColumn c))
    (hostileColumns schema) ⟨schema, [schema.map fun _ => .null]⟩)

/-- `F.col` finds a mark under a name. -/
def readsStamp (r : Resolver) (frame : DataFrame F) (name : String) : Bool :=
  match Column.col r frame.schema name with
  | .ok c => frame.rows.any fun row => !(c.eval row).isNull
  | .error _ => false

/-- The text that `sanitize_for_arrow` writes for a value. -/
def SparkValue.written (J : SparkFunctions F) (scalar : Bool) (dt : SparkType) :
    SparkValue F → SparkValue F
  | .null => .null
  | v => .string (if scalar then J.castString dt v else J.toJsonNoOptions dt v)

theorem written_of_ne {J : SparkFunctions F} {scalar : Bool} {dt : SparkType} {v : SparkValue F}
    (hv : v ≠ .null) :
    v.written J scalar dt =
      .string (if scalar then J.castString dt v else J.toJsonNoOptions dt v) := by
  cases v with
  | null => exact absurd rfl hv
  | _ => rfl

theorem written_null_or_string (J : SparkFunctions F) (scalar : Bool) (dt : SparkType)
    (v : SparkValue F) : v.written J scalar dt = .null ∨ ∃ s, v.written J scalar dt = .string s := by
  by_cases hv : v = .null
  · subst hv
    exact .inl rfl
  · exact .inr ⟨_, written_of_ne hv⟩

theorem sanitizeColumn_written {J : SparkFunctions F} {text : String} {c d : Column F}
    (h : sanitizeColumn J text c = .ok d) : d.dataType = .atomic .string ∧
      (isScalarIntervalType text = false → c.dataType ≠ .atomic .string) ∧
      ∀ row, d.eval row = (c.eval row).written J (isScalarIntervalType text) c.dataType := by
  rw [sanitizeColumn] at h
  split at h
  · rename_i hscalar
    cases h
    refine ⟨rfl, ?_, ?_⟩
    · intro hnot
      rw [hscalar] at hnot
      cases hnot
    · intro row
      dsimp only [Column.castString]
      cases c.eval row <;> simp [SparkValue.written, hscalar]
  · rename_i hscalar
    rw [Column.toJsonNoOptions, Column.toJsonBy] at h
    obtain ⟨haccepts, rfl⟩ := Column.function_accepts h
    refine ⟨rfl, ?_, ?_⟩
    · intro _ hstring
      rw [hstring] at haccepts
      cases of_decide_eq_true haccepts
    · intro row
      dsimp only
      cases c.eval row <;> simp [SparkValue.written, hscalar]

section Marked

variable {P P' : SparkType → SparkValue F → Prop} {Q : SparkValue F → SparkValue F → Prop}

/-- A value in two runs and its mark: without one the values are the same. -/
def Marked (P : SparkType → SparkValue F → Prop) (Q : SparkValue F → SparkValue F → Prop)
    (dt : SparkType) (v v' mark : SparkValue F) : Prop :=
  (mark = .null ∧ v = v' ∧ P dt v) ∨ (mark = .string "" ∧ dt = .atomic .string ∧ Q v v')

/-- A row in two runs, and the row of its marks. -/
structure RowMarked (P : SparkType → SparkValue F → Prop) (Q : SparkValue F → SparkValue F → Prop)
    (schema : Schema) (row row' marks : Row F) : Prop where
  length : row.length = schema.length
  length' : row'.length = schema.length
  lengthMarks : marks.length = schema.length
  cells : ∀ (i : Nat) (f : String × SparkType), schema[i]? = some f →
    Marked P Q f.2 (row.getD i .null) (row'.getD i .null) (marks.getD i .null)

variable {row row' marks : Row F}

theorem RowMarked.mono (h : RowMarked P Q schema row row' marks)
    (hP : ∀ dt v, P dt v → P' dt v) : RowMarked P' Q schema row row' marks := by
  refine ⟨h.length, h.length', h.lengthMarks, fun i f hi => ?_⟩
  rcases h.cells i f hi with ⟨hmark, hsame, hv⟩ | hmarked
  · exact .inl ⟨hmark, hsame, hP _ _ hv⟩
  · exact .inr hmarked

/-- What is true of a column is true of its items. -/
def ItemsHave (r : Resolver) (keys : List String) (P : SparkType → SparkValue F → Prop) : Prop :=
  ∀ (c d : Column F) (name : String) (row : Row F), name ∈ keys → c.getItem r name = .ok d →
    P c.dataType (c.eval row) → P d.dataType (d.eval row)

theorem ItemsHave.nested {keys : List String} (h : ItemsHave r keys P) {c d : Column F}
    {names : List String} (hnames : ∀ name ∈ names, name ∈ keys)
    (hd : names.foldlM (Column.getItem r) c = .ok d) (hc : P c.dataType (c.eval row)) :
    P d.dataType (d.eval row) := by
  induction names generalizing c with
  | nil =>
    cases hd
    exact hc
  | cons name names ih =>
    rw [List.foldlM_cons] at hd
    obtain ⟨e, he, hd⟩ := bind_ok hd
    exact ih (fun name hname => hnames name (List.mem_cons_of_mem _ hname)) hd
      (h c e name row (hnames name List.mem_cons_self) he hc)

theorem getItems_of_string {c d : Column F} {names : List String}
    (h : names.foldlM (Column.getItem r) c = .ok d) (hc : c.dataType = .atomic .string) :
    d = c := by
  cases names with
  | nil =>
    cases h
    rfl
  | cons name names =>
    rw [List.foldlM_cons, Column.getItem, hc] at h
    cases h

/-- `F.col` reads a value with its mark. -/
theorem RowMarked.col {keys : List String} (h : RowMarked P Q schema row row' marks)
    (hitems : ItemsHave r keys P) {name : String} (hname : nameParts name ⊆ keys) {c : Column F}
    (hc : Column.col r schema name = .ok c) :
    Marked P Q c.dataType (c.eval row) (c.eval row') (c.eval marks) := by
  obtain ⟨part, nested, f, i, hparts, hone, hget⟩ := col_parts hc
  obtain ⟨hi, -⟩ := mem_candidates.mp (hone ▸ List.mem_singleton.mpr rfl)
  have hfollows := getItems_follow hget
  rcases h.cells i f hi with ⟨hmark, hsame, hv⟩ | ⟨hmark, hstring, hv⟩
  · refine .inl ⟨hfollows.null marks hmark, hfollows.congr row row' hsame,
      hitems.nested (fun name hmem => hname ?_) hget hv⟩
    rw [nameParts, hparts]
    exact List.mem_cons_of_mem _ hmem
  · obtain rfl := getItems_of_string hget hstring
    exact .inr ⟨hmark, hstring, hv⟩

theorem withColumn_cells {name : String} {dt : SparkType} {f' : String × SparkType} {i : Nat}
    (hf' : (withColumnSchema r schema name dt)[i]? = some f') :
    (schema[i]? = some f' ∧ ∀ (c : Column F) (row : Row F), row.length = schema.length →
        (withColumnRow r schema name c row).getD i .null = row.getD i .null) ∨
      (f' = (name, dt) ∧ ∀ (c : Column F) (row : Row F), row.length = schema.length →
        (withColumnRow r schema name c row).getD i .null = c.eval row) := by
  have hcell (c : Column F) := withColumn_cell (c := ⟨dt, c.eval⟩) hf'
  rcases hcell ⟨dt, fun _ => .null⟩ with ⟨hi, hdiff, -⟩ | ⟨hnew, hsame, -⟩
  · refine .inl ⟨hi, fun c => ?_⟩
    rcases hcell c with ⟨-, -, hkept⟩ | ⟨-, hsame, -⟩
    · exact hkept
    · rw [hsame f' hi] at hdiff
      cases hdiff
  · refine .inr ⟨hnew, fun c => ?_⟩
    rcases hcell c with ⟨hi, hdiff, -⟩ | ⟨-, -, hput⟩
    · rw [hsame f' hi] at hdiff
      cases hdiff
    · exact hput

theorem RowMarked.withColumn (h : RowMarked P Q schema row row' marks) (name : String)
    {d d' mark : Column F} (htype' : d'.dataType = d.dataType) (hmark : mark.dataType = d.dataType)
    (hd : Marked P Q d.dataType (d.eval row) (d'.eval row') (mark.eval marks)) :
    RowMarked P Q (withColumnSchema r schema name d.dataType) (withColumnRow r schema name d row)
      (withColumnRow r schema name d' row') (withColumnRow r schema name mark marks) := by
  refine ⟨withColumnRow_length h.length, htype' ▸ withColumnRow_length h.length',
    hmark ▸ withColumnRow_length h.lengthMarks, fun i f hf => ?_⟩
  rcases withColumn_cells hf with ⟨hi, hcell⟩ | ⟨rfl, hcell⟩
  · rw [hcell d row h.length, hcell d' row' h.length', hcell mark marks h.lengthMarks]
    exact h.cells i f hi
  · rw [hcell d row h.length, hcell d' row' h.length', hcell mark marks h.lengthMarks]
    exact hd

theorem rewriteColumns_marked {act act' : α → Column F → Except AnalysisException (Column F)}
    (stamp : α → Column F → Except AnalysisException (Column F))
    {keys : List String} (hitems : ItemsHave r keys P) {steps : List (String × α)}
    (hparts : ∀ s ∈ steps, nameParts s.1 ⊆ keys)
    (hact : ∀ s ∈ steps, ∀ (c d d' : Column F) (row row' marks : Row F), act s.2 c = .ok d →
      act' s.2 c = .ok d' → Marked P Q c.dataType (c.eval row) (c.eval row') (c.eval marks) →
      ∃ mark, stamp s.2 c = .ok mark ∧ d'.dataType = d.dataType ∧ mark.dataType = d.dataType ∧
        Marked P Q d.dataType (d.eval row) (d'.eval row') (mark.eval marks))
    {out out' : DataFrame F} (h : RowMarked P Q schema row row' marks)
    (hok : rewriteColumns r act steps ⟨schema, [row]⟩ = .ok out)
    (hok' : rewriteColumns r act' steps ⟨schema, [row']⟩ = .ok out') :
    ∃ stored stored' stamps, out = ⟨out.schema, [stored]⟩ ∧ out' = ⟨out.schema, [stored']⟩ ∧
      rewriteColumns r stamp steps ⟨schema, [marks]⟩ = .ok ⟨out.schema, [stamps]⟩ ∧
      RowMarked P Q out.schema stored stored' stamps := by
  induction steps generalizing schema row row' marks with
  | nil =>
    cases hok
    cases hok'
    exact ⟨row, row', marks, rfl, rfl, rfl, h⟩
  | cons s steps ih =>
    obtain ⟨c, d, hc, hd, hok⟩ := rewriteColumns_cons_ok hok
    obtain ⟨c', d', hc', hd', hok'⟩ := rewriteColumns_cons_ok hok'
    cases hc.symm.trans hc'
    obtain ⟨mark, hmark, htype', htype, hmarked⟩ := hact s List.mem_cons_self c d d' row row' marks
      hd hd' (h.col hitems (hparts s List.mem_cons_self) hc)
    rw [List.map_singleton] at hok hok'
    rw [htype'] at hok'
    obtain ⟨stored, stored', stamps, hout, hout', hstamps, hrow⟩ :=
      ih (fun s hs => hparts s (List.mem_cons_of_mem _ hs))
        (fun s hs => hact s (List.mem_cons_of_mem _ hs))
        (h.withColumn s.1 htype' htype hmarked) hok hok'
    refine ⟨stored, stored', stamps, hout, hout', ?_, hrow⟩
    rw [rewriteColumns, List.foldlM_cons, rewriteColumn, hc, ok_bind, hmark, ok_bind, withColumn_eq,
      htype]
    exact hstamps

/-- A text is not walked by a rewrite that has something to do. -/
theorem Rewrite.apply_ne_string {w : Rewrite F}
    (hleaf : ∀ t (c d : Column F), w.has (.atomic t) = true → w.leaf t c = .ok d →
      c.dataType ≠ .atomic .string) (hempty : w.has (.struct []) = false) {dt : SparkType}
    {c d : Column F} (hhas : w.has dt = true) (h : w.apply r dt c = .ok d) :
    c.dataType ≠ .atomic .string := by
  cases dt with
  | atomic t => exact hleaf t c d hhas h
  | array element =>
    obtain ⟨element', body, htype, -, -⟩ := Rewrite.apply_array_ok h
    rw [htype]
    nofun
  | map key value =>
    obtain ⟨key', value', body, htype, -, -⟩ := Rewrite.apply_map_ok h
    rw [htype]
    nofun
  | struct fields =>
    obtain ⟨cols, hcols, -, -, -⟩ := Rewrite.apply_struct_ok h
    cases fields with
    | nil =>
      rw [hempty] at hhas
      cases hhas
    | cons fd fields =>
      obtain ⟨x, field, rest, hx, -, -, -⟩ := Rewrite.applyFields_cons_ok hcols
      intro hstring
      rw [Column.getItem, hstring] at hx
      cases hx

theorem timestampRewrite_ne_string {dt : SparkType} {c d : Column F}
    (hdt : typeHasTimestamp dt = true) (h : timestampRewrite.apply r dt c = .ok d) :
    c.dataType ≠ .atomic .string := by
  refine Rewrite.apply_ne_string (fun t c d ht h => ?_) rfl hdt h
  have ht : isTimestamp t = true := ht
  simp only [timestampRewrite, if_pos ht] at h
  obtain ⟨htype, -⟩ := Column.function_accepts h
  rw [of_decide_eq_true htype]
  intro hstring
  cases hstring

end Marked

section Passes

variable {J J' : SparkFunctions F} {P : SparkType → SparkValue F → Prop}
  {Q : SparkValue F → SparkValue F → Prop}

/-- What is true of the values is true of the texts without a mark, and the texts with one are as `Q`
says, also if they are cast to a string once more. -/
structure WriteRules (J J' : SparkFunctions F) (P : SparkType → SparkValue F → Prop)
    (Q : SparkValue F → SparkValue F → Prop) : Prop where
  plain : ∀ scalar dt v, (scalar = false → dt ≠ .atomic .string) → P dt v →
    typeHasTimestamp dt = false → v.written J scalar dt = v.written J' scalar dt ∧
      P (.atomic .string) (v.written J scalar dt)
  stamped : ∀ scalar dt v, P dt v → typeHasTimestamp dt = true →
    Q (v.written J scalar dt) (v.written J' scalar dt)
  again : ∀ v v', Q v v' →
    Q (v.written J true (.atomic .string)) (v'.written J' true (.atomic .string))

theorem sanitizeColumn_marked (hrules : WriteRules J J' P Q) {text : String} {c d d' : Column F}
    (hd : sanitizeColumn J text c = .ok d) (hd' : sanitizeColumn J' text c = .ok d')
    {row row' marks : Row F}
    (hc : Marked P Q c.dataType (c.eval row) (c.eval row') (c.eval marks)) :
    d'.dataType = d.dataType ∧ (stampColumn c).dataType = d.dataType ∧
      Marked P Q d.dataType (d.eval row) (d'.eval row') ((stampColumn c).eval marks) := by
  obtain ⟨htype, hscalar, heval⟩ := sanitizeColumn_written hd
  obtain ⟨htype', -, heval'⟩ := sanitizeColumn_written hd'
  refine ⟨htype'.trans htype.symm, htype.symm, ?_⟩
  rw [htype, heval, heval', stampColumn]
  dsimp only
  rcases hc with ⟨hmark, hsame, hv⟩ | ⟨hmark, hstring, hv⟩
  · rw [← hsame]
    cases hstamped : typeHasTimestamp c.dataType with
    | true => exact .inr ⟨rfl, rfl, hrules.stamped _ _ _ hv hstamped⟩
    | false =>
      obtain ⟨hwritten, htext⟩ := hrules.plain _ _ _ hscalar hv hstamped
      exact .inl ⟨hmark, hwritten, htext⟩
  · have htrue : isScalarIntervalType text = true := by
      by_contra hfalse
      exact hscalar (Bool.eq_false_iff.mpr hfalse) hstring
    rw [htrue, hstring]
    exact .inr ⟨hmark, rfl, hrules.again _ _ hv⟩

theorem nulls_getD (schema : Schema) (i : Nat) :
    (schema.map fun _ => (.null : SparkValue F)).getD i .null = .null := by
  rw [List.getD_eq_getElem?_getD, List.getElem?_map]
  cases schema[i]? <;> rfl

/-- The two passes in two runs, with the marks of the texts. -/
theorem preparedFrame_marked (P' : SparkType → SparkValue F → Prop) (hrules : WriteRules J J' P Q)
    (hitems : ItemsHave r (pathKeys schema) P) (hitems' : ItemsHave r (pathKeys schema) P')
    (hmono : ∀ dt v, P dt v → P' dt v)
    (hrewrite : ∀ (dt : SparkType) (c d : Column F) (row : Row F), typeHasTimestamp dt = true →
      fieldNames dt ⊆ pathKeys schema → timestampRewrite.apply r dt c = .ok d →
      P' c.dataType (c.eval row) → P' d.dataType (d.eval row))
    {row : Row F} (hlength : row.length = schema.length)
    (hrow : ∀ (i : Nat) (f : String × SparkType), schema[i]? = some f → P f.2 (row.getD i .null))
    {out out' : Schema} {stored stored' : Row F}
    (hok : preparedFrame J r ⟨schema, [row]⟩ = .ok ⟨out, [stored]⟩)
    (hok' : preparedFrame J' r ⟨schema, [row]⟩ = .ok ⟨out', [stored']⟩) :
    out' = out ∧ ∃ stamps, stampedFrame F r schema = .ok ⟨out, [stamps]⟩ ∧
      RowMarked P' Q out stored stored' stamps := by
  obtain ⟨middle, hmiddle, hok⟩ := bind_ok hok
  obtain ⟨middle', hmiddle', hok'⟩ := bind_ok hok'
  have hstart : RowMarked P Q schema row row (schema.map fun _ => .null) :=
    ⟨hlength, hlength, List.length_map .., fun i f hi =>
      .inl ⟨nulls_getD schema i, rfl, hrow i f hi⟩⟩
  obtain ⟨φ, hφ, -⟩ := sanitizeForArrow_traces hmiddle
  obtain ⟨first, first', marks, hfirst, hfirst', hmarks, hsanitized⟩ :=
    rewriteColumns_marked (fun _ c => .ok (stampColumn c)) hitems
      (fun s hs => by
        obtain ⟨i, dt, hi⟩ := hostileColumns_mem hs
        exact (pathKeys_subset (List.mem_of_getElem? hi)).1)
      (fun s _ c d d' row row' marks hd hd' hc =>
        ⟨stampColumn c, rfl, sanitizeColumn_marked hrules hd hd' hc⟩)
      hstart hmiddle hmiddle'
  have htypes : ∀ f ∈ middle.schema, fieldNames f.2 ⊆ pathKeys schema :=
    rewriteColumns_types (Q := fun dt => fieldNames dt ⊆ pathKeys schema)
      (fun text c d hd => (sanitizeColumn_string hd).1 ▸ List.nil_subset _) hmiddle
      fun f hf => (pathKeys_subset hf).2
  rw [hfirst, normalizeTimestamps_eq] at hok
  rw [hfirst', normalizeTimestamps_eq] at hok'
  obtain ⟨_, _, stamps, hout, hout', hstamps, hnormalized⟩ :=
    rewriteColumns_marked (fun dt c => rewriteTimestamps r c dt) hitems'
      (fun s hs => by
        obtain ⟨i, hi⟩ := List.getElem?_of_mem (List.mem_of_mem_filter hs)
        obtain ⟨f, hf, hname⟩ := List.mem_map.mp (hφ.names i s hi)
        exact hname ▸ (pathKeys_subset hf).1)
      (fun s hs c d d' row row' marks hd hd' hc => by
        cases hd.symm.trans hd'
        obtain ⟨hmem, hstamped⟩ := List.mem_filter.mp hs
        have hfollows := timestampRewrite_local.apply_follows hd
        refine ⟨d, hd, rfl, rfl, ?_⟩
        rcases hc with ⟨hmark, hsame, hv⟩ | ⟨-, hstring, -⟩
        · exact .inl ⟨hfollows.null marks hmark, hfollows.congr row row' hsame,
            hrewrite s.2 c d row hstamped (htypes s hmem) hd hv⟩
        · exact absurd hstring (timestampRewrite_ne_string hstamped hd))
      (hsanitized.mono hmono) hok hok'
  cases hout
  cases hout'
  refine ⟨rfl, stamps, ?_, hnormalized⟩
  rw [stampedFrame, hmarks, ok_bind, normalizeTimestamps_eq]
  exact hstamps

end Passes

end EsConnector
