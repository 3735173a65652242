import EsConnector.StampMarks

namespace EsConnector
set_option autoImplicit true

variable {F Zone : Type} [PyFloat F] {J : Zone → SparkFunctions F} {r : Resolver}
  {cfg : EsWriteConfig} {schema : Schema} {indexExists : Bool}

/-- What Spark writes depends on the zone of the session where there is a timestamp only. -/
structure ReadsZone (J : Zone → SparkFunctions F) : Prop where
  toJson : ∀ z z' dt v, typeHasTimestamp dt = false → (J z).toJson dt v = (J z').toJson dt v
  toJsonNoOptions : ∀ z z' dt v, typeHasTimestamp dt = false →
    (J z).toJsonNoOptions dt v = (J z').toJsonNoOptions dt v
  castString : ∀ z z' dt v, typeHasTimestamp dt = false →
    (J z).castString dt v = (J z').castString dt v
  equalsTrue : ∀ z z' dt, typeHasTimestamp dt = false → (J z).equalsTrue dt = (J z').equalsTrue dt

/-- Two zones show the epoch in different ways, wherever in a value it is. -/
def RendersApart (J J' : SparkFunctions F) (keys : List String) (x : F) : Prop :=
  ∀ dt, KeysClear dt → typeHasTimestamp dt = true → ∀ scalar,
    (dt.filled keys x).written J scalar dt ≠ (dt.filled keys x).written J' scalar dt

/-- False, zero and the like are not equal to true, nor is a text of one of them or of a value with
timestamps. -/
structure NeverTrue (J : SparkFunctions F) (keys : List String) (x : F) : Prop where
  value : ∀ dt f, J.equalsTrue dt = some f → f (dt.filled keys x) ≠ some true
  text : ∀ f scalar dt v, J.equalsTrue (.atomic .string) = some f →
    typeHasTimestamp dt = true ∨ v = dt.filled keys x → f (v.written J scalar dt) ≠ some true

/-- The lines that `bulk_write` hands to the partition writers. -/
def Lines (J : SparkFunctions F) (r : Resolver) (cfg : EsWriteConfig) (indexExists : Bool)
    (df : DataFrame F) (lines : List (Option String)) : Prop :=
  ∃ out line, preparedFrame J r df = .ok out ∧ preflight cfg out.schema indexExists = .ok () ∧
    buildNdjson J r cfg out.schema = .ok line ∧ out.rows.map (lineOf line) = lines

/-- The lines are the same in all zones. -/
def ZoneFree (J : Zone → SparkFunctions F) (r : Resolver) (cfg : EsWriteConfig) (indexExists : Bool)
    (schema : Schema) : Prop :=
  ∀ z z' (rows : List (Row F)) lines lines', (∀ row ∈ rows, CellsTyped OfType schema row) →
    Lines (J z) r cfg indexExists ⟨schema, rows⟩ lines →
    Lines (J z') r cfg indexExists ⟨schema, rows⟩ lines' → lines = lines'

/-- A name whose value is written: it is in the payload, or it is the id. -/
def WritesName (cfg : EsWriteConfig) (name : String) : Prop :=
  name ∉ droppedColumns cfg ∨ cfg.idColumnName = some name

instance (cfg : EsWriteConfig) (name : String) : Decidable (WritesName cfg name) :=
  inferInstanceAs (Decidable (_ ∨ _))

/-- No text that `sanitize_for_arrow` has made of a timestamp is found under a name that is written. -/
def NoStampWritten (F : Type) (r : Resolver) (cfg : EsWriteConfig) (schema : Schema) : Prop :=
  ∀ frame : DataFrame F, stampedFrame F r schema = .ok frame →
    ∀ f ∈ frame.schema, WritesName cfg f.1 → readsStamp r frame f.1 = false

section Texts

variable {K : SparkFunctions F} {keys : List String} {x : F}

/-- A text of a value with timestamps. -/
def StampedText (K : SparkFunctions F) (v : SparkValue F) : Prop :=
  ∃ scalar dt, ∃ w : SparkValue F, typeHasTimestamp dt = true ∧ v = w.written K scalar dt

/-- A value of a type that nothing is special about, or the text of one. -/
def Unstamped (K : SparkFunctions F) (keys : List String) (x : F) (dt : SparkType) (v : SparkValue F) :
    Prop :=
  v = dt.filled keys x ∨
    (dt = .atomic .string ∧
      ∃ scalar, ∃ dt' : SparkType, v = (dt'.filled keys x).written K scalar dt')

omit [PyFloat F] in
theorem written_again (hcast : ∀ s, K.castString (.atomic .string) (.string s) = s) (scalar : Bool)
    (dt : SparkType) (v : SparkValue F) :
    (v.written K scalar dt).written K true (.atomic .string) = v.written K scalar dt := by
  rcases written_null_or_string K scalar dt v with hnull | ⟨s, hs⟩
  · rw [hnull]
    rfl
  · have hne : (SparkValue.string s : SparkValue F) ≠ .null := nofun
    rw [hs, written_of_ne hne, if_pos rfl, hcast]

omit [PyFloat F] in
theorem StampedText.again (hcast : ∀ s, K.castString (.atomic .string) (.string s) = s)
    {v : SparkValue F} (h : StampedText K v) : v.written K true (.atomic .string) = v := by
  obtain ⟨scalar, dt, w, -, rfl⟩ := h
  exact written_again hcast scalar dt w

omit [PyFloat F] in
theorem Unstamped.items : ItemsHave r keys (Unstamped K keys x) := by
  intro c d name row hname hget hc
  rcases hc with hfilled | ⟨hstring, -⟩
  · exact .inl (Column.getItem_of_filled hget hname hfilled)
  · rw [Column.getItem, hstring] at hget
    cases hget

omit [PyFloat F] in
theorem Unstamped.rewritten {dt : SparkType} {c d : Column F} {row : Row F}
    (h : Unstamped K keys x c.dataType (c.eval row)) (hdt : typeHasTimestamp dt = true)
    (hnames : fieldNames dt ⊆ keys) (hd : timestampRewrite.apply r dt c = .ok d) :
    Unstamped K keys x d.dataType (d.eval row) := by
  rcases h with hfilled | ⟨hstring, -⟩
  · exact .inl (timestampRewrite_of_filled hnames hd hfilled)
  · exact absurd hstring (timestampRewrite_ne_string hdt hd)

omit [PyFloat F] in
theorem written_zone (hJ : ReadsZone J) (z z' : Zone) {dt : SparkType}
    (hdt : typeHasTimestamp dt = false) (scalar : Bool) (v : SparkValue F) :
    v.written (J z) scalar dt = v.written (J z') scalar dt := by
  cases v <;> simp only [SparkValue.written, hJ.toJsonNoOptions z z' dt _ hdt,
    hJ.castString z z' dt _ hdt]

omit [PyFloat F] in
theorem writeRules_zone (hJ : ReadsZone J)
    (hcast : ∀ z s, (J z).castString (.atomic .string) (.string s) = s) (z z' : Zone) :
    WriteRules (J z) (J z') (fun _ _ => True)
      fun v v' => StampedText (J z) v ∧ StampedText (J z') v' where
  plain scalar dt v _ _ hdt := ⟨written_zone hJ z z' hdt scalar v, trivial⟩
  stamped scalar dt v _ hdt := ⟨⟨scalar, dt, v, hdt, rfl⟩, ⟨scalar, dt, v, hdt, rfl⟩⟩
  again v v' h := by
    rw [h.1.again (hcast z), h.2.again (hcast z')]
    exact h

omit [PyFloat F] in
/-- In a run over plain values the texts with a mark differ between zones that show the epoch in
different ways. -/
theorem writeRules_apart (hJ : ReadsZone J)
    (hcast : ∀ z s, (J z).castString (.atomic .string) (.string s) = s) {z z' : Zone}
    (hapart : RendersApart (J z) (J z') keys x) :
    WriteRules (J z) (J z') (fun dt v => KeysClear dt ∧ Unstamped (J z) keys x dt v)
      fun v v' => (∃ s s', s ≠ s' ∧ v = .string s ∧ v' = .string s') ∧
        StampedText (J z) v ∧ StampedText (J z') v' where
  plain scalar dt v haccepts hv hdt := by
    refine ⟨written_zone hJ z z' hdt scalar v, trivial, .inr ⟨rfl, ?_⟩⟩
    rcases hv.2 with rfl | ⟨rfl, scalar', dt', rfl⟩
    · exact ⟨scalar, dt, rfl⟩
    · cases scalar with
      | false => exact absurd rfl (haccepts rfl)
      | true => exact ⟨scalar', dt', written_again (hcast z) scalar' dt' _⟩
  stamped scalar dt v hv hdt := by
    refine ⟨?_, ⟨scalar, dt, v, hdt, rfl⟩, ⟨scalar, dt, v, hdt, rfl⟩⟩
    rcases hv.2 with rfl | ⟨rfl, -⟩
    · have hne := hapart dt hv.1 hdt scalar
      have hpresent := dt.filled_ne_null keys x
      rw [written_of_ne hpresent, written_of_ne hpresent] at hne ⊢
      exact ⟨_, _, fun hsame => hne (congrArg SparkValue.string hsame), rfl, rfl⟩
    · cases hdt
  again v v' h := by
    rw [h.2.1.again (hcast z), h.2.2.again (hcast z')]
    exact h

omit [PyFloat F] in
theorem equalsTrue_isTrue {c d : Column F} (hd : c.equalsTrue K = .ok d) {row : Row F} :
    (c.dataType = .atomic .boolean ∧ d.eval row = c.eval row) ∨
      ∃ f, K.equalsTrue c.dataType = some f ∧
        (f (c.eval row) ≠ some true → (d.eval row).isTrue = false) := by
  rw [Column.equalsTrue] at hd
  split at hd
  · rename_i hboolean
    cases hd
    exact .inl ⟨hboolean, rfl⟩
  · split at hd
    · rename_i f hf
      cases hd
      refine .inr ⟨f, hf, ?_⟩
      intro hfalse
      dsimp only
      rcases hv : f (c.eval row) with - | b
      · rfl
      · cases b with
        | false => rfl
        | true => exact absurd hv hfalse
    · cases hd

omit [PyFloat F] in
theorem StampedText.not_true (hK : NeverTrue K keys x) {c d : Column F} (hd : c.equalsTrue K = .ok d)
    (hc : c.dataType = .atomic .string) {row : Row F} (hv : StampedText K (c.eval row)) :
    (d.eval row).isTrue = false := by
  rcases equalsTrue_isTrue hd with ⟨hboolean, -⟩ | ⟨f, hf, hfalse⟩
  · rw [hc] at hboolean
    cases hboolean
  · obtain ⟨scalar, dt, w, hdt, hw⟩ := hv
    rw [hc] at hf
    exact hfalse (hw ▸ hK.text f scalar dt w hf (.inl hdt))

omit [PyFloat F] in
theorem Unstamped.not_true (hK : NeverTrue K keys x) {c d : Column F} (hd : c.equalsTrue K = .ok d)
    {row : Row F} (hv : Unstamped K keys x c.dataType (c.eval row)) : (d.eval row).isTrue = false := by
  rcases equalsTrue_isTrue hd with ⟨hboolean, heval⟩ | ⟨f, hf, hfalse⟩
  · rw [heval]
    rcases hv with hv | ⟨hstring, -⟩
    · rw [hv, hboolean]
      rfl
    · rw [hboolean] at hstring
      cases hstring
  · rcases hv with hv | ⟨hstring, scalar, dt, hv⟩
    · exact hfalse (hv ▸ hK.value _ f hf)
    · rw [hstring] at hf
      exact hfalse (hv ▸ hK.text f scalar dt _ hf (.inr rfl))

end Texts

section Lines

variable {K : SparkFunctions F} {φ φ' : Row F → Row F} {out : Schema} {a a' : ActionColumns F}
  {line line' : Column F} {z z' : Zone}

omit [PyFloat F] in
theorem col_timestampFree (hout : ∀ f ∈ out, typeHasTimestamp f.2 = false) {name : String}
    {c : Column F} (hc : Column.col r out name = .ok c) : typeHasTimestamp c.dataType = false := by
  obtain ⟨part, nested, f, i, -, hone, hitems⟩ := col_parts hc
  obtain ⟨hi, -⟩ := mem_candidates.mp (hone ▸ List.mem_singleton.mpr rfl)
  exact Column.getItems_timestampFree hitems (hout f (List.mem_of_getElem? hi))

omit [PyFloat F] in
theorem equalsTrue_zone (hJ : ReadsZone J) {c d d' : Column F} (hd : c.equalsTrue (J z) = .ok d)
    (hd' : c.equalsTrue (J z') = .ok d') (hc : typeHasTimestamp c.dataType = false) : d = d' := by
  rw [Column.equalsTrue, hJ.equalsTrue z z' _ hc, ← Column.equalsTrue, hd'] at hd
  exact (Except.ok.inj hd).symm

omit [PyFloat F] in
theorem actionText_zone (hJ : ReadsZone J) (z z' : Zone) (id : Option String) (flagged : Bool)
    (source : String) :
    actionText (J z) cfg id flagged source = actionText (J z') cfg id flagged source := by
  have hheader (op : String) : headerText (J z) cfg op id = headerText (J z') cfg op id :=
    hJ.toJson z z' _ _ (by cases id <;> rfl)
  rw [actionText, actionText, hheader, hheader]

theorem source_timestampFree (hout : ∀ f ∈ out, typeHasTimestamp f.2 = false)
    (ha : a.Of K cfg r out) : typeHasTimestamp a.source.dataType = false := by
  obtain ⟨cols, hcols, hstruct⟩ := sourceStruct_ok ha.source
  rw [hstruct]
  apply fieldsHave_eq_false.mpr
  intro fd hfd
  obtain ⟨e, he, rfl⟩ := List.mem_map.mp hfd
  obtain ⟨name, -, hexpr⟩ := mapM_ok_mem hcols e he
  exact sourceExpr_timestampFree hexpr fun c hc => col_timestampFree hout hc

theorem lineText_zone (hJ : ReadsZone J) (ha : a.Of (J z) cfg r out) (ha' : a'.Of (J z') cfg r out)
    (hout : ∀ f ∈ out, typeHasTimestamp f.2 = false) {row row' : Row F}
    (hsource : a.source.eval row = a.source.eval row')
    (hid : ∀ c, a.id = some c → c.eval row = c.eval row')
    (hflagged : a.flagged row = a'.flagged row') :
    a.lineText (J z) cfg row = a'.lineText (J z') cfg row' := by
  have hcolumn : a'.source = a.source := Except.ok.inj (ha'.source.symm.trans ha.source)
  have htype := source_timestampFree hout ha
  cases hname : cfg.idColumnName with
  | none =>
    simp only [ActionColumns.lineText, ha.noId hname, ha'.noId hname, hcolumn, hsource, hflagged,
      hJ.toJson z z' _ _ htype, actionText_zone hJ z z']
  | some name =>
    obtain ⟨c, hc, hsome⟩ := ha.id name hname
    obtain ⟨c', hc', hsome'⟩ := ha'.id name hname
    cases hc.symm.trans hc'
    have hidType := idColumn_timestampFree hc fun d hd => col_timestampFree hout hd
    simp only [ActionColumns.lineText, hsome, hsome', hcolumn, hsource, hid c hsome, hflagged,
      hJ.toJson z z' _ _ htype, hJ.castString z z' _ _ hidType, actionText_zone hJ z z']

/-- No text that shows the zone is true, so two zones flag the same rows. -/
theorem flagged_zone {x : F} (hJ : ReadsZone J) (htrue : ∀ z, NeverTrue (J z) keys x)
    (ha : a.Of (J z) cfg r out) (ha' : a'.Of (J z') cfg r out) (hpre : Preflighted cfg out)
    (hout : ∀ f ∈ out, typeHasTimestamp f.2 = false) {row row' marks : Row F}
    (hread : ∀ name ∈ out.map Prod.fst, ∀ c : Column F, Column.col r out name = .ok c →
      Marked (fun _ _ => True) (fun v v' => StampedText (J z) v ∧ StampedText (J z') v') c.dataType
        (c.eval row) (c.eval row') (c.eval marks)) :
    a.flagged row = a'.flagged row' := by
  cases hdeletes : cfg.hasDeletes with
  | false =>
    rw [ActionColumns.flagged, ActionColumns.flagged, ha.noFlag hdeletes, ha'.noFlag hdeletes]
    rfl
  | true =>
    obtain ⟨name, hname, hdt⟩ := hpre.flag hdeletes
    obtain ⟨c, d, hc, hd, hsome⟩ := ha.flag hdeletes
    obtain ⟨c', d', hc', hd', hsome'⟩ := ha'.flag hdeletes
    cases hc.symm.trans hc'
    rw [hname] at hc
    rw [ActionColumns.flagged, ActionColumns.flagged, hsome, hsome', Option.any_some, Option.any_some]
    rcases hread name (List.mem_map_of_mem (columnType_mem hdt)) c hc with
      ⟨-, hsame, -⟩ | ⟨-, htext, hv, hv'⟩
    · rw [← equalsTrue_zone hJ hd hd' (col_timestampFree hout hc), equalsTrue_congr hd hsame]
    · rw [hv.not_true (htrue z) hd htext, hv'.not_true (htrue z') hd' htext]

/-- A row of which each column reads as filled, or as a text that shows the zone, is not flagged. -/
theorem not_flagged {x : F} (htrue : NeverTrue K keys x) (ha : a.Of K cfg r out)
    (hpre : Preflighted cfg out) {row : Row F}
    (hread : ∀ name ∈ out.map Prod.fst, ∀ c : Column F, Column.col r out name = .ok c →
      Unstamped K keys x c.dataType (c.eval row) ∨
        c.dataType = .atomic .string ∧ StampedText K (c.eval row)) : a.flagged row = false := by
  cases hdeletes : cfg.hasDeletes with
  | false =>
    rw [ActionColumns.flagged, ha.noFlag hdeletes]
    rfl
  | true =>
    obtain ⟨name, hname, hdt⟩ := hpre.flag hdeletes
    obtain ⟨c, d, hc, hd, hsome⟩ := ha.flag hdeletes
    rw [hname] at hc
    rw [ActionColumns.flagged, hsome, Option.any_some]
    rcases hread name (List.mem_map_of_mem (columnType_mem hdt)) c hc with hv | ⟨hstring, hv⟩
    · exact hv.not_true htrue hd
    · exact hv.not_true htrue hd hstring

omit [PyFloat F] in
theorem Traces.name_mem (h : Traces schema out φ) {name : String} (hmem : name ∈ out.map Prod.fst) :
    ∃ f ∈ schema, f.1 = name := by
  obtain ⟨g, hg, rfl⟩ := List.mem_map.mp hmem
  obtain ⟨i, hi⟩ := List.getElem?_of_mem hg
  exact List.mem_map.mp (h.names i g hi)

omit [PyFloat F] in
theorem Traces.nameParts_subset (h : Traces schema out φ) {name : String}
    (hmem : name ∈ out.map Prod.fst) : nameParts name ⊆ pathKeys schema := by
  obtain ⟨f, hf, rfl⟩ := h.name_mem hmem
  exact (pathKeys_subset hf).1

/-- A frame in which no stamped text is written has the same lines in all zones. -/
theorem zoneFree_of_noStampWritten {x : F} (hJ : ReadsZone J)
    (hcast : ∀ z s, (J z).castString (.atomic .string) (.string s) = s)
    (htrue : ∀ z, NeverTrue (J z) (pathKeys schema) x) (hkeys : ∀ f ∈ schema, KeysClear f.2)
    (hclean : NoStampWritten F r cfg schema) : ZoneFree J r cfg indexExists schema := by
  rintro z z' rows _ _ hrows ⟨out, line, hok, hpre, hline, rfl⟩ ⟨out', line', hok', -, hline', rfl⟩
  obtain ⟨φ, a, h⟩ := shipped_of_ok hok hline
  obtain ⟨φ', a', h'⟩ := shipped_of_ok hok' hline'
  have hout : out.rows = rows.map φ :=
    congrArg DataFrame.rows (Except.ok.inj (hok.symm.trans (h.rows rows)))
  have hout' : out'.rows = rows.map φ' :=
    congrArg DataFrame.rows (Except.ok.inj (hok'.symm.trans (h'.rows rows)))
  have hpre := preflight_ok hpre
  have hfree := preparedFrame_timestampFree hkeys hok
  rw [hout, hout', List.map_map, List.map_map]
  apply List.map_congr_left
  intro row hrow
  obtain ⟨hschema, stamps, hstamps, hmarked⟩ :=
    preparedFrame_marked (fun _ _ => True) (writeRules_zone hJ hcast z z')
      (fun _ _ _ _ _ _ _ => trivial) (fun _ _ _ _ _ _ _ => trivial) (fun _ _ _ => trivial)
      (fun _ _ _ _ _ _ _ _ => trivial) (hrows row hrow).shaped.length_eq (fun _ _ _ => trivial)
      (h.rows [row]) (h'.rows [row])
  rw [hschema] at h'
  have hread {name : String} (hmem : name ∈ out.schema.map Prod.fst) {c : Column F}
      (hc : Column.col r out.schema name = .ok c) :=
    hmarked.col (fun _ _ _ _ _ _ _ => trivial) (h.traces.nameParts_subset hmem) hc
  have hwritten {name : String} (hmem : name ∈ out.schema.map Prod.fst) (hname : WritesName cfg name)
      {c : Column F} (hc : Column.col r out.schema name = .ok c) :
      c.eval (φ row) = c.eval (φ' row) := by
    rcases hread hmem hc with ⟨-, hsame, -⟩ | ⟨hmark, -, -⟩
    · exact hsame
    · obtain ⟨f, hf, rfl⟩ := List.mem_map.mp hmem
      have hnone := hclean _ hstamps f hf hname
      simp [readsStamp, hc, hmark, SparkValue.isNull] at hnone
  rw [Function.comp_apply, Function.comp_apply, h.lines, h'.lines]
  apply lineText_zone hJ h.columns h'.columns hfree
  · obtain ⟨cols, hcols, hstruct⟩ := sourceStruct_ok h.columns.source
    rw [hstruct]
    refine congrArg SparkValue.struct (List.map_congr_left fun e he => ?_)
    obtain ⟨name, hname, hexpr⟩ := mapM_ok_mem hcols e he
    obtain ⟨c, hc, -, hfollows⟩ := sourceExpr_follows hexpr
    obtain ⟨hmem, hkept⟩ := mem_payloadColumns.mp hname
    exact hfollows.congr _ _ (hwritten hmem (.inl hkept) hc)
  · intro d hd
    cases hname : cfg.idColumnName with
    | none =>
      rw [h.columns.noId hname] at hd
      cases hd
    | some name =>
      obtain ⟨d', hd', hsome⟩ := h.columns.id name hname
      cases hd.symm.trans hsome
      obtain ⟨c, hc, hfollows⟩ := idColumn_follows hd'
      exact hfollows.congr _ _
        (hwritten (hpre.id name (idField_of_idColumnName hname)) (.inr hname) hc)
  · exact flagged_zone hJ htrue h.columns h'.columns hpre hfree fun name hmem c hc => hread hmem hc

omit [PyFloat F] in
theorem dateNtzRewrite_ne_string {dt : SparkType} {c d : Column F} (hdt : typeHasDateOrNtz dt = true)
    (h : rewriteDateNtz r c dt = .ok d) : c.dataType ≠ .atomic .string := by
  refine Rewrite.apply_ne_string (w := dateNtzRewrite) (fun t c d ht h => ?_) rfl hdt h
  cases t with
  | date =>
    obtain ⟨days, hdays, -⟩ := bind_ok h
    rw [of_decide_eq_true (Column.function_accepts hdays).1]
    nofun
  | timestampNtz =>
    obtain ⟨year, hyear, -⟩ := bind_ok h
    rw [of_decide_eq_true (Column.function_accepts hyear).1]
    nofun
  | _ => cases ht

theorem nonfiniteRewrite_ne_string {dt : SparkType} {c d : Column F} (hdt : typeHasFloat dt = true)
    (h : nullNonfinite r c dt = .ok d) : c.dataType ≠ .atomic .string := by
  refine Rewrite.apply_ne_string (w := nonfiniteRewrite) (fun t c d ht h => ?_) rfl hdt h
  have ht : isFloat t = true := ht
  simp only [nonfiniteRewrite, if_pos ht] at h
  obtain ⟨condition, hcondition, -⟩ := bind_ok h
  intro hstring
  have haccepts := (Column.function_accepts hcondition).1
  rw [hstring] at haccepts
  cases haccepts

theorem sourceExpr_of_string {name : String} {c : Column F} (hc : Column.col r out name = .ok c)
    (hstring : c.dataType = .atomic .string) {e : String × Column F}
    (h : sourceExpr r out name = .ok e) : e = (name, c) := by
  rw [sourceExpr, hc, ok_bind] at h
  split at h
  · cases h
    rfl
  · obtain ⟨c₁, hc₁, h⟩ := bind_ok h
    obtain ⟨c₂, hc₂, h⟩ := bind_ok h
    cases h
    have hfirst : c₁ = c := by
      split at hc₁
      · rename_i hdt
        exact absurd hstring (dateNtzRewrite_ne_string hdt hc₁)
      · exact (Except.ok.inj hc₁).symm
    subst hfirst
    split at hc₂
    · rename_i hdt
      exact absurd hstring (nonfiniteRewrite_ne_string hdt hc₂)
    · cases hc₂
      rfl

theorem idColumn_of_string {name : String} {c d : Column F} (hc : Column.col r out name = .ok c)
    (hstring : c.dataType = .atomic .string) (h : idColumn r out name = .ok d) : d = c := by
  rw [idColumn, hc, ok_bind] at h
  split at h
  · split at h
    · rename_i t _ ht
      have hfloat : typeHasFloat (.atomic t) = true := ht
      exact absurd hstring (nonfiniteRewrite_ne_string hfloat h)
    · exact (Except.ok.inj h).symm
  · exact (Except.ok.inj h).symm

variable {parse : String → Option (Json F)} {json : SparkType → SparkValue F → Json F} {row : Row F}
  {text name s : String} {c : Column F}

/-- What a line has under a key of its source. -/
def lineItem (parse : String → Option (Json F)) (text key : String) : Option (Json F) :=
  match decodeBody parse (requestBody [text]) with
  | some [action] => action.source.bind (List.lookup key)
  | _ => none

theorem Shipped.lineItem_of_string (h : Shipped K r cfg schema φ out a line)
    (hK : WritesObjects K parse json) (hop : cfg.opType = "index" ∨ cfg.opType = "create")
    (hname : name ∈ payloadColumns (out.map Prod.fst) (droppedColumns cfg))
    (hc : Column.col r out name = .ok c) (hstring : c.dataType = .atomic .string)
    (hs : c.eval (φ row) = .string s) (htext : lineOf line (φ row) = some text) :
    lineItem parse text name = if a.flagged (φ row) then none else some (.str s) := by
  obtain ⟨cols, action, hcols, -, -, hdelete, hwrite, hdecode⟩ :=
    lineText_decodes hK hop h.columns ((h.lines _).symm.trans htext)
  rw [lineItem, decodeBody, requestBody, List.flatMap_singleton, hdecode []]
  cases hflagged : a.flagged (φ row) with
  | true =>
    exact congrArg (Option.bind · (List.lookup name)) (hdelete hflagged).2
  | false =>
    have hitem : ∀ e ∈ cols, e.1 = name → json e.2.dataType (e.2.eval (φ row)) = .str s := by
      intro e he hsame
      obtain ⟨name', -, hexpr⟩ := mapM_ok_mem hcols e he
      obtain ⟨-, -, hname', -⟩ := sourceExpr_follows hexpr
      obtain rfl : name' = name := hname'.symm.trans hsame
      rw [sourceExpr_of_string hc hstring hexpr, hstring, hs]
      exact hK.string s
    refine (congrArg (Option.bind · (List.lookup name)) (hwrite hflagged).2).trans
      (lookup_of_unique ?_ ?_)
    · obtain ⟨e, he, hsame⟩ := List.mem_map.mp (sourceExprs_names hcols ▸ hname)
      exact List.mem_map.mpr ⟨e, he, Prod.ext hsame (hitem e he hsame)⟩
    · intro j hj
      obtain ⟨e, he, heq⟩ := List.mem_map.mp hj
      obtain ⟨hsame, rfl⟩ := Prod.mk.inj heq
      exact hitem e he hsame

theorem Shipped.lineId_of_string (h : Shipped K r cfg schema φ out a line)
    (hK : WritesObjects K parse json) (hcast : ∀ s, K.castString (.atomic .string) (.string s) = s)
    (hop : cfg.opType = "index" ∨ cfg.opType = "create") (hid : cfg.idColumnName = some name)
    (hc : Column.col r out name = .ok c) (hstring : c.dataType = .atomic .string)
    (hs : c.eval (φ row) = .string s) (htext : lineOf line (φ row) = some text) :
    lineId parse text = some s := by
  obtain ⟨d, hd, hsome⟩ := h.columns.id name hid
  obtain rfl := idColumn_of_string hc hstring hd
  rw [h.lineId_row hK hop hsome htext, hstring, hs, hcast]

theorem Shipped.line_of_filled (h : Shipped K r cfg schema φ out a line) (hpre : Preflighted cfg out)
    (hrow : FilledCells (pathKeys schema) schema row) : ∃ text, lineOf line (φ row) = some text := by
  cases hid : cfg.idColumnName with
  | none =>
    rw [h.lines, ActionColumns.lineText, h.columns.noId hid]
    exact ⟨_, rfl⟩
  | some name =>
    obtain ⟨c, hc, hsome⟩ := h.columns.id name hid
    obtain ⟨stored, hstored, hfilled⟩ := preparedFrame_filled (h.rows [row]) hrow
    cases hstored
    exact h.lineOf_row hsome (idColumn_filled hc
      (h.traces.nameParts_subset (hpre.id name (idField_of_idColumnName hid))) hfilled)

end Lines

/-- A stamped text that is written differs between two zones in the row that is filled. -/
theorem noStampWritten_of_zoneFree {x : F} (hx : nonFinite x = false) (hJ : ReadsZone J)
    {parse : String → Option (Json F)} {json : Zone → SparkType → SparkValue F → Json F}
    (hwrites : ∀ z, WritesObjects (J z) parse (json z))
    (hcast : ∀ z s, (J z).castString (.atomic .string) (.string s) = s)
    (htrue : ∀ z, NeverTrue (J z) (pathKeys schema) x) {z z' : Zone}
    (hapart : RendersApart (J z) (J z') (pathKeys schema) x)
    (hkeys : ∀ f ∈ schema, KeysClear f.2) (hcfg : cfg.Accepted)
    (haccepted : ∀ z, ∃ lines, Lines (J z) r cfg indexExists ⟨schema, []⟩ lines)
    (hzone : ZoneFree J r cfg indexExists schema) : NoStampWritten F r cfg schema := by
  intro frame hframe f hf hwritten
  by_contra hstamp
  obtain ⟨_, ⟨out, _⟩, line, hok, hchecked, hline, -⟩ := haccepted z
  obtain ⟨_, ⟨out', _⟩, line', hok', hpre', hline', -⟩ := haccepted z'
  obtain ⟨φ, a, h⟩ := shipped_of_ok hok hline
  obtain ⟨φ', a', h'⟩ := shipped_of_ok hok' hline'
  have hbase : CellsTyped OfType schema (filledRow (pathKeys schema) x schema) :=
    filledRow_typed fun f _ => f.2.filled_typed _ x
  generalize hrow : filledRow (pathKeys schema) x schema = base at hbase
  obtain ⟨rfl, stamps, hstamps, hmarked⟩ :=
    preparedFrame_marked (Unstamped (J z) (pathKeys schema) x)
      (writeRules_apart hJ hcast hapart)
      (fun c d name row hname hget hc =>
        ⟨Column.getItem_keysClear hget hc.1, Unstamped.items c d name row hname hget hc.2⟩)
      Unstamped.items (fun dt v hv => hv.2)
      (fun dt c d row hdt hnames hd hc => hc.rewritten hdt hnames hd) hbase.shaped.length_eq
      (fun i g hi => ⟨hkeys g (List.mem_of_getElem? hi), .inl (hrow ▸ filledRow_getD hi)⟩)
      (h.rows [base]) (h'.rows [base])
  cases hframe.symm.trans hstamps
  have hread {name : String} (hmem : name ∈ out'.map Prod.fst) {c : Column F}
      (hc : Column.col r out' name = .ok c) :=
    hmarked.col Unstamped.items (h.traces.nameParts_subset hmem) hc
  have hpre := preflight_ok hchecked
  have hunflagged : a.flagged (φ base) = false := by
    apply not_flagged (htrue z) h.columns hpre
    intro name hmem c hc
    rcases hread hmem hc with ⟨-, -, hv⟩ | ⟨-, hstring, hv⟩
    · exact .inl hv
    · exact .inr ⟨hstring, hv.2.1⟩
  obtain ⟨text, htext⟩ := h.line_of_filled hpre
    (hrow ▸ filledRow_filled fun f _ => f.2.filled_filled hx)
  have hsame := hzone z z' [base] _ _ (List.forall_mem_singleton.mpr hbase)
    ⟨_, line, h.rows _, hchecked, hline, rfl⟩ ⟨_, line', h'.rows _, hpre', hline', rfl⟩
  have htext' : lineOf line' (φ' base) = some text := by
    rw [← htext]
    exact (List.cons.inj hsame).1.symm
  -- the mark under the name is that of a text which differs
  rw [readsStamp] at hstamp
  split at hstamp
  · rename_i c hc
    have hmem := List.mem_map_of_mem (f := Prod.fst) hf
    rcases hread hmem hc with ⟨hmark, -, -⟩ | ⟨-, hstring, ⟨s, s', hne, hs, hs'⟩, -, -⟩
    · simp [hmark, SparkValue.isNull] at hstamp
    · rcases hwritten with hkept | hid
      · have hitem := h.lineItem_of_string (hwrites z) hcfg.opType
          (mem_payloadColumns.mpr ⟨hmem, hkept⟩) hc hstring hs htext
        rw [h'.lineItem_of_string (hwrites z') hcfg.opType (mem_payloadColumns.mpr ⟨hmem, hkept⟩) hc
          hstring hs' htext', hunflagged, if_neg Bool.false_ne_true] at hitem
        split at hitem
        · cases hitem
        · exact hne (Json.str.inj (Option.some.inj hitem)).symm
      · have hstored := h.lineId_of_string (hwrites z) (hcast z) hcfg.opType hid hc hstring hs htext
        rw [h'.lineId_of_string (hwrites z') (hcast z') hcfg.opType hid hc hstring hs' htext']
          at hstored
        exact hne (Option.some.inj hstored).symm
  · exact hstamp rfl

/-- The lines are the same in all zones if and only if no name that is written is a text which
`sanitize_for_arrow` has made of a timestamp. -/
theorem zone_free_iff {x : F} (hx : nonFinite x = false) (hJ : ReadsZone J)
    {parse : String → Option (Json F)} {json : Zone → SparkType → SparkValue F → Json F}
    (hwrites : ∀ z, WritesObjects (J z) parse (json z))
    (hcast : ∀ z s, (J z).castString (.atomic .string) (.string s) = s)
    (htrue : ∀ z, NeverTrue (J z) (pathKeys schema) x)
    (hapart : ∃ z z', RendersApart (J z) (J z') (pathKeys schema) x)
    (hkeys : ∀ f ∈ schema, KeysClear f.2) (hcfg : cfg.Accepted)
    (haccepted : ∀ z, ∃ lines, Lines (J z) r cfg indexExists ⟨schema, []⟩ lines) :
    ZoneFree J r cfg indexExists schema ↔ NoStampWritten F r cfg schema := by
  obtain ⟨z, z', hapart⟩ := hapart
  constructor
  · exact noStampWritten_of_zoneFree hx hJ hwrites hcast htrue hapart hkeys hcfg haccepted
  · exact zoneFree_of_noStampWritten hJ hcast htrue hkeys

section Example

mutual

/-- The JSON of a value, with the microseconds of the local time for a timestamp. -/
def localJson (offset : Int) : SparkType → SparkValue F → Json F
  | .struct fields, .struct cells => .dict (localItems offset fields cells)
  | .array element, .array xs => .list (xs.map (localJson offset element))
  | .map _ value, .map entries =>
    .dict (entries.map fun e => (e.1.idText, localJson offset value e.2))
  | .atomic .timestamp, .timestamp micros => .str (String.ofList (Json.intText (micros + offset)))
  | .atomic .bigint, .integral i => .int i
  | .atomic (.other _), .other text => .str text
  | .atomic .string, .string s => .str s
  | _, _ => .null

def localItems (offset : Int) : Schema → List (SparkValue F) → List (String × Json F)
  | (name, dt) :: fields, v :: cells => (name, localJson offset dt v) :: localItems offset fields cells
  | _, _ => []

end

omit [PyFloat F] in
theorem localItems_eq (offset : Int) (fields : Schema) (cells : List (SparkValue F)) :
    localItems offset fields cells =
      List.zipWith (fun f v => (f.1, localJson offset f.2 v)) fields cells := by
  induction fields generalizing cells with
  | nil => cases cells <;> simp [localItems]
  | cons f fields ih =>
    cases cells with
    | nil => simp [localItems]
    | cons v cells => rw [localItems, List.zipWith_cons_cons, ih]

omit [PyFloat F] in
theorem localItems_zone {z z' : Int} {fields : Schema}
    (ih : ∀ fd ∈ fields, typeHasTimestamp fd.2 = false →
      ∀ v : SparkValue F, localJson z fd.2 v = localJson z' fd.2 v)
    (hfields : ∀ fd ∈ fields, typeHasTimestamp fd.2 = false) (cells : List (SparkValue F)) :
    localItems z fields cells = localItems z' fields cells := by
  rw [localItems_eq, localItems_eq]
  induction fields generalizing cells with
  | nil => rfl
  | cons fd fields ihfields =>
    cases cells with
    | nil => rfl
    | cons v cells =>
      rw [List.zipWith_cons_cons, List.zipWith_cons_cons,
        ih fd List.mem_cons_self (hfields fd List.mem_cons_self),
        ihfields (fun fd hfd => ih fd (List.mem_cons_of_mem _ hfd))
          fun fd hfd => hfields fd (List.mem_cons_of_mem _ hfd)]

omit [PyFloat F] in
theorem localJson_zone (z z' : Int) {dt : SparkType} (hdt : typeHasTimestamp dt = false)
    (v : SparkValue F) : localJson z dt v = localJson z' dt v := by
  induction dt generalizing v with
  | atomic t =>
    cases t with
    | timestamp => cases hdt
    | _ => cases v <;> rfl
  | array element ih =>
    cases v with
    | array xs => rw [localJson, localJson, funext (ih hdt)]
    | _ => rfl
  | map key value _ ih =>
    obtain ⟨-, hvalue⟩ := Bool.or_eq_false_iff.mp hdt
    cases v with
    | map entries => rw [localJson, localJson, funext (ih hvalue)]
    | _ => rfl
  | struct fields ih =>
    cases v with
    | struct cells =>
      rw [localJson, localJson,
        localItems_zone ih (fieldsHave_eq_false.mp hdt)]
    | _ => rfl

omit [PyFloat F] in
theorem localItems_filled_inj {keys : List String} {x : F} {z z' : Int} {fields : Schema}
    (h : localItems z fields (filledRow keys x fields) =
      localItems z' fields (filledRow keys x fields)) :
    ∀ fd ∈ fields, localJson z fd.2 (fd.2.filled keys x) = localJson z' fd.2 (fd.2.filled keys x) := by
  induction fields with
  | nil => exact fun _ hfd => nomatch hfd
  | cons fd fields ih =>
    obtain ⟨hfirst, hrest⟩ := List.cons.inj h
    exact List.forall_mem_cons.mpr ⟨congrArg Prod.snd hfirst, ih hrest⟩

omit [PyFloat F] in
theorem localJson_apart {keys : List String} {x : F} {dt : SparkType} (hkeys : KeysClear dt)
    (hdt : typeHasTimestamp dt = true) :
    localJson 0 dt (dt.filled keys x) ≠ localJson 1 dt (dt.filled keys x) := by
  intro hsame
  induction dt with
  | atomic t =>
    obtain rfl : t = .timestamp := of_decide_eq_true hdt
    exact absurd (Json.str.inj hsame) (by decide)
  | array element ih =>
    exact ih hkeys hdt (List.cons.inj (Json.list.inj hsame)).1
  | map key value _ ih =>
    have hvalue : (typeHasTimestamp key || typeHasTimestamp value) = true := hdt
    rw [hkeys.1, Bool.false_or] at hvalue
    refine ih hkeys.2 hvalue ?_
    rw [SparkType.filled, localJson, localJson] at hsame
    have hitems := Json.dict.inj hsame
    split at hitems
    · rw [List.map_map, List.map_map] at hitems
      exact congrArg Prod.snd (List.map_inj_left.mp hitems "" (List.mem_dedup.mpr List.mem_cons_self))
    · exact congrArg Prod.snd (List.cons.inj hitems).1
  | struct fields ih =>
    have hsome : ¬∀ fd ∈ fields, typeHasTimestamp fd.2 = false := fun hnone => by
      have hfree : typeHasTimestamp (.struct fields) = false := fieldsHave_eq_false.mpr hnone
      rw [hfree] at hdt
      cases hdt
    apply hsome
    intro fd hfd
    by_contra hstamped
    exact ih fd hfd (fieldKeysClear_iff.mp hkeys fd hfd) (by simpa using hstamped)
      (localItems_filled_inj (Json.dict.inj hsame) fd hfd)

omit [PyFloat F] in
theorem localJson_ne_bool (offset : Int) (dt : SparkType) (v : SparkValue F) (b : Bool) :
    localJson offset dt v ≠ .bool b := by
  rw [localJson.eq_def]
  split <;> nofun

/-- A string is cast to itself, and anything else to its JSON. -/
def localCast [Json.FloatText F] (offset : Int) : SparkType → SparkValue F → String
  | .atomic .string, .string s => s
  | dt, v => String.ofList (localJson offset dt v).print

def localFunctions (F : Type) [Json.FloatText F] (offset : Int) : SparkFunctions F where
  toJson dt v := String.ofList (localJson offset dt v).print
  toJsonNoOptions dt v := String.ofList (localJson offset dt v).print
  castString := localCast offset
  equalsTrue
    | .atomic .string => some fun
      | .string s => some (s = "true")
      | _ => none
    | _ => none

section Functions

variable [Json.FloatText F] {keys : List String} {x : F}

omit [PyFloat F] in
theorem print_inj {j j' : Json F} (h : String.ofList j.print = String.ofList j'.print) : j = j' := by
  have hparse := congrArg (fun text : String => (parseJson text : Option (Json F))) h
  simp only [parseJson, String.toList_ofList, Json.parse_print] at hparse
  exact Option.some.inj hparse

omit [PyFloat F] in
theorem localCast_of_ne (offset : Int) {dt : SparkType} (hdt : dt ≠ .atomic .string)
    (v : SparkValue F) : localCast offset dt v = String.ofList (localJson offset dt v).print := by
  rw [localCast]
  intro s hstring
  exact absurd hstring hdt

omit [PyFloat F] in
theorem localFunctions_readsZone : ReadsZone (localFunctions F) where
  toJson z z' dt v hdt := by simp only [localFunctions, localJson_zone z z' hdt]
  toJsonNoOptions z z' dt v hdt := by simp only [localFunctions, localJson_zone z z' hdt]
  castString z z' dt v hdt := by
    dsimp only [localFunctions]
    unfold localCast
    split
    · rfl
    · rw [localJson_zone z z' hdt]
  equalsTrue _ _ _ _ := rfl

omit [PyFloat F] in
theorem localFunctions_apart :
    RendersApart (localFunctions F 0) (localFunctions F 1) keys x := by
  intro dt hkeys hdt scalar hsame
  have hpresent := dt.filled_ne_null keys x
  have hstring : dt ≠ .atomic .string := by
    rintro rfl
    cases hdt
  rw [written_of_ne hpresent, written_of_ne hpresent] at hsame
  have htext := SparkValue.string.inj hsame
  simp only [localFunctions, localCast_of_ne _ hstring, ite_self] at htext
  exact localJson_apart hkeys hdt (print_inj htext)

omit [PyFloat F] in
theorem localFunctions_neverTrue (offset : Int) : NeverTrue (localFunctions F offset) keys x where
  value dt f hf := by
    cases dt with
    | atomic t =>
      cases t with
      | string =>
        cases hf
        simp [SparkType.filled, AtomicType.sample]
      | _ => cases hf
    | _ => cases hf
  text f scalar dt v hf hv := by
    cases hf
    have hprint : String.ofList (localJson offset dt v).print ≠ "true" := fun htrue =>
      localJson_ne_bool offset dt v true (print_inj (htrue.trans (by rfl)))
    by_cases hnull : v = .null
    · subst hnull
      intro htrue
      cases htrue
    · rw [written_of_ne hnull]
      have hne : (if scalar then localCast offset dt v
          else String.ofList (localJson offset dt v).print) ≠ "true" := by
        by_cases hstring : dt = .atomic .string
        · subst hstring
          rcases hv with hstamped | rfl
          · cases hstamped
          · cases scalar with
            | false => exact hprint
            | true => simp [localCast, SparkType.filled, AtomicType.sample]
        · rwa [localCast_of_ne offset hstring, ite_self]
      exact fun htrue => hne (of_decide_eq_true (Option.some.inj htrue))

end Functions

theorem localFunctions_writesObjects (F : Type) [Json.FloatText F] (offset : Int) :
    WritesObjects (localFunctions F offset) parseJson (localJson offset) where
  newline fields cells := by
    rw [localFunctions, String.toList_ofList]
    exact Json.newline_not_mem_print _
  parses fields cells := by
    simp only [parseJson, localFunctions, String.toList_ofList, Json.parse_print]
  struct fields cells := by rw [localJson, localItems_eq]
  string s := rfl

/-- A struct with an interval in it, which is made a text. -/
def startType : SparkType :=
  .struct [("from", .atomic .timestamp), ("d", .atomic (.other "interval"))]

def spanConfig : EsWriteConfig :=
  { hosts := "https://es:9200", apiKey := some "key", index := "spans" }

/-- The span is dropped, and a name in backticks reads another column. -/
def quotedSchema : Schema :=
  [("at", .atomic .timestamp), ("`at`", .atomic .bigint), ("span", startType)]

def droppedConfig : EsWriteConfig := { spanConfig with dropFields := ["span"] }

theorem hostile_quoted :
    hostileColumns quotedSchema = [("span", "struct<from:timestamp,d:interval>")] := by
  decide +kernel

def quotedOut : Schema :=
  [("at", .atomic .bigint), ("`at`", .atomic .bigint), ("span", .atomic .string)]

theorem stamped_quoted : stampedFrame FewFloats .caseSensitive quotedSchema =
    .ok ⟨quotedOut, [[.null, .null, .string ""]]⟩ := by
  rw [stampedFrame, hostile_quoted, rewriteColumns, List.foldlM_cons]
  rfl

theorem zone_free_spans :
    ZoneFree (localFunctions FewFloats) .caseSensitive droppedConfig true quotedSchema := by
  have hprepared (z : Int) : preparedFrame (localFunctions FewFloats z) .caseSensitive
      ⟨quotedSchema, []⟩ = .ok ⟨quotedOut, []⟩ := by
    have hsanitized : sanitizeForArrow (localFunctions FewFloats z) .caseSensitive
        ⟨quotedSchema, []⟩ = .ok ⟨[("at", .atomic .timestamp), ("`at`", .atomic .bigint),
          ("span", .atomic .string)], []⟩ := by
      rw [sanitizeForArrow, hostile_quoted, rewriteColumns, List.foldlM_cons]
      rfl
    rw [preparedFrame, hsanitized]
    rfl
  refine (zone_free_iff (x := FewFloats.half) rfl localFunctions_readsZone
    (localFunctions_writesObjects FewFloats) (fun _ _ => rfl) localFunctions_neverTrue
    ⟨0, 1, localFunctions_apart⟩ (by simp [quotedSchema, startType, KeysClear, FieldKeysClear])
    (by decide) (fun z => ⟨_, _, _, hprepared z, rfl, rfl, rfl⟩)).mpr ?_
  intro frame hframe f hf hwritten
  cases hframe.symm.trans stamped_quoted
  simp only [quotedOut, List.mem_cons, List.not_mem_nil, or_false] at hf
  rcases hf with rfl | rfl | rfl
  · rfl
  · rfl
  · exact absurd hwritten (by decide)

def startSchema : Schema := [("at", .atomic .timestamp), ("span", startType)]

theorem hostile_start :
    hostileColumns startSchema = [("span", "struct<from:timestamp,d:interval>")] := by
  decide +kernel

def startRow : Row FewFloats :=
  [.timestamp 0, .struct [.timestamp 0, .other "INTERVAL '1' DAY"]]

/-- The text that a span with a start is made. -/
def startText (z : Int) : SparkValue FewFloats :=
  .string ((localFunctions FewFloats z).toJsonNoOptions startType
    (.struct [.timestamp 0, .other "INTERVAL '1' DAY"]))

theorem startRow_typed : CellsTyped OfType startSchema startRow :=
  ⟨_, _, rfl, .inr trivial, _, _, rfl,
    .inr ⟨_, rfl, _, _, rfl, .inr trivial, _, _, rfl, .inr trivial, rfl⟩, rfl⟩

/-- The start of a span is written in the zone of the session. -/
theorem span_start_in_zone : spanConfig.Accepted ∧
    ¬ZoneFree (localFunctions FewFloats) .caseSensitive spanConfig true startSchema := by
  refine ⟨by decide, ?_⟩
  intro h
  have hprepared (z : Int) : preparedFrame (localFunctions FewFloats z) .caseSensitive
      ⟨startSchema, [startRow]⟩ = .ok ⟨[("at", .atomic .bigint), ("span", .atomic .string)],
        [[.integral 0, startText z]]⟩ := by
    have hsanitized : sanitizeForArrow (localFunctions FewFloats z) .caseSensitive
        ⟨startSchema, [startRow]⟩ = .ok ⟨[("at", .atomic .timestamp), ("span", .atomic .string)],
          [[.timestamp 0, startText z]]⟩ := by
      rw [sanitizeForArrow, hostile_start, rewriteColumns, List.foldlM_cons]
      rfl
    rw [preparedFrame, hsanitized]
    rfl
  have hlines := h 0 3600000000 _ _ _ (List.forall_mem_singleton.mpr startRow_typed)
    ⟨_, _, hprepared 0, rfl, rfl, rfl⟩ ⟨_, _, hprepared 3600000000, rfl, rfl, rfl⟩
  exact absurd hlines (by decide +kernel)

end Example

end EsConnector
