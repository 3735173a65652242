import EsConnector.DocumentIds

namespace EsConnector
set_option autoImplicit true

variable {F Zone : Type} {r : Resolver}

section Types

theorem typeHasTimestamp_field {fields : Schema} (h : fieldsHave isTimestamp true fields = false)
    {name : String} {x : Nat × SparkType} (hx : Column.fieldOf r fields name = .ok x) :
    typeHasTimestamp x.2 = false := by
  obtain ⟨f, hi, hdt⟩ := fieldOf_getElem? hx
  exact hdt ▸ fieldsHave_eq_false.mp h f (List.mem_of_getElem? hi)

theorem Column.getItem_timestampFree {c d : Column F} {name : String}
    (h : c.getItem r name = .ok d) (hc : typeHasTimestamp c.dataType = false) :
    typeHasTimestamp d.dataType = false := by
  rw [Column.getItem] at h
  split at h
  · rename_i hfields
    rw [hfields] at hc
    obtain ⟨x, hx, h⟩ := bind_ok h
    cases h
    exact typeHasTimestamp_field hc hx
  · rename_i hfields
    rw [hfields] at hc
    obtain ⟨x, hx, h⟩ := bind_ok h
    cases h
    exact typeHasTimestamp_field hc hx
  · rename_i element hmap
    rw [hmap] at hc
    cases h
    have hparts : (false || typeHasTimestamp element) = false := hc
    exact (Bool.or_eq_false_iff.mp hparts).2
  · cases h

theorem Column.getItems_timestampFree {c d : Column F} {names : List String}
    (h : names.foldlM (Column.getItem r) c = .ok d) (hc : typeHasTimestamp c.dataType = false) :
    typeHasTimestamp d.dataType = false := by
  induction names generalizing c with
  | nil =>
    cases h
    exact hc
  | cons name names ih =>
    rw [List.foldlM_cons] at h
    obtain ⟨e, he, h⟩ := bind_ok h
    exact ih h (Column.getItem_timestampFree he hc)

variable {w : Rewrite F}

theorem applyFields_timestampFree {fields : Schema}
    (ih : ∀ fd ∈ fields, ∀ c d : Column F, w.apply r fd.2 c = .ok d →
      typeHasTimestamp c.dataType = false → typeHasTimestamp d.dataType = false)
    {c : Column F} (hc : typeHasTimestamp c.dataType = false) {cols : List (String × Column F)}
    (h : w.applyFields r fields c = .ok cols) :
    fieldsHave isTimestamp true (cols.map fun e => (e.1, e.2.dataType)) = false := by
  induction fields generalizing cols with
  | nil =>
    cases h
    rfl
  | cons fd fields ihfields =>
    obtain ⟨x, field, rest, hx, hfield, hrest, rfl⟩ := Rewrite.applyFields_cons_ok h
    have hfree := Column.getItem_timestampFree hx hc
    refine Bool.or_eq_false_iff.mpr ⟨?_,
      ihfields (fun fd hfd => ih fd (List.mem_cons_of_mem _ hfd)) hrest⟩
    split at hfield
    · exact ih fd List.mem_cons_self _ _ hfield hfree
    · cases hfield
      exact hfree

theorem Rewrite.apply_timestampFree
    (hw : ∀ t (c d : Column F), w.leaf t c = .ok d → typeHasTimestamp c.dataType = false →
      typeHasTimestamp d.dataType = false) {dt : SparkType} {c d : Column F}
    (h : w.apply r dt c = .ok d) (hc : typeHasTimestamp c.dataType = false) :
    typeHasTimestamp d.dataType = false := by
  induction dt generalizing c d with
  | atomic t => exact hw t c d h hc
  | array element ih =>
    obtain ⟨_, body, htype, hbody, rfl⟩ := Rewrite.apply_array_ok h
    rw [htype] at hc
    have hfree : typeHasTimestamp body.dataType = false := ih hbody hc
    exact hfree
  | map key value _ ih =>
    obtain ⟨_, _, body, htype, hbody, rfl⟩ := Rewrite.apply_map_ok h
    rw [htype] at hc
    obtain ⟨hkey, hvalue⟩ := Bool.or_eq_false_iff.mp hc
    exact Bool.or_eq_false_iff.mpr ⟨hkey, ih hbody hvalue⟩
  | struct fields ih =>
    obtain ⟨cols, hcols, htype, -, -⟩ := Rewrite.apply_struct_ok h
    rw [htype]
    exact applyFields_timestampFree (fun fd hfd _ _ => ih fd hfd) hc hcols

theorem dateNtzLeaf_timestampFree (t : AtomicType) (c d : Column F)
    (h : dateNtzRewrite.leaf t c = .ok d) (hc : typeHasTimestamp c.dataType = false) :
    typeHasTimestamp d.dataType = false := by
  cases t with
  | date =>
    obtain ⟨days, -, h⟩ := bind_ok h
    obtain ⟨long, -, h⟩ := bind_ok h
    obtain ⟨factor, -, h⟩ := bind_ok h
    rw [Column.mul] at h
    split at h
    · cases h
      rfl
    · cases h
  | timestampNtz =>
    obtain ⟨year, -, h⟩ := bind_ok h
    obtain ⟨month, -, h⟩ := bind_ok h
    obtain ⟨day, -, h⟩ := bind_ok h
    obtain ⟨hour, -, h⟩ := bind_ok h
    obtain ⟨minute, -, h⟩ := bind_ok h
    obtain ⟨second, -, h⟩ := bind_ok h
    rw [Column.function_eq h]
    rfl
  | _ =>
    cases h
    exact hc

theorem nonfiniteLeaf_timestampFree [PyFloat F] (t : AtomicType) (c d : Column F)
    (h : nonfiniteRewrite.leaf t c = .ok d) (hc : typeHasTimestamp c.dataType = false) :
    typeHasTimestamp d.dataType = false := by
  simp only [nonfiniteRewrite] at h
  split at h
  · obtain ⟨condition, -, h⟩ := bind_ok h
    obtain ⟨htype, hbranches, -⟩ := Column.whenOtherwise_ok h
    rw [htype, hbranches]
    exact hc
  · cases h
    exact hc

theorem sourceExpr_timestampFree [PyFloat F] {schema : Schema} {name : String}
    {e : String × Column F} (h : sourceExpr r schema name = .ok e)
    (hcol : ∀ c : Column F, Column.col r schema name = .ok c → typeHasTimestamp c.dataType = false) :
    typeHasTimestamp e.2.dataType = false := by
  obtain ⟨c, hc, h⟩ := bind_ok h
  have hfree := hcol c hc
  split at h
  · cases h
    exact hfree
  · obtain ⟨c₁, hc₁, h⟩ := bind_ok h
    obtain ⟨c₂, hc₂, h⟩ := bind_ok h
    cases h
    have hfirst : typeHasTimestamp c₁.dataType = false := by
      split at hc₁
      · exact Rewrite.apply_timestampFree dateNtzLeaf_timestampFree hc₁ hfree
      · cases hc₁
        exact hfree
    split at hc₂
    · exact Rewrite.apply_timestampFree nonfiniteLeaf_timestampFree hc₂ hfirst
    · cases hc₂
      exact hfirst

theorem idColumn_timestampFree [PyFloat F] {schema : Schema} {name : String} {d : Column F}
    (h : idColumn r schema name = .ok d)
    (hcol : ∀ c : Column F, Column.col r schema name = .ok c → typeHasTimestamp c.dataType = false) :
    typeHasTimestamp d.dataType = false := by
  obtain ⟨c, hc, h⟩ := bind_ok h
  have hfree := hcol c hc
  split at h
  · split at h
    · exact nonfiniteLeaf_timestampFree _ _ _ h hfree
    · cases h
      exact hfree
  · cases h
    exact hfree

theorem mapTypes_timestampFree {dt : SparkType} (hdt : KeysClear dt) :
    typeHasTimestamp (mapTypes (longWhere isTimestamp) dt) = false := by
  induction dt with
  | atomic t => cases t <;> rfl
  | array element ih => exact ih hdt
  | map key value _ ih => exact Bool.or_eq_false_iff.mpr ⟨hdt.1, ih hdt.2⟩
  | struct fields ih =>
    apply fieldsHave_eq_false.mpr
    intro fd hfd
    rw [mapFields_eq_map] at hfd
    obtain ⟨fd', hfd', rfl⟩ := List.mem_map.mp hfd
    exact ih fd' hfd' (fieldKeysClear_iff.mp hdt fd' hfd')

theorem keysClear_of_timestampFree {dt : SparkType} (h : typeHasTimestamp dt = false) :
    KeysClear dt := by
  induction dt with
  | atomic t => trivial
  | array element ih => exact ih h
  | map key value _ ih =>
    obtain ⟨hkey, hvalue⟩ := Bool.or_eq_false_iff.mp h
    exact ⟨hkey, ih hvalue⟩
  | struct fields ih =>
    exact fieldKeysClear_iff.mpr fun fd hfd => ih fd hfd (fieldsHave_eq_false.mp h fd hfd)

theorem keysClear_field {fields : Schema} (h : FieldKeysClear fields) {name : String}
    {x : Nat × SparkType} (hx : Column.fieldOf r fields name = .ok x) : KeysClear x.2 := by
  obtain ⟨f, hi, hdt⟩ := fieldOf_getElem? hx
  exact hdt ▸ fieldKeysClear_iff.mp h f (List.mem_of_getElem? hi)

theorem Column.getItem_keysClear {c d : Column F} {name : String} (h : c.getItem r name = .ok d)
    (hc : KeysClear c.dataType) : KeysClear d.dataType := by
  rw [Column.getItem] at h
  split at h
  · rename_i hfields
    rw [hfields] at hc
    obtain ⟨x, hx, h⟩ := bind_ok h
    cases h
    exact keysClear_field hc hx
  · rename_i hfields
    rw [hfields] at hc
    obtain ⟨x, hx, h⟩ := bind_ok h
    cases h
    have hclear : FieldKeysClear _ := hc
    exact keysClear_field hclear hx
  · rename_i element hmap
    rw [hmap] at hc
    cases h
    exact hc.2
  · cases h

theorem Column.col_keysClear {schema : Schema} (hschema : ∀ f ∈ schema, KeysClear f.2)
    {name : String} {c : Column F} (hc : Column.col r schema name = .ok c) : KeysClear c.dataType := by
  obtain ⟨part, nested, f, i, -, hone, hitems⟩ := col_parts hc
  obtain ⟨hi, -⟩ := mem_candidates.mp (hone ▸ List.mem_singleton.mpr rfl)
  have hf : KeysClear (Column.cellAt f i : Column F).dataType := hschema f (List.mem_of_getElem? hi)
  clear hone hi hc
  generalize (Column.cellAt f i : Column F) = top at hitems hf
  induction nested generalizing top with
  | nil =>
    cases hitems
    exact hf
  | cons item nested ih =>
    rw [List.foldlM_cons] at hitems
    obtain ⟨e, he, hitems⟩ := bind_ok hitems
    exact ih e hitems (Column.getItem_keysClear he hf)

/-- A column of timestamps has none when it has been rewritten. -/
theorem timestampRewrite_timestampFree {dt : SparkType} (hdt : typeHasTimestamp dt = true)
    (hkeys : KeysClear dt) {c d : Column F} (h : timestampRewrite.apply r dt c = .ok d)
    (hc : KeysClear c.dataType) : typeHasTimestamp d.dataType = false := by
  induction dt generalizing c d with
  | atomic t =>
    have ht : isTimestamp t = true := hdt
    simp only [Rewrite.apply, timestampRewrite, if_pos ht] at h
    rw [Column.function_eq h]
    rfl
  | array element ih =>
    obtain ⟨_, body, htype, hbody, rfl⟩ := Rewrite.apply_array_ok h
    rw [htype] at hc
    have hfree : typeHasTimestamp body.dataType = false := ih hdt hkeys hbody hc
    exact hfree
  | map key value _ ih =>
    obtain ⟨_, _, body, htype, hbody, rfl⟩ := Rewrite.apply_map_ok h
    rw [htype] at hc
    have hparts : (typeHasTimestamp key || typeHasTimestamp value) = true := hdt
    rw [hkeys.1, Bool.false_or] at hparts
    exact Bool.or_eq_false_iff.mpr ⟨hc.1, ih hparts hkeys.2 hbody hc.2⟩
  | struct fields _ =>
    -- both branches of the rebuilt struct have the type of its null
    obtain ⟨cols, -, htype, hnull, -⟩ := Rewrite.apply_struct_ok h
    have hepoch : epochStructType (.struct fields) = (Column.struct cols).dataType := hnull
    rw [htype, ← hepoch, epochStructType_eq_mapTypes.mpr hkeys]
    exact mapTypes_timestampFree hkeys

theorem rewriteTimestamps_timestampFree {steps : Schema}
    (hsteps : ∀ s ∈ steps, typeHasTimestamp s.2 = true ∧ KeysClear s.2) {df out : DataFrame F}
    (hdf : ∀ f ∈ df.schema, KeysClear f.2 ∧ (typeHasTimestamp f.2 = true → f ∈ steps))
    (hok : rewriteColumns r (fun dt c => rewriteTimestamps r c dt) steps df = .ok out) :
    ∀ f ∈ out.schema, typeHasTimestamp f.2 = false := by
  induction steps generalizing df with
  | nil =>
    cases hok
    intro f hf
    exact Bool.eq_false_iff.mpr fun hstamped => nomatch (hdf f hf).2 hstamped
  | cons s steps ih =>
    obtain ⟨c, d, hc, hd, hok⟩ := rewriteColumns_cons_ok hok
    obtain ⟨hstamped, hkeys⟩ := hsteps s List.mem_cons_self
    have hfree := timestampRewrite_timestampFree hstamped hkeys hd
      (Column.col_keysClear (fun f hf => (hdf f hf).1) hc)
    refine ih (fun s hs => hsteps s (List.mem_cons_of_mem _ hs)) (fun f hf => ?_) hok
    obtain ⟨i, hi⟩ := List.getElem?_of_mem hf
    rcases withColumn_cell hi with ⟨hi, hdiff, -⟩ | ⟨rfl, -, -⟩
    · obtain ⟨hclear, hleft⟩ := hdf f (List.mem_of_getElem? hi)
      refine ⟨hclear, fun hstamped => (List.mem_cons.mp (hleft hstamped)).resolve_left ?_⟩
      intro rfl
      rw [r.refl] at hdiff
      cases hdiff
    · refine ⟨keysClear_of_timestampFree hfree, fun hstamped => ?_⟩
      rw [hfree] at hstamped
      cases hstamped

/-- The frame that the lines are built from has no timestamps. -/
theorem preparedFrame_timestampFree {J : SparkFunctions F} {df out : DataFrame F}
    (hkeys : ∀ f ∈ df.schema, KeysClear f.2) (hok : preparedFrame J r df = .ok out) :
    ∀ f ∈ out.schema, typeHasTimestamp f.2 = false := by
  obtain ⟨middle, hmiddle, hok⟩ := bind_ok hok
  have hclear : ∀ f ∈ middle.schema, KeysClear f.2 :=
    rewriteColumns_types (fun text c d hd => by rw [(sanitizeColumn_string hd).1]; trivial) hmiddle hkeys
  have hok : normalizeTimestampsForUtc r ⟨middle.schema, middle.rows⟩ = .ok out := hok
  rw [normalizeTimestamps_eq] at hok
  refine rewriteTimestamps_timestampFree (fun s hs => ?_) (fun f hf => ⟨hclear f hf, fun hstamped =>
    List.mem_filter.mpr ⟨hf, hstamped⟩⟩) hok
  obtain ⟨hmem, hstamped⟩ := List.mem_filter.mp hs
  exact ⟨hstamped, hclear s hmem⟩

end Types

end EsConnector
