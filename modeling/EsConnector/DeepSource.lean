import EsConnector.LiteralColumns

namespace EsConnector
set_option autoImplicit true

variable {F : Type} {P : AtomicType → SparkValue F → Prop} {r : Resolver} {w : Rewrite F}
  {h g : AtomicType → AtomicType} {f : AtomicType → SparkValue F → SparkValue F}

theorem getItem_member {c : Column F} {fields : Schema} (hc : c.dataType = .struct fields)
    {fd : String × SparkType} (hfd : fd ∈ fields) :
    (∃ x, c.getItem r fd.1 = .ok x ∧ x.dataType = fd.2) ∨
      c.getItem r fd.1 = .error (.ambiguousField fd.1) := by
  obtain ⟨i, hi⟩ := List.getElem?_of_mem hfd
  have hself := mem_candidates.mpr ⟨hi, r.refl fd.1⟩
  rw [Column.getItem, hc]
  dsimp only
  rw [Column.fieldOf]
  split
  · rename_i hnone
    rw [hnone] at hself
    exact absurd hself List.not_mem_nil
  · rename_i hone
    rw [hone, List.mem_singleton] at hself
    cases hself
    exact .inl ⟨_, rfl, rfl⟩
  · exact .inr rfl

/-- Fields are not rebuilt where a name is ambiguous, or where one of them is not rewritten. -/
theorem Rewrite.applyFields_error {c : Column F} {all : Schema}
    (hc : c.dataType = .struct (mapFields h all)) {fields : Schema} {e : AnalysisException}
    (hsub : fields ⊆ all) (herr : w.applyFields r fields c = .error e) :
    ∃ fd ∈ fields, e = .ambiguousField fd.1 ∨
      ∃ x : Column F, x.dataType = mapTypes h fd.2 ∧ w.apply r fd.2 x = .error e := by
  induction fields with
  | nil => cases herr
  | cons fd fields ih =>
    obtain ⟨hfd, hrest⟩ := List.cons_subset.mp hsub
    have hmember : (fd.1, mapTypes h fd.2) ∈ mapFields h all := by
      rw [mapFields_eq_map]
      exact List.mem_map_of_mem hfd
    rw [Rewrite.applyFields] at herr
    rcases bind_error herr with hx | ⟨x, hx, herr⟩
    · rcases getItem_member (r := r) hc hmember with ⟨x, hx', -⟩ | hx'
      · cases hx.symm.trans hx'
      · cases hx.symm.trans hx'
        exact ⟨fd, List.mem_cons_self, .inl rfl⟩
    · rcases bind_error herr with hfield | ⟨field, -, herr⟩
      · split at hfield
        · refine ⟨fd, List.mem_cons_self, .inr ⟨x, ?_, hfield⟩⟩
          rcases getItem_member (r := r) hc hmember with ⟨x', hx', htype⟩ | hx'
          · cases hx.symm.trans hx'
            exact htype
          · cases hx.symm.trans hx'
        · cases hfield
      · rcases bind_error herr with hcols | ⟨cols, -, herr⟩
        · obtain ⟨fd', hfd', hwhy⟩ := ih hrest hcols
          exact ⟨fd', List.mem_cons_of_mem _ hfd', hwhy⟩
        · cases herr

/-- A rewrite whose null branches have the right type is rejected for an ambiguous name only. -/
theorem Rewrite.Sound.apply_error (hw : w.Sound P h g f) (hfits : ∀ dt, w.Fits h g dt)
    (hnull : w.NullTyped)
    {dt : SparkType} {c : Column F} (hc : c.dataType = mapTypes h dt) {e : AnalysisException}
    (herr : w.apply r dt c = .error e) : ∃ name, e = .ambiguousField name := by
  induction dt generalizing c with
  | atomic t =>
    obtain ⟨c', hleaf, -⟩ := hw.leaf t c hc
    cases hleaf.symm.trans herr
  | array element ih =>
    rw [Rewrite.apply, Column.transform, hc] at herr
    rcases bind_error herr with hbody | ⟨body, -, herr⟩
    · exact ih rfl hbody
    · cases herr
  | map key value _ ih =>
    rw [Rewrite.apply, Column.transformValues, hc] at herr
    rcases bind_error herr with hbody | ⟨body, -, herr⟩
    · exact ih rfl hbody
    · cases herr
  | struct fields ih =>
    rw [Rewrite.apply] at herr
    rcases bind_error herr with hcols | ⟨cols, hcols, hwhen⟩
    · obtain ⟨fd, hfd, rfl | ⟨x, hx, herr⟩⟩ :=
        Rewrite.applyFields_error hc (List.Subset.refl _) hcols
      · exact ⟨fd.1, rfl⟩
      · exact ih fd hfd hx herr
    · -- rebuilt fields have the types of the null branch
      obtain ⟨hapart, hfields⟩ := Rewrite.fields_of_ok hc hcols
      obtain ⟨cols', hcols', htypes, -⟩ := hw.fields hc hapart (fun fd hfd hhas c hc => by
        obtain ⟨x, c', hx, hc'⟩ := hfields fd hfd hhas
        exact hw.apply_of_walks (hw.walks_of_ok hnull hx hc') c hc) [] fields rfl
      cases hcols.symm.trans hcols'
      rw [Column.whenOtherwise, if_pos] at hwhen
      · cases hwhen
      · rw [hfits _ c hc, Column.struct, htypes, mapTypes]

theorem Walks.imp {has : SparkType → Bool} {fits fits' : SparkType → Prop}
    (himp : ∀ dt, fits dt → fits' dt) {dt : SparkType} (hdt : Walks has fits r dt) :
    Walks has fits' r dt := by
  induction dt with
  | atomic t => trivial
  | array element ih => exact ih hdt
  | map key value _ ih => exact ih hdt
  | struct fields ih =>
    obtain ⟨hapart, hfits, hfields⟩ := hdt
    refine ⟨hapart, himp _ hfits, walksFields_iff.mpr fun fd hfd hhas => ?_⟩
    exact ih fd hfd (walksFields_iff.mp hfields fd hfd hhas)

/-- The structs that a rewrite rebuilds, where it is applied at all, have fields that are told
apart. -/
def RebuiltApart (has : SparkType → Bool) (r : Resolver) (dt : SparkType) : Prop :=
  has dt = true → Walks has (fun _ => True) r dt

theorem Rewrite.Sound.optional_accepted (hw : w.Sound P h g f) (hfits : ∀ dt, w.Fits h g dt)
    (hnull : w.NullTyped)
    {dt : SparkType} {c : Column F} (hc : c.dataType = mapTypes h dt) :
    (∃ d, (if w.has dt then w.apply r dt c else .ok c) = .ok d) ↔ RebuiltApart w.has r dt := by
  constructor
  · rintro ⟨d, hd⟩ hhas
    rw [if_pos hhas] at hd
    exact (hw.walks_of_ok hnull hc hd).imp fun _ _ => trivial
  · intro hapart
    split
    · rename_i hhas
      obtain ⟨d, hd, -⟩ := hw.apply_of_walks ((hapart hhas).imp fun dt _ => hfits dt) c hc
      exact ⟨d, hd⟩
    · exact ⟨c, rfl⟩

theorem Rewrite.Sound.optional_error (hw : w.Sound P h g f) (hfits : ∀ dt, w.Fits h g dt)
    (hnull : w.NullTyped)
    {dt : SparkType} {c : Column F} (hc : c.dataType = mapTypes h dt) {e : AnalysisException}
    (herr : (if w.has dt then w.apply r dt c else .ok c) = .error e) :
    ∃ name, e = .ambiguousField name := by
  split at herr
  · exact hw.apply_error hfits hnull hc herr
  · cases herr

theorem epochType_eq_mapTypes (dt : SparkType) :
    epochType dt = mapTypes (longWhere isDateOrNtz) dt := by
  induction dt with
  | atomic t => rfl
  | array element ih => exact congrArg _ ih
  | map key value _ ih => exact congrArg _ ih
  | struct fields ih =>
    rw [epochType, epochTypeOf, mapTypes, epochFieldsOf_eq_map, mapFields_eq_map]
    congr 1
    apply List.map_congr_left
    intro fd hfd
    rw [← ih fd hfd, epochType]

theorem dateNtzRewrite_fits (dt : SparkType) :
    (dateNtzRewrite : Rewrite F).Fits id (longWhere isDateOrNtz) dt :=
  fun _ _ => epochType_eq_mapTypes dt

section Deep

variable [PyFloat F]

theorem nonfiniteRewrite_fits (dt : SparkType) : (nonfiniteRewrite : Rewrite F).Fits h h dt :=
  fun _ hc => hc

mutual

/-- A value as it is to be stored: days and wall clocks are milliseconds, rounded down, and a float
that is not finite is null. Map keys stay as they are. -/
def deep : SparkValue F → SparkValue F
  | .floating x => if nonFinite x then .null else .floating x
  | .date days => .integral (days * 86400000)
  | .timestampNtz micros => .integral (micros / 1000)
  | .array xs => .array (deepCells xs)
  | .map entries => .map (deepEntries entries)
  | .struct cells => .struct (deepCells cells)
  | v => v

def deepCells : List (SparkValue F) → List (SparkValue F)
  | [] => []
  | v :: cells => deep v :: deepCells cells

def deepEntries : List (SparkValue F × SparkValue F) → List (SparkValue F × SparkValue F)
  | [] => []
  | (key, v) :: entries => (key, deep v) :: deepEntries entries

end

theorem deepCells_eq_map (cells : List (SparkValue F)) : deepCells cells = cells.map deep := by
  induction cells with
  | nil => rfl
  | cons v cells ih => rw [deepCells, ih, List.map_cons]

theorem deepEntries_eq_map (entries : List (SparkValue F × SparkValue F)) :
    deepEntries entries = entries.map fun e => (e.1, deep e.2) := by
  induction entries with
  | nil => rfl
  | cons e entries ih => rw [deepEntries, ih, List.map_cons]

theorem sourceLeaf_eq_deep {t : AtomicType} {v : SparkValue F} (hv : Typed OfType (.atomic t) v) :
    sourceLeaf t v = deep v := by
  rcases hv with rfl | hv
  · cases t <;> rfl
  · cases t <;> cases v <;> first | rfl | exact hv.elim

theorem mapLeaves_sourceLeaf {dt : SparkType} {v : SparkValue F} (hv : Typed OfType dt v) :
    mapLeaves sourceLeaf dt v = deep v := by
  induction dt generalizing v with
  | atomic t => exact sourceLeaf_eq_deep hv
  | array element ih =>
    rcases hv with rfl | ⟨xs, rfl, hxs⟩
    · rfl
    · rw [mapLeaves, SparkValue.mapArray_array, deep, deepCells_eq_map]
      exact congrArg _ (List.map_congr_left fun x hx => ih (hxs x hx))
  | map key value _ ih =>
    rcases hv with rfl | ⟨entries, rfl, -, hentries⟩
    · rfl
    · rw [mapLeaves, SparkValue.mapValues_map, deep, deepEntries_eq_map]
      refine congrArg _ (List.map_congr_left fun e he => ?_)
      rw [ih (hentries e he).2.2]
  | struct fields ih =>
    rcases hv with rfl | ⟨cells, rfl, hcells⟩
    · rfl
    · rw [mapLeaves, deep, deepCells_eq_map]
      congr 1
      apply mapCells_eq_map ((mapFields_id fields).symm ▸ hcells)
      intro fd hfd v hv
      exact ih fd hfd (mapTypes_id fd.2 ▸ hv)

variable {schema : Schema} {name : String} {c : Column F}

theorem sourceExpr_accepted (hcol : Column.col r schema name = .ok c)
    (htype : fieldType schema name = some c.dataType) :
    (∃ e : String × Column F, sourceExpr r schema name = .ok e) ↔
      RebuiltApart typeHasDateOrNtz r c.dataType ∧ RebuiltApart typeHasFloat r c.dataType := by
  have hdates := dateNtzRewrite_sound (F := F) (P := fun _ _ => True)
  have hfloats := nonfiniteRewrite_sound (F := F) (P := fun _ _ => True) isFloat_longWhere
  have hc := (mapTypes_id c.dataType).symm
  have hfirst := hdates.optional_accepted (r := r) dateNtzRewrite_fits dateNtzRewrite_nullTyped hc
  have hsecond (c₁) (hc₁ : (if typeHasDateOrNtz c.dataType then rewriteDateNtz r c c.dataType
      else .ok c) = .ok c₁) :=
    hfloats.optional_accepted (r := r) nonfiniteRewrite_fits nonfiniteRewrite_nullTyped
      (hdates.optional_ok dateNtzRewrite_nullTyped hc hc₁).1
  rw [sourceExpr_eq hcol htype]
  constructor
  · rintro ⟨e, he⟩
    obtain ⟨c₁, hc₁, he⟩ := bind_ok he
    obtain ⟨c₂, hc₂, -⟩ := bind_ok he
    exact ⟨hfirst.mp ⟨c₁, hc₁⟩, (hsecond c₁ hc₁).mp ⟨c₂, hc₂⟩⟩
  · rintro ⟨hdatesApart, hfloatsApart⟩
    obtain ⟨c₁, hc₁⟩ := hfirst.mpr hdatesApart
    obtain ⟨c₂, hc₂⟩ := (hsecond c₁ hc₁).mpr hfloatsApart
    refine ⟨(name, c₂), ?_⟩
    change (if typeHasDateOrNtz c.dataType then rewriteDateNtz r c c.dataType else .ok c) = _ at hc₁
    change (if typeHasFloat c.dataType then nullNonfinite r c₁ c.dataType else .ok c₁) = _ at hc₂
    rw [hc₁, ok_bind, hc₂, ok_bind]

theorem sourceExpr_error (hcol : Column.col r schema name = .ok c)
    (htype : fieldType schema name = some c.dataType) {x : AnalysisException}
    (hx : (sourceExpr r schema name : Except AnalysisException (String × Column F)) = .error x) :
    ∃ field, x = .ambiguousField field := by
  have hdates := dateNtzRewrite_sound (F := F) (P := fun _ _ => True)
  have hfloats := nonfiniteRewrite_sound (F := F) (P := fun _ _ => True) isFloat_longWhere
  have hc := (mapTypes_id c.dataType).symm
  rw [sourceExpr_eq hcol htype] at hx
  rcases bind_error hx with hx | ⟨c₁, hc₁, hx⟩
  · exact hdates.optional_error dateNtzRewrite_fits dateNtzRewrite_nullTyped hc hx
  · rcases bind_error hx with hx | ⟨c₂, -, hx⟩
    · exact hfloats.optional_error nonfiniteRewrite_fits nonfiniteRewrite_nullTyped
        (hdates.optional_ok dateNtzRewrite_nullTyped hc hc₁).1 hx
    · cases hx

theorem sourceExpr_deep (hcol : Column.col r schema name = .ok c)
    (htype : fieldType schema name = some c.dataType) {e : String × Column F}
    (he : sourceExpr r schema name = .ok e) :
    e.1 = name ∧ e.2.dataType = epochType c.dataType ∧
      ∀ row, Typed OfType c.dataType (c.eval row) → e.2.eval row = deep (c.eval row) := by
  rw [sourceExpr_eq hcol htype] at he
  obtain ⟨c₁, hc₁, he⟩ := bind_ok he
  obtain ⟨c₂, hc₂, he⟩ := bind_ok he
  cases he
  obtain ⟨htype₂, heval⟩ := sourceRewrites_ok rfl hc₁ hc₂
  refine ⟨rfl, htype₂.trans (epochType_eq_mapTypes _).symm, ?_⟩
  intro row hrow
  exact (heval row hrow.shaped).trans (mapLeaves_sourceLeaf hrow)

/-- `_source_expr` makes of a column what `deep` makes of its values. The branches of its `when`s have
equal types: it is rejected for a name that a struct which it rebuilds has twice, and only for that. -/
theorem source_expr_is_deep (r : Resolver) (schema : Schema) (name : String) (c : Column F)
    (hcol : Column.col r schema name = .ok c) (htype : fieldType schema name = some c.dataType) :
    ((∃ e : String × Column F, sourceExpr r schema name = .ok e) ↔
      RebuiltApart typeHasDateOrNtz r c.dataType ∧ RebuiltApart typeHasFloat r c.dataType) ∧
    (∀ x, (sourceExpr r schema name : Except AnalysisException (String × Column F)) = .error x →
      ∃ field, x = .ambiguousField field) ∧
    ∀ e : String × Column F, sourceExpr r schema name = .ok e →
      e.1 = name ∧ e.2.dataType = epochType c.dataType ∧
        ∀ row, Typed OfType c.dataType (c.eval row) → e.2.eval row = deep (c.eval row) :=
  ⟨sourceExpr_accepted hcol htype, fun _ hx => sourceExpr_error hcol htype hx,
    fun _ he => sourceExpr_deep hcol htype he⟩

/-- A day, and a list of readings by station. -/
def visitType : SparkType :=
  .struct [("day", .atomic .date),
    ("readings", .map (.atomic .string) (.array (.atomic .double)))]

theorem visit_is_deep :
    ∃ e : String × Column FewFloats, sourceExpr .caseSensitive [("visit", visitType)] "visit" = .ok e ∧
      e.2.eval [.struct [.date 1, .map [(.string "a", .array [.floating .nan, .floating .half])]]] =
        .struct [.integral 86400000, .map [(.string "a", .array [.null, .floating .half])]] := by
  obtain ⟨haccepted, -, hdeep⟩ := source_expr_is_deep .caseSensitive [("visit", visitType)] "visit"
    (⟨visitType, fun row => row.getD 0 .null⟩ : Column FewFloats) rfl rfl
  have hapart : RebuiltApart typeHasDateOrNtz .caseSensitive visitType ∧
      RebuiltApart typeHasFloat .caseSensitive visitType := by
    simp [RebuiltApart, visitType, Walks, WalksFields, NamesApart, Resolver.caseSensitive]
  obtain ⟨e, he⟩ := haccepted.mpr hapart
  refine ⟨e, he, ?_⟩
  rw [(hdeep e he).2.2]
  · rfl
  · refine .inr ⟨_, rfl, _, _, rfl, .inr trivial, _, _, rfl, .inr ⟨_, rfl, ?_, ?_⟩, rfl⟩
    · simp
    · simp [Typed, OfType]

/-- A struct with a name twice is rejected. -/
theorem twice_named_rejected :
    (sourceExpr .caseSensitive
      [("s", .struct [("a", .atomic .double), ("a", .atomic .double)])] "s" :
        Except AnalysisException (String × Column FewFloats)) = .error (.ambiguousField "a") := by
  rfl

end Deep

end EsConnector
