import EsConnector.StoredForm

namespace EsConnector
set_option autoImplicit true

variable {F : Type} {P : AtomicType → SparkValue F → Prop} {r : Resolver}

/-- The cells of a struct are typed otherwise if those of each field are. -/
theorem CellsTyped.imp {P Q : AtomicType → SparkValue F → Prop} {fields : Schema}
    {cells : List (SparkValue F)} (h : CellsTyped P fields cells)
    (himp : ∀ fd ∈ fields, ∀ v, Typed P fd.2 v → Typed Q fd.2 v) : CellsTyped Q fields cells := by
  induction fields generalizing cells with
  | nil => exact h
  | cons fd fields ih =>
    obtain ⟨v, rest, rfl, hv, hrest⟩ := h
    exact ⟨v, rest, rfl, himp fd List.mem_cons_self v hv,
      ih hrest fun fd hfd => himp fd (List.mem_cons_of_mem _ hfd)⟩

theorem Typed.mono {P Q : AtomicType → SparkValue F → Prop} (hPQ : ∀ t v, P t v → Q t v)
    {dt : SparkType} {v : SparkValue F} (hv : Typed P dt v) : Typed Q dt v := by
  induction dt generalizing v with
  | atomic t => exact hv.imp_right (hPQ t v)
  | array element ih =>
    exact hv.imp_right fun ⟨xs, hxs, htyped⟩ => ⟨xs, hxs, fun x hx => ih (htyped x hx)⟩
  | map key value ihk ihv =>
    exact hv.imp_right fun ⟨entries, hentries, hkeys, htyped⟩ =>
      ⟨entries, hentries, hkeys, fun e he => (htyped e he).imp_right (And.imp ihk ihv)⟩
  | struct fields ih =>
    rcases hv with rfl | ⟨cells, rfl, hcells⟩
    · exact .inl rfl
    · exact .inr ⟨cells, rfl, hcells.imp fun fd hfd v hv => ih fd hfd hv⟩

/-- A value has the shape of a type. -/
abbrev Shaped : SparkType → SparkValue F → Prop := Typed fun _ _ => True

abbrev CellsShaped : Schema → List (SparkValue F) → Prop := CellsTyped fun _ _ => True

theorem Typed.shaped {dt : SparkType} {v : SparkValue F} (hv : Typed P dt v) : Shaped dt v :=
  hv.mono fun _ _ _ => trivial

theorem CellsTyped.shaped {fields : Schema} {cells : List (SparkValue F)}
    (h : CellsTyped P fields cells) : CellsShaped fields cells :=
  h.imp fun _ _ _ hv => hv.shaped

theorem CellsTyped.length_eq {fields : Schema} {cells : List (SparkValue F)}
    (h : CellsTyped P fields cells) : cells.length = fields.length := by
  induction fields generalizing cells with
  | nil =>
    cases (show cells = [] from h)
    rfl
  | cons fd fields ih =>
    obtain ⟨v, rest, rfl, -, hrest⟩ := h
    rw [List.length_cons, List.length_cons, ih hrest]

theorem CellsShaped.mapCells_of {g : AtomicType → AtomicType}
    {f : AtomicType → SparkValue F → SparkValue F} {fields : Schema} {cells : List (SparkValue F)}
    (h : CellsShaped fields cells)
    (hf : ∀ fd ∈ fields, ∀ v, Shaped fd.2 v → Shaped (mapTypes g fd.2) (mapLeaves f fd.2 v)) :
    CellsShaped (mapFields g fields) (mapCells f fields cells) := by
  induction fields generalizing cells with
  | nil => exact (show cells = [] from h) ▸ rfl
  | cons fd fields ih =>
    obtain ⟨v, rest, rfl, hv, hrest⟩ := h
    exact ⟨_, _, rfl, hf fd List.mem_cons_self v hv,
      ih hrest fun fd hfd => hf fd (List.mem_cons_of_mem _ hfd)⟩

/-- Changing the leaves changes the shape as changing the atomic types does. -/
theorem Shaped.mapLeaves {dt : SparkType} {v : SparkValue F} (hv : Shaped dt v)
    (g : AtomicType → AtomicType) (f : AtomicType → SparkValue F → SparkValue F) :
    Shaped (mapTypes g dt) (mapLeaves f dt v) := by
  induction dt generalizing v with
  | atomic t => exact .inr trivial
  | array element ih =>
    rcases hv with rfl | ⟨xs, rfl, hxs⟩
    · exact .inl rfl
    · refine .inr ⟨_, rfl, fun x hx => ?_⟩
      obtain ⟨y, hy, rfl⟩ := List.mem_map.mp hx
      exact ih (hxs y hy)
  | map key value _ ih =>
    rcases hv with rfl | ⟨entries, rfl, hkeys, hentries⟩
    · exact .inl rfl
    · refine .inr ⟨_, rfl, by rwa [List.map_map], fun e he => ?_⟩
      obtain ⟨d, hd, rfl⟩ := List.mem_map.mp he
      exact (hentries d hd).imp_right (And.imp_right ih)
  | struct fields ih =>
    rcases hv with rfl | ⟨cells, rfl, hcells⟩
    · exact .inl rfl
    · exact .inr ⟨_, rfl, CellsShaped.mapCells_of hcells fun fd hfd v hv => ih fd hfd hv⟩

theorem CellsShaped.mapCells {fields : Schema} {cells : List (SparkValue F)}
    (h : CellsShaped fields cells) (g : AtomicType → AtomicType)
    (f : AtomicType → SparkValue F → SparkValue F) :
    CellsShaped (mapFields g fields) (mapCells f fields cells) :=
  h.mapCells_of fun _ _ _ hv => hv.mapLeaves g f

theorem mapCells_mapCells_of {g : AtomicType → AtomicType}
    {f f' f'' : AtomicType → SparkValue F → SparkValue F} {fields : Schema}
    (hf : ∀ fd ∈ fields, ∀ v,
      mapLeaves f' (mapTypes g fd.2) (mapLeaves f fd.2 v) = mapLeaves f'' fd.2 v)
    (cells : List (SparkValue F)) :
    mapCells f' (mapFields g fields) (mapCells f fields cells) = mapCells f'' fields cells := by
  induction fields generalizing cells with
  | nil => rfl
  | cons fd fields ih =>
    cases cells with
    | nil => rfl
    | cons v cells =>
      simp only [mapFields, mapCells, hf fd List.mem_cons_self,
        ih fun fd hfd => hf fd (List.mem_cons_of_mem _ hfd)]

theorem mapLeaves_mapLeaves (g : AtomicType → AtomicType)
    (f f' : AtomicType → SparkValue F → SparkValue F) (dt : SparkType) (v : SparkValue F) :
    mapLeaves f' (mapTypes g dt) (mapLeaves f dt v) =
      mapLeaves (fun t v => f' (g t) (f t v)) dt v := by
  induction dt generalizing v with
  | atomic t => rfl
  | array element ih =>
    cases v with
    | array xs => simp [mapTypes, mapLeaves, ih]
    | _ => rfl
  | map key value _ ih =>
    cases v with
    | map entries => simp [mapTypes, mapLeaves, ih]
    | _ => rfl
  | struct fields ih =>
    cases v with
    | struct cells =>
      simp only [mapTypes, mapLeaves, SparkValue.struct.injEq]
      exact mapCells_mapCells_of ih cells
    | _ => rfl

theorem mapLeaves_mapLeaves_same (f f' : AtomicType → SparkValue F → SparkValue F) (dt : SparkType)
    (v : SparkValue F) :
    mapLeaves f' dt (mapLeaves f dt v) = mapLeaves (fun t v => f' t (f t v)) dt v := by
  have := mapLeaves_mapLeaves id f f' dt v
  rwa [mapTypes_id] at this

theorem mapTypes_mapTypes (g g' : AtomicType → AtomicType) (dt : SparkType) :
    mapTypes g' (mapTypes g dt) = mapTypes (fun t => g' (g t)) dt := by
  induction dt with
  | atomic t => rfl
  | array element ih => exact congrArg _ ih
  | map key value _ ih => exact congrArg _ ih
  | struct fields ih =>
    simp only [mapTypes, mapFields_eq_map, List.map_map, SparkType.struct.injEq]
    exact List.map_congr_left fun fd hfd => congrArg _ (ih fd hfd)

theorem mapFields_mapFields (g g' : AtomicType → AtomicType) (fields : Schema) :
    mapFields g' (mapFields g fields) = mapFields (fun t => g' (g t)) fields := by
  simp only [mapFields_eq_map, List.map_map]
  exact List.map_congr_left fun fd _ => congrArg _ (mapTypes_mapTypes g g' fd.2)

theorem mapCells_mapCells (g : AtomicType → AtomicType)
    (f f' : AtomicType → SparkValue F → SparkValue F) (fields : Schema) (cells : List (SparkValue F)) :
    mapCells f' (mapFields g fields) (mapCells f fields cells) =
      mapCells (fun t v => f' (g t) (f t v)) fields cells :=
  mapCells_mapCells_of (fun fd _ v => mapLeaves_mapLeaves g f f' fd.2 v) cells

theorem Plain.mapTypes {dt : SparkType} (h : Plain r dt) (g : AtomicType → AtomicType) :
    Plain r (mapTypes g dt) := by
  induction dt with
  | atomic t => trivial
  | array element ih => exact ih h
  | map key value _ ih => exact ⟨h.1, ih h.2⟩
  | struct fields ih =>
    refine ⟨NamesApart.mapFields h.1 g, plainFields_iff.mpr fun fd hfd => ?_⟩
    rw [mapFields_eq_map] at hfd
    obtain ⟨fd', hfd', rfl⟩ := List.mem_map.mp hfd
    exact ih fd' hfd' (plainFields_iff.mp h.2 fd' hfd')

/-- A name that `F.col` takes as it is. -/
def PlainName (name : String) : Prop :=
  name.toList ≠ ['*'] ∧ ∀ c ∈ name.toList, c ≠ '.' ∧ c ≠ tick

instance (name : String) : Decidable (PlainName name) := inferInstanceAs (Decidable (_ ∧ _))

theorem attributeParts_plain {cs : List Char} (hcs : ∀ c ∈ cs, c ≠ '.' ∧ c ≠ tick)
    (part : List Char) : attributeParts part false cs = some [String.ofList (part ++ cs)] := by
  induction cs generalizing part with
  | nil => simp [attributeParts]
  | cons c cs ih =>
    obtain ⟨hdot, htick⟩ := hcs c List.mem_cons_self
    rw [attributeParts.eq_def]
    dsimp only
    rw [if_neg Bool.false_ne_true, if_neg htick, if_neg hdot,
      ih (fun c hc => hcs c (List.mem_cons_of_mem _ hc)), List.append_assoc, List.singleton_append]

theorem col_of_plain {before after : Schema} {f : String × SparkType} (hname : PlainName f.1)
    (h : NamesApart r (before ++ f :: after)) :
    Column.col r (before ++ f :: after) f.1 =
      .ok ⟨f.2, fun row => (row : Row F).getD before.length .null⟩ := by
  have hstar : ¬(f.1.toList = ['*'] ∨ ['.', '*'] <:+ f.1.toList) := by
    rintro (he | hsuffix)
    · exact hname.1 he
    · exact (hname.2 '.' (hsuffix.subset List.mem_cons_self)).1 rfl
  rw [Column.col, if_neg hstar, attributeParts_plain hname.2, List.nil_append, String.ofList_toList]
  simp only [Column.topLevel, candidates_of_apart h]
  rfl

theorem NamesApart.nodup {fields : Schema} (h : NamesApart r fields) :
    (fields.map Prod.fst).Nodup := by
  refine List.pairwise_map.mpr (h.imp fun hne he => ?_)
  rw [he, r.refl] at hne
  exact absurd hne.1 (by decide)

theorem fieldType_of_apart {before after : Schema} {f : String × SparkType}
    (h : NamesApart r (before ++ f :: after)) :
    fieldType (before ++ f :: after) f.1 = some f.2 := by
  have hnodup := h.nodup
  rw [List.map_append, List.map_cons] at hnodup
  have hnew := (List.nodup_cons.mp (List.nodup_append.mp hnodup).2.1).1
  refine List.lookup_eq_some_iff.mpr ⟨after.reverse, before.reverse, by simp, fun p hp => ?_⟩
  refine bne_iff_ne.mpr fun he => hnew ?_
  exact List.mem_map.mpr ⟨p, List.mem_reverse.mp hp, he.symm⟩

section Source

variable [PyFloat F]

/-- What becomes of a leaf on its way into `_source`, once timestamps are longs. -/
def sourceLeaf (t : AtomicType) (v : SparkValue F) : SparkValue F :=
  nonfiniteLeaf t (dateNtzLeaf t v)

theorem isFloat_longWhere (t : AtomicType) (ht : isFloat t = true) :
    longWhere isDateOrNtz t = t := by
  cases t <;> first | rfl | cases ht

theorem sourceRewrites {dt : SparkType} (hdt : Plain r dt) (c : Column F) (hc : c.dataType = dt) :
    ∃ c₁ c₂, (if typeHasDateOrNtz dt then rewriteDateNtz r c dt else .ok c) = .ok c₁ ∧
      (if typeHasFloat dt then nullNonfinite r c₁ dt else .ok c₁) = .ok c₂ ∧
      c₂.dataType = mapTypes (longWhere isDateOrNtz) dt ∧
      ∀ row, Shaped dt (c.eval row) → c₂.eval row = mapLeaves sourceLeaf dt (c.eval row) := by
  obtain ⟨c₁, hc₁, htype₁, heval₁⟩ := (dateNtzRewrite_sound (P := fun _ _ => True)).optional hdt c
    (hc.trans (mapTypes_id dt).symm)
  obtain ⟨c₂, hc₂, htype₂, heval₂⟩ :=
    (nonfiniteRewrite_sound (P := fun _ _ => True) isFloat_longWhere).optional hdt c₁ htype₁
  refine ⟨c₁, c₂, hc₁, hc₂, htype₂, ?_⟩
  intro row hrow
  have hfirst := heval₁ row ((mapTypes_id dt).symm ▸ hrow)
  rw [heval₂ row (hfirst ▸ Shaped.mapLeaves hrow _ _), hfirst, mapLeaves_mapLeaves_same]
  rfl

theorem sourceExpr_eq {schema : Schema} {name : String} {c : Column F}
    (hcol : Column.col r schema name = .ok c) (htype : fieldType schema name = some c.dataType) :
    sourceExpr r schema name =
      ((if typeHasDateOrNtz c.dataType then rewriteDateNtz r c c.dataType else .ok c) >>= fun c₁ =>
        (if typeHasFloat c.dataType then nullNonfinite r c₁ c.dataType else .ok c₁) >>= fun c₂ =>
          .ok (name, c₂)) := by
  rw [sourceExpr, hcol, ok_bind, htype]
  rfl

theorem sourceExpr_of_plain {before after : Schema} {f : String × SparkType}
    (hname : PlainName f.1) (hf : Plain r f.2) (h : NamesApart r (before ++ f :: after)) :
    ∃ c : Column F, sourceExpr r (before ++ f :: after) f.1 = .ok (f.1, c) ∧
      c.dataType = mapTypes (longWhere isDateOrNtz) f.2 ∧
      ∀ row, Shaped f.2 (row.getD before.length .null) →
        c.eval row = mapLeaves sourceLeaf f.2 (row.getD before.length .null) := by
  obtain ⟨c₁, c₂, hc₁, hc₂, htype, heval⟩ :=
    sourceRewrites hf (⟨f.2, fun row => row.getD before.length .null⟩ : Column F) rfl
  refine ⟨c₂, ?_, htype, heval⟩
  rw [sourceExpr_eq (col_of_plain hname h) (fieldType_of_apart h)]
  dsimp only
  rw [hc₁, ok_bind, hc₂, ok_bind]

/-- The fields that go into `_source`. -/
def keptFields (cfg : EsWriteConfig) (schema : Schema) : Schema :=
  schema.filter fun f => f.1 ∉ droppedColumns cfg

theorem keptFields_kept {cfg : EsWriteConfig} {f : String × SparkType} {schema : Schema}
    (h : f.1 ∉ droppedColumns cfg) : keptFields cfg (f :: schema) = f :: keptFields cfg schema :=
  List.filter_cons_of_pos (decide_eq_true h)

theorem keptFields_dropped {cfg : EsWriteConfig} {f : String × SparkType} {schema : Schema}
    (h : ¬f.1 ∉ droppedColumns cfg) : keptFields cfg (f :: schema) = keptFields cfg schema :=
  List.filter_cons_of_neg (by simpa using h)

/-- The cells of the fields that go into `_source`. -/
def keptCells (cfg : EsWriteConfig) : Schema → List (SparkValue F) → List (SparkValue F)
  | f :: schema, v :: row =>
    if f.1 ∉ droppedColumns cfg then v :: keptCells cfg schema row else keptCells cfg schema row
  | _, _ => []

/-- A schema whose columns `F.col` finds under their names, with types that the walks can take. -/
structure PlainSchema (r : Resolver) (schema : Schema) : Prop where
  names : ∀ f ∈ schema, PlainName f.1
  apart : NamesApart r schema
  types : ∀ f ∈ schema, Plain r f.2

theorem PlainSchema.mapFields {schema : Schema} (hs : PlainSchema r schema)
    (g : AtomicType → AtomicType) : PlainSchema r (mapFields g schema) := by
  have hmem {f : String × SparkType} (hf : f ∈ EsConnector.mapFields g schema) :
      ∃ fd ∈ schema, (fd.1, mapTypes g fd.2) = f := by
    rw [mapFields_eq_map] at hf
    exact List.mem_map.mp hf
  refine ⟨?_, NamesApart.mapFields hs.apart g, ?_⟩
  · intro f hf
    obtain ⟨fd, hfd, rfl⟩ := hmem hf
    exact hs.names fd hfd
  · intro f hf
    obtain ⟨fd, hfd, rfl⟩ := hmem hf
    exact (hs.types fd hfd).mapTypes g

theorem keptFields_mapFields (cfg : EsWriteConfig) (g : AtomicType → AtomicType) (schema : Schema) :
    keptFields cfg (mapFields g schema) = mapFields g (keptFields cfg schema) := by
  rw [keptFields, keptFields, mapFields_eq_map, mapFields_eq_map, List.filter_map]
  rfl

omit [PyFloat F] in
theorem keptCells_mapCells (cfg : EsWriteConfig) (g : AtomicType → AtomicType)
    (f : AtomicType → SparkValue F → SparkValue F) (schema : Schema) (row : List (SparkValue F)) :
    keptCells cfg (mapFields g schema) (mapCells f schema row) =
      mapCells f (keptFields cfg schema) (keptCells cfg schema row) := by
  induction schema generalizing row with
  | nil => rfl
  | cons fd schema ih =>
    cases row with
    | nil => simp [mapCells, mapFields, keptCells]
    | cons v row =>
      by_cases hkept : fd.1 ∉ droppedColumns cfg
      · rw [mapFields, mapCells, keptCells, if_pos hkept, ih, keptFields_kept hkept, keptCells,
          if_pos hkept, mapCells]
      · rw [mapFields, mapCells, keptCells, if_neg hkept, ih, keptFields_dropped hkept, keptCells,
          if_neg hkept]

omit [PyFloat F] in
theorem CellsTyped.kept {schema : Schema} {row : List (SparkValue F)} (h : CellsTyped P schema row)
    (cfg : EsWriteConfig) : CellsTyped P (keptFields cfg schema) (keptCells cfg schema row) := by
  induction schema generalizing row with
  | nil =>
    obtain rfl : row = [] := h
    rfl
  | cons fd schema ih =>
    obtain ⟨v, rest, rfl, hv, hrest⟩ := h
    by_cases hkept : fd.1 ∉ droppedColumns cfg
    · rw [keptFields_kept hkept, keptCells, if_pos hkept]
      exact ⟨v, _, rfl, hv, ih hrest⟩
    · rw [keptFields_dropped hkept, keptCells, if_neg hkept]
      exact ih hrest

theorem sourceExprs_of_plain {schema : Schema} (hs : PlainSchema r schema) (cfg : EsWriteConfig)
    (before rest : Schema) (hsplit : schema = before ++ rest) :
    ∃ cols : List (String × Column F),
      ((keptFields cfg rest).map Prod.fst).mapM (sourceExpr r schema) = .ok cols ∧
      cols.map (fun c => (c.1, c.2.dataType)) =
        mapFields (longWhere isDateOrNtz) (keptFields cfg rest) ∧
      ∀ row, CellsShaped rest (row.drop before.length) →
        cols.map (fun c => c.2.eval row) =
          mapCells sourceLeaf (keptFields cfg rest) (keptCells cfg rest (row.drop before.length)) := by
  induction rest generalizing before with
  | nil => exact ⟨[], rfl, rfl, fun row _ => rfl⟩
  | cons f rest ih =>
    obtain ⟨cols, hcols, htypes, hevals⟩ := ih (before ++ [f]) (by simp [hsplit])
    have hrest (row : Row F) (v tail) (hdrop : row.drop before.length = v :: tail) :
        row.drop (before ++ [f]).length = tail := by
      rw [List.length_append, List.length_singleton, ← List.drop_drop, hdrop]
      rfl
    by_cases hkept : f.1 ∉ droppedColumns cfg
    · have hfields : keptFields cfg (f :: rest) = f :: keptFields cfg rest := keptFields_kept hkept
      have hmem : f ∈ schema := by simp [hsplit]
      obtain ⟨c, hc, htype, heval⟩ := sourceExpr_of_plain (F := F) (hs.names f hmem) (hs.types f hmem)
        (hsplit ▸ hs.apart)
      refine ⟨(f.1, c) :: cols, ?_, ?_, ?_⟩
      · rw [← hsplit] at hc
        rw [hfields, List.map_cons, List.mapM_cons, hc, hcols]
        rfl
      · rw [hfields, List.map_cons, mapFields, htypes, htype]
      · intro row hrow
        obtain ⟨v, tail, hdrop, hv, htail⟩ := hrow
        have hcell : row.getD before.length .null = v := by
          have := congrArg List.head? hdrop
          rw [List.head?_drop] at this
          rw [List.getD_eq_getElem?_getD, this]
          rfl
        have hcells := hevals row (by rw [hrest row v tail hdrop]; exact htail)
        rw [hrest row v tail hdrop] at hcells
        rw [hfields, hdrop, keptCells, if_pos hkept, mapCells, List.map_cons, hcells,
          heval row (by rw [hcell]; exact hv), hcell]
    · have hfields : keptFields cfg (f :: rest) = keptFields cfg rest := keptFields_dropped hkept
      refine ⟨cols, hfields.symm ▸ hcols, hfields.symm ▸ htypes, ?_⟩
      intro row hrow
      obtain ⟨v, tail, hdrop, -, htail⟩ := hrow
      have hcells := hevals row (by rw [hrest row v tail hdrop]; exact htail)
      rw [hrest row v tail hdrop] at hcells
      rw [hfields, hdrop, keptCells, if_neg hkept, hcells]

theorem payloadColumns_eq (cfg : EsWriteConfig) (schema : Schema) :
    payloadColumns (schema.map Prod.fst) (droppedColumns cfg) =
      (keptFields cfg schema).map Prod.fst := by
  rw [payloadColumns, keptFields, List.filter_map]
  rfl

theorem sourceStruct_of_plain {schema : Schema} (hs : PlainSchema r schema) (cfg : EsWriteConfig) :
    ∃ c : Column F, sourceStruct r cfg schema = .ok c ∧
      c.dataType = .struct (mapFields (longWhere isDateOrNtz) (keptFields cfg schema)) ∧
      ∀ row, CellsShaped schema row →
        c.eval row = .struct (mapCells sourceLeaf (keptFields cfg schema) (keptCells cfg schema row)) := by
  obtain ⟨cols, hcols, htypes, hevals⟩ := sourceExprs_of_plain (F := F) hs cfg [] schema rfl
  refine ⟨.struct cols, ?_, congrArg _ htypes, fun row hrow => congrArg _ (hevals row hrow)⟩
  rw [sourceStruct, payloadColumns_eq]
  rw [hcols]
  rfl

end Source

section Normalize

variable {α β : Type} {p : α → Bool}

theorem map_ite_of_none {l : List α} (h : ∀ a ∈ l, p a = false) (b : α) :
    (l.map fun a => if p a then b else a) = l :=
  (List.map_congr_left fun a ha => by simp [h a ha]).trans (List.map_id' l)

theorem zipWith_ite_of_none {l : List α} {vs : List β} (h : ∀ a ∈ l, p a = false)
    (hlen : vs.length = l.length) (x : β) :
    List.zipWith (fun a v => if p a then x else v) l vs = vs := by
  induction l generalizing vs with
  | nil =>
    cases vs with
    | nil => rfl
    | cons _ _ => cases hlen
  | cons a l ih =>
    cases vs with
    | nil => cases hlen
    | cons v vs =>
      have ha := h a List.mem_cons_self
      rw [List.zipWith_cons_cons, ih (fun a ha => h a (List.mem_cons_of_mem _ ha)) (by simpa using hlen)]
      simp [ha]

theorem withColumn_schema_of_apart {before after : Schema} {f : String × SparkType}
    {df : DataFrame F} (hdf : df.schema = before ++ f :: after)
    (hapart : NamesApart r (before ++ f :: after)) (c : Column F) :
    (df.withColumn r f.1 c).schema = before ++ (f.1, c.dataType) :: after := by
  obtain ⟨-, hafter, hcross⟩ := List.pairwise_append.mp hapart
  have hany : df.schema.any fun g => r.same g.1 f.1 := by
    simp [hdf, r.refl]
  rw [DataFrame.withColumn, if_pos hany, hdf]
  dsimp only
  rw [List.map_append, List.map_cons, if_pos (r.refl _),
    map_ite_of_none fun g hg => (hcross g hg f List.mem_cons_self).1,
    map_ite_of_none fun g hg => ((List.pairwise_cons.mp hafter).1 g hg).2]

theorem withColumn_of_apart {before after : Schema} {f : String × SparkType} {rows : List (Row F)}
    (hapart : NamesApart r (before ++ f :: after)) (c : Column F)
    (hrows : ∀ row ∈ rows, ∃ done v rest, row = done ++ v :: rest ∧
      done.length = before.length ∧ rest.length = after.length) :
    (DataFrame.mk (before ++ f :: after) rows).withColumn r f.1 c =
      { schema := before ++ (f.1, c.dataType) :: after
        rows := rows.map fun row => row.set before.length (c.eval row) } := by
  have hdf : (DataFrame.mk (before ++ f :: after) rows).schema = before ++ f :: after := rfl
  have hschema := withColumn_schema_of_apart hdf hapart c
  obtain ⟨-, hafter, hcross⟩ := List.pairwise_append.mp hapart
  have hbefore : ∀ g ∈ before, r.same g.1 f.1 = false := fun g hg =>
    (hcross g hg f List.mem_cons_self).1
  have hrest : ∀ g ∈ after, r.same g.1 f.1 = false := fun g hg =>
    ((List.pairwise_cons.mp hafter).1 g hg).2
  have hany : (before ++ f :: after).any fun g => r.same g.1 f.1 := by
    simp [r.refl]
  rw [DataFrame.withColumn, if_pos hany] at hschema ⊢
  congr 1
  apply List.map_congr_left
  intro row hrow
  obtain ⟨done, v, rest, rfl, hdone, hlen⟩ := hrows row hrow
  rw [List.zipWith_append hdone.symm, List.zipWith_cons_cons, if_pos (r.refl _),
    zipWith_ite_of_none hbefore hdone, zipWith_ite_of_none hrest hlen, ← hdone,
    List.set_append_right _ _ (Nat.le_refl _), Nat.sub_self, List.set_cons_zero]

theorem mapCells_append (f : AtomicType → SparkValue F → SparkValue F) {before after : Schema}
    {row : List (SparkValue F)} (h : before.length ≤ row.length) :
    mapCells f (before ++ after) row =
      mapCells f before row ++ mapCells f after (row.drop before.length) := by
  induction before generalizing row with
  | nil =>
    cases row <;> simp [mapCells]
  | cons fd before ih =>
    cases row with
    | nil => simp at h
    | cons v row => simp [mapCells, ih (by simpa using h)]

theorem mapCells_length (f : AtomicType → SparkValue F → SparkValue F) {fields : Schema}
    {row : List (SparkValue F)} (h : fields.length ≤ row.length) :
    (mapCells f fields row).length = fields.length := by
  induction fields generalizing row with
  | nil => simp [mapCells]
  | cons fd fields ih =>
    cases row with
    | nil => simp at h
    | cons v row => simp [mapCells, ih (by simpa using h)]

theorem CellsTyped.drop {before after : Schema} {row : List (SparkValue F)}
    (h : CellsTyped P (before ++ after) row) : CellsTyped P after (row.drop before.length) := by
  induction before generalizing row with
  | nil => exact h
  | cons fd before ih =>
    obtain ⟨v, rest, rfl, -, hrest⟩ := h
    exact ih hrest

theorem namesApart_mapFields_before {before after : Schema} (h : NamesApart r (before ++ after))
    (g : AtomicType → AtomicType) : NamesApart r (mapFields g before ++ after) := by
  obtain ⟨hbefore, hafter, hcross⟩ := List.pairwise_append.mp h
  refine List.pairwise_append.mpr ⟨NamesApart.mapFields hbefore g, hafter, fun fd hfd => ?_⟩
  rw [mapFields_eq_map] at hfd
  obtain ⟨fd', hfd', rfl⟩ := List.mem_map.mp hfd
  exact hcross fd' hfd'

/-- A row whose first columns have been normalized. -/
def normalizedRow (before : Schema) (row : Row F) : Row F :=
  mapCells timestampLeaf before row ++ row.drop before.length

def normalizedFrame (before rest : Schema) (rows : List (Row F)) : DataFrame F where
  schema := mapFields (longWhere isTimestamp) before ++ rest
  rows := rows.map (normalizedRow before)

theorem normalizedRow_next {before : Schema} {fd : String × SparkType} {row : Row F}
    {v : SparkValue F} {tail : Row F} (hdrop : row.drop before.length = v :: tail) :
    normalizedRow (before ++ [fd]) row =
      mapCells timestampLeaf before row ++ mapLeaves timestampLeaf fd.2 v :: tail := by
  have hlen : before.length ≤ row.length := by
    by_contra hlt
    rw [List.drop_eq_nil_of_le (Nat.le_of_not_le hlt)] at hdrop
    cases hdrop
  rw [normalizedRow, mapCells_append _ hlen, List.length_append, List.length_singleton,
    ← List.drop_drop, hdrop]
  simp [mapCells]

theorem normalize_step {before rest : Schema} {fd : String × SparkType} {rows : List (Row F)}
    (hs : PlainSchema r (before ++ fd :: rest))
    (hrows : ∀ row ∈ rows, CellsShaped (before ++ fd :: rest) row) :
    (if typeHasTimestamp fd.2 then do
      let c ← Column.col r (normalizedFrame before (fd :: rest) rows).schema fd.1
      return (normalizedFrame before (fd :: rest) rows).withColumn r fd.1
        (← rewriteTimestamps r c fd.2)
    else return normalizedFrame before (fd :: rest) rows) =
      .ok (normalizedFrame (before ++ [fd]) rest rows) := by
  have hfd : fd ∈ before ++ fd :: rest := by simp
  have hplain := hs.types fd hfd
  have hsplit (row) (hrow : row ∈ rows) :
      ∃ v tail, row.drop before.length = v :: tail ∧ Shaped fd.2 v ∧ CellsShaped rest tail :=
    (hrows row hrow).drop
  have hlen (row) (hrow : row ∈ rows) : (mapCells timestampLeaf before row).length = before.length := by
    apply mapCells_length
    have := (hrows row hrow).length_eq
    simp only [List.length_append] at this
    omega
  split
  · have hapart := namesApart_mapFields_before hs.apart (longWhere isTimestamp)
    obtain ⟨c, hc, htype, heval⟩ := (timestampRewrite_sound (P := fun _ _ => True)).apply hplain
      (⟨fd.2, fun row => row.getD (mapFields (longWhere isTimestamp) before).length .null⟩ :
        Column F) (mapTypes_id fd.2).symm
    have hstep : (normalizedFrame before (fd :: rest) rows).withColumn r fd.1 c =
        normalizedFrame (before ++ [fd]) rest rows := by
      have hfieldsLen : (mapFields (longWhere isTimestamp) before).length = before.length := by
        rw [mapFields_eq_map, List.length_map]
      rw [normalizedFrame, withColumn_of_apart hapart]
      · rw [normalizedFrame, mapFields_eq_map _ (before ++ [fd]), List.map_append,
          ← mapFields_eq_map, List.append_assoc, htype]
        congr 1
        rw [List.map_map]
        apply List.map_congr_left
        intro row hrow
        obtain ⟨v, tail, hdrop, hv, -⟩ := hsplit row hrow
        have hcell : (normalizedRow before row).getD
            (mapFields (longWhere isTimestamp) before).length .null = v := by
          rw [normalizedRow, hdrop, List.getD_eq_getElem?_getD, hfieldsLen,
            List.getElem?_append_right (hlen row hrow).le, hlen row hrow, Nat.sub_self]
          rfl
        have hvalue : c.eval (normalizedRow before row) = mapLeaves timestampLeaf fd.2 v :=
          (heval _ (by
            dsimp only
            rw [hcell, mapTypes_id]
            exact hv)).trans (congrArg _ hcell)
        rw [Function.comp_apply, hvalue, normalizedRow_next hdrop, normalizedRow, hdrop, hfieldsLen,
          List.set_append_right _ _ (hlen row hrow).le, hlen row hrow, Nat.sub_self,
          List.set_cons_zero]
      · intro normalized hnormalized
        obtain ⟨row, hrow, rfl⟩ := List.mem_map.mp hnormalized
        obtain ⟨v, tail, hdrop, -, htail⟩ := hsplit row hrow
        exact ⟨mapCells timestampLeaf before row, v, tail, by rw [normalizedRow, hdrop],
          (hlen row hrow).trans hfieldsLen.symm, htail.length_eq⟩
    have hcol := col_of_plain (F := F) (hs.names fd hfd) hapart
    change (Column.col r (mapFields (longWhere isTimestamp) before ++ fd :: rest) fd.1 >>= _) = _
    rw [hcol]
    change (timestampRewrite.apply r fd.2 _ >>= _) = _
    rw [hc]
    exact congrArg Except.ok hstep
  · rename_i hhas
    obtain ⟨htype, hsame⟩ := (timestampRewrite_sound (P := fun (_ : AtomicType) (_ : SparkValue F) =>
      True)).unchanged fd.2 (by simpa [timestampRewrite] using hhas)
    apply congrArg Except.ok
    rw [normalizedFrame, normalizedFrame, mapFields_eq_map _ (before ++ [fd]), List.map_append,
      ← mapFields_eq_map, List.append_assoc]
    congr 1
    · rw [List.map_singleton, htype, mapTypes_id]
      rfl
    · apply List.map_congr_left
      intro row hrow
      obtain ⟨v, tail, hdrop, hv, -⟩ := hsplit row hrow
      rw [normalizedRow_next hdrop, normalizedRow, hdrop, hsame v (by rwa [mapTypes_id])]

/-- Timestamps become longs at every depth, and nothing else changes. -/
theorem normalizeTimestamps_of_plain {schema : Schema} {rows : List (Row F)}
    (hs : PlainSchema r schema) (hrows : ∀ row ∈ rows, CellsShaped schema row) :
    normalizeTimestampsForUtc r ⟨schema, rows⟩ =
      .ok ⟨mapFields (longWhere isTimestamp) schema, rows.map (mapCells timestampLeaf schema)⟩ := by
  suffices ∀ before rest, schema = before ++ rest →
      rest.foldlM (fun out f =>
        if typeHasTimestamp f.2 then do
          let c ← Column.col r out.schema f.1
          return out.withColumn r f.1 (← rewriteTimestamps r c f.2)
        else return out) (normalizedFrame before rest rows) =
        .ok (normalizedFrame schema [] rows) by
    have hall := this [] schema rfl
    have hstart : normalizedFrame [] schema rows = ⟨schema, rows⟩ := by
      have hrow : normalizedRow [] = (id : Row F → Row F) := rfl
      simp [normalizedFrame, hrow, mapFields]
    have hend : normalizedFrame schema [] rows =
        ⟨mapFields (longWhere isTimestamp) schema, rows.map (mapCells timestampLeaf schema)⟩ := by
      rw [normalizedFrame, List.append_nil]
      congr 1
      apply List.map_congr_left
      intro row hrow
      rw [normalizedRow, List.drop_eq_nil_of_le (hrows row hrow).length_eq.le, List.append_nil]
    rw [hstart, hend] at hall
    exact hall
  intro before rest hsplit
  induction rest generalizing before with
  | nil =>
    rw [List.append_nil] at hsplit
    exact hsplit ▸ rfl
  | cons fd rest ih =>
    subst hsplit
    rw [List.foldlM_cons, normalize_step hs hrows]
    exact ih (before ++ [fd]) (by simp)

end Normalize

end EsConnector
