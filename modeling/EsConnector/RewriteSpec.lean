import EsConnector.SparkPrep

namespace EsConnector
set_option autoImplicit true

variable {F : Type} {P : AtomicType → SparkValue F → Prop} {r : Resolver}

mutual

/-- A value of a type, where the leaves that are not null are what `P` says. The keys of a map are
distinct and not null. -/
def Typed (P : AtomicType → SparkValue F → Prop) : SparkType → SparkValue F → Prop
  | .atomic t, v => v = .null ∨ P t v
  | .array element, v => v = .null ∨ ∃ xs, v = .array xs ∧ ∀ x ∈ xs, Typed P element x
  | .map key value, v => v = .null ∨ ∃ entries, v = .map entries ∧
      (entries.map Prod.fst).Nodup ∧
      ∀ e ∈ entries, e.1 ≠ .null ∧ Typed P key e.1 ∧ Typed P value e.2
  | .struct fields, v => v = .null ∨ ∃ cells, v = .struct cells ∧ CellsTyped P fields cells

def CellsTyped (P : AtomicType → SparkValue F → Prop) : Schema → List (SparkValue F) → Prop
  | [], cells => cells = []
  | (_, dt) :: fields, cells => ∃ v rest, cells = v :: rest ∧ Typed P dt v ∧ CellsTyped P fields rest

end

mutual

/-- The leaves of a value changed by a function; null structs, arrays and maps stay null. -/
def mapLeaves (f : AtomicType → SparkValue F → SparkValue F) :
    SparkType → SparkValue F → SparkValue F
  | .atomic t, v => f t v
  | .array element, v => v.mapArray (mapLeaves f element)
  | .map _ value, v => v.mapValues (mapLeaves f value)
  | .struct fields, v => match v with
    | .struct cells => .struct (mapCells f fields cells)
    | _ => .null

def mapCells (f : AtomicType → SparkValue F → SparkValue F) :
    Schema → List (SparkValue F) → List (SparkValue F)
  | (_, dt) :: fields, v :: cells => mapLeaves f dt v :: mapCells f fields cells
  | _, _ => []

end

mutual

/-- The atomic types of a type changed by a function, map keys excepted. -/
def mapTypes (g : AtomicType → AtomicType) : SparkType → SparkType
  | .atomic t => .atomic (g t)
  | .array element => .array (mapTypes g element)
  | .map key value => .map key (mapTypes g value)
  | .struct fields => .struct (mapFields g fields)

def mapFields (g : AtomicType → AtomicType) : Schema → Schema
  | [] => []
  | (name, dt) :: fields => (name, mapTypes g dt) :: mapFields g fields

end

/-- The names of a struct are told apart. -/
def NamesApart (r : Resolver) (fields : Schema) : Prop :=
  fields.Pairwise fun f f' => r.same f.1 f'.1 = false ∧ r.same f'.1 f.1 = false

instance (fields : Schema) : Decidable (NamesApart r fields) :=
  inferInstanceAs (Decidable (List.Pairwise _ _))

mutual

/-- The names of each struct are told apart, and the map keys are strings. -/
def Plain (r : Resolver) : SparkType → Prop
  | .atomic _ => True
  | .array element => Plain r element
  | .map key value => key = .atomic .string ∧ Plain r value
  | .struct fields => NamesApart r fields ∧ PlainFields r fields

def PlainFields (r : Resolver) : Schema → Prop
  | [] => True
  | (_, dt) :: fields => Plain r dt ∧ PlainFields r fields

end

mutual

/-- The structs that a walk rebuilds: their fields are told apart, and `fits` holds of their type. -/
def Walks (has : SparkType → Bool) (fits : SparkType → Prop) (r : Resolver) : SparkType → Prop
  | .atomic _ => True
  | .array element => Walks has fits r element
  | .map _ value => Walks has fits r value
  | .struct fields =>
    NamesApart r fields ∧ fits (.struct fields) ∧ WalksFields has fits r fields

def WalksFields (has : SparkType → Bool) (fits : SparkType → Prop) (r : Resolver) : Schema → Prop
  | [] => True
  | (_, dt) :: fields => (has dt = true → Walks has fits r dt) ∧ WalksFields has fits r fields

end

theorem walksFields_iff {has : SparkType → Bool} {fits : SparkType → Prop} {fields : Schema} :
    WalksFields has fits r fields ↔ ∀ f ∈ fields, has f.2 = true → Walks has fits r f.2 := by
  induction fields with
  | nil => simp [WalksFields]
  | cons f fields ih => simp [WalksFields, ih]

theorem plainFields_iff {fields : Schema} : PlainFields r fields ↔ ∀ f ∈ fields, Plain r f.2 := by
  induction fields with
  | nil => simp [PlainFields]
  | cons f fields ih => simp [PlainFields, ih]

@[simp] theorem mapLeaves_null (hf : ∀ t, f t .null = .null) (dt : SparkType) :
    mapLeaves f dt (.null : SparkValue F) = .null := by
  cases dt <;> simp [mapLeaves, hf, SparkValue.mapArray, SparkValue.mapValues]

theorem typed_null (dt : SparkType) : Typed P dt .null := by
  cases dt <;> exact .inl rfl

theorem candidates_of_apart {before after : Schema} {f : String × SparkType}
    (h : NamesApart r (before ++ f :: after)) :
    r.candidates (before ++ f :: after) f.1 = [(f, before.length)] := by
  obtain ⟨-, hafter, hcross⟩ := List.pairwise_append.mp h
  have hbefore : before.zipIdx.filter (fun g => r.same g.1.1 f.1) = [] := by
    apply List.filter_eq_nil_iff.mpr
    intro g hg
    have hg := List.fst_mem_of_mem_zipIdx hg
    simp [(hcross g.1 hg f List.mem_cons_self).1]
  have hrest : (after.zipIdx (before.length + 1)).filter (fun g => r.same g.1.1 f.1) = [] := by
    apply List.filter_eq_nil_iff.mpr
    intro g hg
    have hg := List.fst_mem_of_mem_zipIdx hg
    simp [((List.pairwise_cons.mp hafter).1 g.1 hg).2]
  rw [Resolver.candidates, List.zipIdx_append, List.filter_append, hbefore, List.nil_append,
    List.zipIdx_cons, List.filter_cons, Nat.zero_add, hrest]
  simp [r.refl]

theorem fieldOf_of_apart {before after : Schema} {f : String × SparkType}
    (h : NamesApart r (before ++ f :: after)) :
    Column.fieldOf r (before ++ f :: after) f.1 = .ok (before.length, f.2) := by
  rw [Column.fieldOf, candidates_of_apart h]

theorem mapFields_eq_map (g : AtomicType → AtomicType) (fields : Schema) :
    mapFields g fields = fields.map fun fd => (fd.1, mapTypes g fd.2) := by
  induction fields with
  | nil => rfl
  | cons fd fields ih => rw [mapFields, ih, List.map_cons]

theorem NamesApart.mapFields {fields : Schema} (h : NamesApart r fields)
    (g : AtomicType → AtomicType) : NamesApart r (mapFields g fields) := by
  rw [mapFields_eq_map]
  exact List.pairwise_map.mpr h

mutual

theorem mapTypes_id : ∀ dt, mapTypes id dt = dt
  | .atomic _ => rfl
  | .array element => congrArg _ (mapTypes_id element)
  | .map _ value => congrArg _ (mapTypes_id value)
  | .struct fields => congrArg _ (mapFields_id fields)

theorem mapFields_id : ∀ fields, mapFields id fields = fields
  | [] => rfl
  | (name, dt) :: fields => by rw [mapFields, mapTypes_id dt, mapFields_id fields]

end

/-- A rewrite that walks down a type, on a column whose leaves have already been made the types that
`h` says: it does to the leaves what `f` does, and makes their types what `g` says. -/
structure Rewrite.Sound (w : Rewrite F) (P : AtomicType → SparkValue F → Prop)
    (h g : AtomicType → AtomicType) (f : AtomicType → SparkValue F → SparkValue F) : Prop where
  leaf : ∀ t c, c.dataType = .atomic (h t) → ∃ c', w.leaf t c = .ok c' ∧
    c'.dataType = .atomic (g t) ∧
    ∀ row, Typed P (.atomic (h t)) (c.eval row) → c'.eval row = f t (c.eval row)
  unchanged : ∀ dt, w.has dt = false →
    mapTypes g dt = mapTypes h dt ∧ ∀ v, Typed P (mapTypes h dt) v → mapLeaves f dt v = v
  nullType : ∀ r dt c, Plain r dt → c.dataType = mapTypes h dt →
    (w.nullStruct dt c).dataType = mapTypes g dt
  nullStruct : ∀ dt c row, c.eval row = .null → (w.nullStruct dt c).eval row = .null

variable {w : Rewrite F} {h g : AtomicType → AtomicType}
  {f : AtomicType → SparkValue F → SparkValue F}

/-- What a rewrite makes of a column. -/
def Rewrites (P : AtomicType → SparkValue F → Prop) (h g : AtomicType → AtomicType)
    (f : AtomicType → SparkValue F → SparkValue F) (dt : SparkType) (c : Column F)
    (out : Except AnalysisException (Column F)) : Prop :=
  ∃ c', out = .ok c' ∧ c'.dataType = mapTypes g dt ∧
    ∀ row, Typed P (mapTypes h dt) (c.eval row) → c'.eval row = mapLeaves f dt (c.eval row)

theorem Rewrite.Sound.fields (hw : w.Sound P h g f) {fields : Schema} {c : Column F}
    (hc : c.dataType = .struct (mapFields h fields)) (hapart : NamesApart r fields)
    (ih : ∀ fd ∈ fields, w.has fd.2 = true → ∀ c : Column F, c.dataType = mapTypes h fd.2 →
      Rewrites P h g f fd.2 c (w.apply r fd.2 c))
    (before rest : Schema) (hsplit : fields = before ++ rest) :
    ∃ cols, w.applyFields r rest c = .ok cols ∧
      cols.map (fun col => (col.1, col.2.dataType)) = mapFields g rest ∧
      ∀ row cells, c.eval row = .struct cells →
        CellsTyped P (mapFields h rest) (cells.drop before.length) →
        cols.map (fun col => col.2.eval row) = mapCells f rest (cells.drop before.length) := by
  induction rest generalizing before with
  | nil => exact ⟨[], rfl, rfl, fun row cells _ _ => by simp [mapCells]⟩
  | cons fd rest ihrest =>
    obtain ⟨name, dt⟩ := fd
    subst hsplit
    have hget : c.getItem r name =
        .ok ⟨mapTypes h dt, fun row => (c.eval row).cell before.length⟩ := by
      have hapart := hapart.mapFields h
      simp only [mapFields_eq_map, List.map_append, List.map_cons] at hc hapart
      rw [Column.getItem, hc]
      dsimp only
      rw [fieldOf_of_apart hapart, List.length_map]
      rfl
    -- a field without a leaf of the rewrite is taken over as it is
    obtain ⟨field, hfield, htype, heval⟩ : Rewrites P h g f dt
        ⟨mapTypes h dt, fun row => (c.eval row).cell before.length⟩
        (if w.has dt then
          w.apply r dt ⟨mapTypes h dt, fun row => (c.eval row).cell before.length⟩
          else .ok ⟨mapTypes h dt, fun row => (c.eval row).cell before.length⟩) := by
      split
      · rename_i hhas
        exact ih (name, dt) (by simp) hhas _ rfl
      · rename_i hhas
        obtain ⟨htype, hsame⟩ := hw.unchanged dt (by simpa using hhas)
        exact ⟨_, rfl, htype.symm, fun row hrow => (hsame _ hrow).symm⟩
    obtain ⟨cols, hcols, htypes, hevals⟩ := ihrest (before ++ [(name, dt)]) (by simp)
    refine ⟨(name, field) :: cols, ?_, ?_, ?_⟩
    · rw [Rewrite.applyFields, hget]
      change ((if w.has dt then w.apply r dt _ else .ok _) >>= fun field =>
        w.applyFields r rest c >>= fun cols => .ok ((name, field) :: cols)) = _
      rw [hfield, hcols]
      rfl
    · rw [List.map_cons, htypes, htype, mapFields]
    · intro row cells hrow hcells
      obtain ⟨v, tail, hdrop, hv, htail⟩ := hcells
      have hcell : (c.eval row).cell before.length = v := by
        have := congrArg List.head? hdrop
        rw [List.head?_drop] at this
        rw [hrow, SparkValue.cell, List.getD_eq_getElem?_getD, this]
        rfl
      have htail' : cells.drop (before ++ [(name, dt)]).length = tail := by
        rw [List.length_append, List.length_singleton, ← List.drop_drop, hdrop]
        rfl
      have hrest := hevals row cells hrow (htail' ▸ htail)
      have hfirst : field.eval row = mapLeaves f dt v := by
        have hv' : Typed P (mapTypes h dt) ((c.eval row).cell before.length) := hcell.symm ▸ hv
        exact (heval row hv').trans (congrArg _ hcell)
      rw [List.map_cons, hrest, htail', hdrop, mapCells, hfirst]

theorem Rewrite.Sound.transform {c : Column F} {element : SparkType}
    (hc : c.dataType = .array (mapTypes h element))
    (ih : ∀ c : Column F, c.dataType = mapTypes h element →
      Rewrites P h g f element c (w.apply r element c)) :
    Rewrites P h g f (.array element) c (c.transform fun e => w.apply r element e) := by
  obtain ⟨body, hbody, htype, -⟩ := ih ⟨mapTypes h element, fun _ => .null⟩ rfl
  refine ⟨⟨.array body.dataType, fun row => (c.eval row).mapArray
    (Column.applyLambda (w.apply r element) (mapTypes h element) row)⟩, ?_, ?_, ?_⟩
  · rw [Column.transform, hc]
    change (w.apply r element _ >>= fun body => Except.ok _) = _
    rw [hbody]
    rfl
  · rw [mapTypes, ← htype]
  · intro row hrow
    dsimp only
    rw [mapLeaves]
    rcases hrow with hnull | ⟨xs, hxs, htyped⟩
    · rw [hnull, SparkValue.mapArray_null, SparkValue.mapArray_null]
    · rw [hxs, SparkValue.mapArray_array, SparkValue.mapArray_array]
      congr 1
      apply List.map_congr_left
      intro x hx
      obtain ⟨c', hc', -, heval⟩ := ih ⟨mapTypes h element, fun _ => x⟩ rfl
      rw [Column.applyLambda, hc']
      exact heval row (htyped x hx)

theorem Rewrite.Sound.transformValues {c : Column F} {key value : SparkType}
    (hc : c.dataType = .map key (mapTypes h value))
    (ih : ∀ c : Column F, c.dataType = mapTypes h value →
      Rewrites P h g f value c (w.apply r value c)) :
    Rewrites P h g f (.map key value) c (c.transformValues fun v => w.apply r value v) := by
  obtain ⟨body, hbody, htype, -⟩ := ih ⟨mapTypes h value, fun _ => .null⟩ rfl
  refine ⟨⟨.map key body.dataType, fun row => (c.eval row).mapValues
    (Column.applyLambda (w.apply r value) (mapTypes h value) row)⟩, ?_, ?_, ?_⟩
  · rw [Column.transformValues, hc]
    change (w.apply r value _ >>= fun body => Except.ok _) = _
    rw [hbody]
    rfl
  · rw [mapTypes, ← htype]
  · intro row hrow
    dsimp only
    rw [mapLeaves]
    rcases hrow with hnull | ⟨entries, hentries, -, htyped⟩
    · rw [hnull, SparkValue.mapValues_null, SparkValue.mapValues_null]
    · rw [hentries, SparkValue.mapValues_map, SparkValue.mapValues_map]
      congr 1
      apply List.map_congr_left
      intro e he
      obtain ⟨c', hc', -, heval⟩ := ih ⟨mapTypes h value, fun _ => e.2⟩ rfl
      rw [Column.applyLambda, hc']
      exact congrArg (Prod.mk e.1) (heval row (htyped e he).2.2)

/-- The type of a null struct depends on the column by its type only. -/
def Rewrite.NullTyped (w : Rewrite F) : Prop :=
  ∀ dt (c c' : Column F), c.dataType = c'.dataType →
    (w.nullStruct dt c).dataType = (w.nullStruct dt c').dataType

/-- A null struct is written with the type of the struct that the walk rebuilds. -/
def Rewrite.Fits (w : Rewrite F) (h g : AtomicType → AtomicType) (dt : SparkType) : Prop :=
  ∀ c : Column F, c.dataType = mapTypes h dt → (w.nullStruct dt c).dataType = mapTypes g dt

theorem Rewrite.Sound.apply_of_walks (hw : w.Sound P h g f) {dt : SparkType}
    (hdt : Walks w.has (w.Fits h g) r dt) (c : Column F) (hc : c.dataType = mapTypes h dt) :
    Rewrites P h g f dt c (w.apply r dt c) := by
  induction dt generalizing c with
  | atomic t =>
    obtain ⟨c', hleaf, htype, heval⟩ := hw.leaf t c hc
    exact ⟨c', hleaf, htype, heval⟩
  | array element ih => exact Rewrite.Sound.transform hc (ih hdt)
  | map key value ihk ihv => exact Rewrite.Sound.transformValues hc (ihv hdt)
  | struct fields ih =>
    obtain ⟨hapart, hfits, hwalks⟩ := hdt
    obtain ⟨cols, hcols, htypes, hevals⟩ := hw.fields hc hapart
      (fun fd hfd hhas c hc => ih fd hfd (walksFields_iff.mp hwalks fd hfd hhas) c hc) [] fields rfl
    have hnull := hfits c hc
    have hrebuilt : (Column.struct cols).dataType = mapTypes g (.struct fields) := by
      rw [Column.struct, htypes, mapTypes]
    refine ⟨⟨(w.nullStruct (.struct fields) c).dataType, fun row =>
      if (c.isNull.eval row).isTrue then (w.nullStruct (.struct fields) c).eval row
      else (Column.struct cols).eval row⟩, ?_, hnull, ?_⟩
    · rw [Rewrite.apply, hcols, ok_bind]
      exact if_pos (hnull.trans hrebuilt.symm)
    · intro row hrow
      rcases hrow with hrow | ⟨cells, hrow, htyped⟩
      · simp [Column.isNull, hrow, SparkValue.isNull, SparkValue.isTrue,
          hw.nullStruct _ _ _ hrow, mapLeaves]
      · have hcells := hevals row cells hrow htyped
        simp only [List.length_nil, List.drop_zero] at hcells
        simp [Column.isNull, hrow, SparkValue.isNull, SparkValue.isTrue, Column.struct, mapLeaves,
          hcells]

theorem Rewrite.Sound.walks_of_plain (hw : w.Sound P h g f) {dt : SparkType} (hdt : Plain r dt) :
    Walks w.has (w.Fits h g) r dt := by
  induction dt with
  | atomic t => trivial
  | array element ih => exact ih hdt
  | map key value _ ih => exact ih hdt.2
  | struct fields ih =>
    exact ⟨hdt.1, fun c => hw.nullType r (.struct fields) c hdt,
      walksFields_iff.mpr fun f hf _ => ih f hf (plainFields_iff.mp hdt.2 f hf)⟩

/-- The walk changes the leaves of a column and their types, and nothing else. -/
theorem Rewrite.Sound.apply (hw : w.Sound P h g f) {dt : SparkType} (hdt : Plain r dt)
    (c : Column F) (hc : c.dataType = mapTypes h dt) :
    Rewrites P h g f dt c (w.apply r dt c) :=
  hw.apply_of_walks (hw.walks_of_plain hdt) c hc

/-- The rewrite of a column is skipped where its type has none of the leaves. -/
theorem Rewrite.Sound.optional (hw : w.Sound P h g f) {dt : SparkType} (hdt : Plain r dt)
    (c : Column F) (hc : c.dataType = mapTypes h dt) :
    Rewrites P h g f dt c (if w.has dt then w.apply r dt c else .ok c) := by
  split
  · exact hw.apply hdt c hc
  · rename_i hhas
    obtain ⟨htype, hsame⟩ := hw.unchanged dt (by simpa using hhas)
    exact ⟨c, rfl, hc.trans htype.symm, fun row hrow => (hsame _ hrow).symm⟩

end EsConnector
