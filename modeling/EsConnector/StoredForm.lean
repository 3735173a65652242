import EsConnector.RewriteSpec
import EsConnector.SparkSerialize

namespace EsConnector
set_option autoImplicit true

open Calendar

variable {F : Type} {P : AtomicType → SparkValue F → Prop} {r : Resolver}
  {h g : AtomicType → AtomicType} {f : AtomicType → SparkValue F → SparkValue F}
  {p : AtomicType → Bool} {keys : Bool}

theorem fieldsHave_eq_false {fields : Schema} :
    fieldsHave p keys fields = false ↔ ∀ fd ∈ fields, typeHas p keys fd.2 = false := by
  induction fields with
  | nil => simp [fieldsHave]
  | cons fd fields ih => simp [fieldsHave, ih]

/-- A type without the leaves that change stays the same. -/
theorem mapTypes_unchanged (hg : ∀ t, p t = false → g t = h t) {dt : SparkType}
    (hdt : typeHas p keys dt = false) : mapTypes g dt = mapTypes h dt := by
  induction dt with
  | atomic t => exact congrArg _ (hg t hdt)
  | array element ih => exact congrArg _ (ih hdt)
  | map key value _ ih =>
    simp only [typeHas, Bool.or_eq_false_iff] at hdt
    exact congrArg _ (ih hdt.2)
  | struct fields ih =>
    rw [mapTypes, mapTypes, mapFields_eq_map, mapFields_eq_map]
    congr 1
    apply List.map_congr_left
    intro fd hfd
    rw [ih fd hfd (fieldsHave_eq_false.mp hdt fd hfd)]

theorem mapCells_eq_map {k : SparkValue F → SparkValue F} {fields : Schema}
    {cells : List (SparkValue F)} (hcells : CellsTyped P (mapFields h fields) cells)
    (hk : ∀ fd ∈ fields, ∀ v, Typed P (mapTypes h fd.2) v → mapLeaves f fd.2 v = k v) :
    mapCells f fields cells = cells.map k := by
  induction fields generalizing cells with
  | nil => exact (show cells = [] from hcells) ▸ rfl
  | cons fd fields ih =>
    obtain ⟨v, rest, rfl, hv, hrest⟩ := hcells
    rw [mapCells, List.map_cons, hk fd List.mem_cons_self v hv,
      ih hrest fun fd hfd => hk fd (List.mem_cons_of_mem _ hfd)]

theorem mapLeaves_unchanged (hf : ∀ t v, p t = false → f t v = v) {dt : SparkType}
    (hdt : typeHas p keys dt = false) {v : SparkValue F} (hv : Typed P (mapTypes h dt) v) :
    mapLeaves f dt v = v := by
  induction dt generalizing v with
  | atomic t => exact hf t v hdt
  | array element ih =>
    rw [mapLeaves]
    rcases hv with rfl | ⟨xs, rfl, hxs⟩
    · rfl
    · rw [SparkValue.mapArray_array, List.map_congr_left fun x hx => ih hdt (hxs x hx), List.map_id']
  | map key value _ ih =>
    simp only [typeHas, Bool.or_eq_false_iff] at hdt
    rw [mapLeaves]
    rcases hv with rfl | ⟨entries, rfl, -, hentries⟩
    · rfl
    · rw [SparkValue.mapValues_map,
        List.map_congr_left fun e he => by rw [ih hdt.2 (hentries e he).2.2], List.map_id']
  | struct fields ih =>
    rcases hv with rfl | ⟨cells, rfl, hcells⟩
    · rfl
    · have hfields := fieldsHave_eq_false.mp hdt
      rw [mapLeaves, mapCells_eq_map hcells fun fd hfd v hv => ih fd hfd (hfields fd hfd) hv,
        List.map_id']

/-- The atomic types that a rewrite makes longs. -/
def longWhere (p : AtomicType → Bool) (t : AtomicType) : AtomicType := if p t then .bigint else t

theorem longWhere_of_false (t : AtomicType) (ht : p t = false) : longWhere p t = t := by
  simp [longWhere, ht]

theorem epochFieldsOf_eq_map (fields : Schema) :
    epochFieldsOf p keys fields = fields.map fun fd => (fd.1, epochTypeOf p keys fd.2) := by
  induction fields with
  | nil => rfl
  | cons fd fields ih => rw [epochFieldsOf, ih, List.map_cons]

theorem epochTypeOf_eq_mapTypes (hp : p .string = false) {dt : SparkType} (hdt : Plain r dt) :
    epochTypeOf p keys dt = mapTypes (longWhere p) dt := by
  induction dt with
  | atomic t => rfl
  | array element ih => exact congrArg _ (ih hdt)
  | map key value _ ih =>
    obtain ⟨rfl, hvalue⟩ := hdt
    simp [epochTypeOf, mapTypes, ih hvalue, hp]
  | struct fields ih =>
    have hplain := plainFields_iff.mp hdt.2
    rw [epochTypeOf, mapTypes, epochFieldsOf_eq_map, mapFields_eq_map]
    congr 1
    apply List.map_congr_left
    intro fd hfd
    rw [ih fd hfd (hplain fd hfd)]

/-- What `_rewrite_timestamps` makes of a leaf. -/
def timestampLeaf (t : AtomicType) (v : SparkValue F) : SparkValue F :=
  if isTimestamp t then v.unixMillis else v

theorem timestampRewrite_sound :
    (timestampRewrite : Rewrite F).Sound P id (longWhere isTimestamp) timestampLeaf where
  leaf t c hc := by
    by_cases ht : isTimestamp t = true
    · obtain rfl : t = .timestamp := by simpa [isTimestamp] using ht
      exact ⟨_, if_pos (decide_eq_true hc), rfl, fun row _ => rfl⟩
    · simp only [timestampRewrite, longWhere, timestampLeaf, if_neg ht]
      exact ⟨c, rfl, hc, fun row _ => rfl⟩
  unchanged dt hdt := ⟨mapTypes_unchanged longWhere_of_false hdt, fun v hv =>
    mapLeaves_unchanged (fun t v ht => by simp [timestampLeaf, ht]) hdt hv⟩
  nullType r dt c hdt _ := epochTypeOf_eq_mapTypes rfl hdt
  nullStruct dt c row _ := rfl

theorem timestampRewrite_nullTyped : (timestampRewrite : Rewrite F).NullTyped :=
  fun _ _ _ _ => rfl

/-- What `_rewrite_date_ntz` makes of a leaf. -/
def dateNtzLeaf : AtomicType → SparkValue F → SparkValue F
  | .date, .date days => .integral (days * 86400000)
  | .date, _ => .null
  | .timestampNtz, .timestampNtz micros => .integral (micros / 1000)
  | .timestampNtz, _ => .null
  | _, v => v

theorem makeTimestampUtc_ofMicros (micros : Int) :
    makeTimestampUtc (WallClock.ofMicros micros) = (.timestamp micros : SparkValue F) := by
  rw [makeTimestampUtc]
  rw [WallClock.toMicros_ofMicros, if_pos rfl]

theorem dateLeaf_sound {c : Column F} (hc : c.dataType = .atomic .date) :
    ∃ c', dateNtzLeafToEpochMillis .date c = .ok c' ∧ c'.dataType = .atomic .bigint ∧
      ∀ row, c'.eval row = dateNtzLeaf .date (c.eval row) := by
  refine ⟨⟨.atomic .bigint, fun row => (c.eval row).unixDate.mulLong (.integral 86400000)⟩, ?_, rfl,
    ?_⟩
  · rw [dateNtzLeafToEpochMillis, Column.unixDate, Column.function_ok (decide_eq_true hc)]
    rfl
  · intro row
    dsimp only
    cases c.eval row <;> rfl

theorem ntzLeaf_sound {c : Column F} (hc : c.dataType = .atomic .timestampNtz) :
    ∃ c', dateNtzLeafToEpochMillis .timestampNtz c = .ok c' ∧ c'.dataType = .atomic .bigint ∧
      ∀ row, c'.eval row = dateNtzLeaf .timestampNtz (c.eval row) := by
  have hfield (name : String) (field : WallClock → Int) : c.clockField name field =
      .ok ⟨.atomic .int, fun row => (c.eval row).clockField field⟩ :=
    Column.function_ok (decide_eq_true hc)
  refine ⟨⟨.atomic .bigint, fun row => ((Column.makeTimestamp
    ⟨.atomic .int, fun row => (c.eval row).clockField fun w => w.civil.year⟩
    ⟨.atomic .int, fun row => (c.eval row).clockField fun w => w.civil.month⟩
    ⟨.atomic .int, fun row => (c.eval row).clockField fun w => w.civil.day⟩
    ⟨.atomic .int, fun row => (c.eval row).clockField fun w => w.hour⟩
    ⟨.atomic .int, fun row => (c.eval row).clockField fun w => w.minute⟩
    ⟨.atomic .int, fun row => (c.eval row).clockField fun w => w.second⟩).eval row).unixMillis⟩,
    ?_, rfl, ?_⟩
  · simp only [dateNtzLeafToEpochMillis, hfield]
    rfl
  · intro row
    dsimp only [Column.makeTimestamp]
    cases c.eval row with
    | timestampNtz micros =>
      exact congrArg SparkValue.unixMillis (makeTimestampUtc_ofMicros micros)
    | _ => rfl

theorem dateNtzRewrite_sound :
    (dateNtzRewrite : Rewrite F).Sound P id (longWhere isDateOrNtz) dateNtzLeaf where
  leaf t c hc := by
    cases t with
    | date =>
      obtain ⟨c', hleaf, htype, heval⟩ := dateLeaf_sound hc
      exact ⟨c', hleaf, htype, fun row _ => heval row⟩
    | timestampNtz =>
      obtain ⟨c', hleaf, htype, heval⟩ := ntzLeaf_sound hc
      exact ⟨c', hleaf, htype, fun row _ => heval row⟩
    | _ => exact ⟨c, rfl, hc, fun row _ => rfl⟩
  unchanged dt hdt := ⟨mapTypes_unchanged longWhere_of_false hdt, fun v hv =>
    mapLeaves_unchanged (fun t v ht => by cases t <;> first | rfl | cases ht) hdt hv⟩
  nullType r dt c hdt _ := epochTypeOf_eq_mapTypes rfl hdt
  nullStruct dt c row _ := rfl

theorem dateNtzRewrite_nullTyped : (dateNtzRewrite : Rewrite F).NullTyped :=
  fun _ _ _ _ => rfl

section Floats

variable [PyFloat F]

def SparkValue.finiteOrNull : SparkValue F → SparkValue F
  | .floating x => if nonFinite x then .null else .floating x
  | v => v

theorem SparkValue.ite_isNonFinite (v : SparkValue F) :
    (if v.isNonFinite.isTrue then .null else v) = v.finiteOrNull := by
  cases v with
  | floating x => cases hx : nonFinite x <;> simp [isNonFinite, isTrue, finiteOrNull, hx]
  | _ => rfl

/-- What `_null_nonfinite` makes of a leaf. -/
def nonfiniteLeaf (t : AtomicType) (v : SparkValue F) : SparkValue F :=
  if isFloat t then v.finiteOrNull else v

theorem floatLeaf_sound {c : Column F} (ht : isFloat t = true) (hc : c.dataType = .atomic t) :
    ∃ c', nonfiniteRewrite.leaf t c = .ok c' ∧ c'.dataType = .atomic t ∧
      ∀ row, c'.eval row = (c.eval row).finiteOrNull := by
  have hfloating : Column.isFloating c.dataType = true := by
    rw [hc]
    cases t <;> first | rfl | cases ht
  simp only [nonfiniteRewrite, if_pos ht, Column.isNonFinite, Column.function_ok hfloating]
  exact ⟨_, if_pos hc.symm, rfl, fun row => SparkValue.ite_isNonFinite _⟩

/-- The guard against floats that are not finite walks down the type that the column had before the
rewrite of its dates. -/
theorem nonfiniteRewrite_sound (hh : ∀ t, isFloat t = true → h t = t) :
    (nonfiniteRewrite : Rewrite F).Sound P h h nonfiniteLeaf where
  leaf t c hc := by
    by_cases ht : isFloat t = true
    · rw [hh t ht] at hc ⊢
      obtain ⟨c', hleaf, htype, heval⟩ := floatLeaf_sound ht hc
      exact ⟨c', hleaf, htype, fun row _ => by rw [heval, nonfiniteLeaf, if_pos ht]⟩
    · refine ⟨c, if_neg ht, hc, fun row _ => by rw [nonfiniteLeaf, if_neg ht]⟩
  unchanged dt hdt := ⟨rfl, fun v hv =>
    mapLeaves_unchanged (fun t v ht => by simp [nonfiniteLeaf, ht]) hdt hv⟩
  nullType r dt c _ hc := hc
  nullStruct dt c row hrow := hrow

theorem nonfiniteRewrite_nullTyped : (nonfiniteRewrite : Rewrite F).NullTyped :=
  fun _ _ _ hc => hc

end Floats

end EsConnector
