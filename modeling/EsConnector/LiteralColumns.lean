import EsConnector.ActionLines
import EsConnector.FramePasses
import EsConnector.Preflight
import EsConnector.RoundTrip
import Mathlib.Data.List.Forall2

namespace EsConnector
set_option autoImplicit true

variable {F : Type} {P : AtomicType → SparkValue F → Prop} {r : Resolver}

/-- A value of an atomic type. -/
def OfType : AtomicType → SparkValue F → Prop
  | .boolean, .boolean _ => True
  | .tinyint, .integral _ => True
  | .smallint, .integral _ => True
  | .int, .integral _ => True
  | .bigint, .integral _ => True
  | .float, .floating _ => True
  | .double, .floating _ => True
  | .decimal _ scale, .decimal _ scale' => scale = scale'
  | .string, .string _ => True
  | .binary, .binary _ => True
  | .date, .date _ => True
  | .timestamp, .timestamp _ => True
  | .timestampNtz, .timestampNtz _ => True
  | .other _, .other _ => True
  | _, _ => False

/-- A value of each atomic type, given a float. -/
def AtomicType.sample (x : F) : AtomicType → SparkValue F
  | .boolean => .boolean false
  | .tinyint | .smallint | .int | .bigint => .integral 0
  | .float | .double => .floating x
  | .decimal _ scale => .decimal 0 scale
  | .string => .string ""
  | .binary => .binary []
  | .date => .date 0
  | .timestamp => .timestamp 0
  | .timestampNtz => .timestampNtz 0
  | .other _ => .other ""

/-- A value of each type that is not null. -/
def SparkType.sample (x : F) : SparkType → SparkValue F
  | .atomic t => t.sample x
  | .array _ => .array []
  | .map _ _ => .map []
  | .struct fields => .struct (fields.map fun _ => .null)

theorem nulls_typed (schema : Schema) :
    CellsTyped P schema (schema.map fun _ => (.null : SparkValue F)) := by
  induction schema with
  | nil => rfl
  | cons f schema ih => exact ⟨.null, _, rfl, typed_null f.2, ih⟩

theorem sample_typed (x : F) (dt : SparkType) : Typed OfType dt (dt.sample x) := by
  cases dt with
  | atomic t => exact .inr (by cases t <;> trivial)
  | array element => exact .inr ⟨[], rfl, fun _ h => nomatch h⟩
  | map key value => exact .inr ⟨[], rfl, List.nodup_nil, fun _ h => nomatch h⟩
  | struct fields => exact .inr ⟨_, rfl, nulls_typed fields⟩

theorem mapLeaves_sample_ne {f : AtomicType → SparkValue F → SparkValue F} {x : F}
    (hf : ∀ t, f t (t.sample x) ≠ .null) (dt : SparkType) : mapLeaves f dt (dt.sample x) ≠ .null := by
  cases dt with
  | atomic t => exact hf t
  | _ => nofun

/-- A row with a value in one column and nulls in the others. -/
def loneRow (schema : Schema) (i : Nat) (v : SparkValue F) : Row F :=
  (schema.map fun _ => .null).set i v

theorem loneRow_length (schema : Schema) (i : Nat) (v : SparkValue F) :
    (loneRow schema i v).length = schema.length := by
  rw [loneRow, List.length_set, List.length_map]

theorem loneRow_typed {schema : Schema} {i : Nat} {f : String × SparkType} {v : SparkValue F}
    (hi : schema[i]? = some f) (hv : Typed P f.2 v) : CellsTyped P schema (loneRow schema i v) := by
  induction schema generalizing i with
  | nil => cases hi
  | cons g schema ih =>
    cases i with
    | zero =>
      cases hi
      exact ⟨v, _, rfl, hv, nulls_typed schema⟩
    | succ i => exact ⟨.null, _, rfl, typed_null g.2, ih hi⟩

theorem loneRow_self {schema : Schema} {i : Nat} (hi : i < schema.length) (v : SparkValue F) :
    (loneRow schema i v).getD i .null = v := by
  simp [loneRow, List.getD_eq_getElem?_getD, hi]

theorem loneRow_other {schema : Schema} {i j : Nat} (hne : j ≠ i) (v : SparkValue F) :
    (loneRow schema i v).getD j .null = .null := by
  rw [loneRow, List.getD_eq_getElem?_getD, List.getElem?_set_ne hne.symm, List.getElem?_map]
  cases schema[j]? <;> rfl

theorem loneRow_nullBelow {schema : Schema} {i : Nat} {f : String × SparkType} (hi : schema[i]? = some f)
    (v : SparkValue F) : NullBelow schema f.1.length (loneRow schema i v) := by
  refine fun j g hg hlt => loneRow_other (fun he => ?_) v
  rw [he, hi] at hg
  cases hg
  exact Nat.lt_irrefl _ hlt

theorem CellsTyped.getD {schema : Schema} {row : Row F} (h : CellsTyped P schema row) {i : Nat}
    {f : String × SparkType} (hi : schema[i]? = some f) : Typed P f.2 (row.getD i .null) := by
  induction schema generalizing row i with
  | nil => cases hi
  | cons g schema ih =>
    obtain ⟨v, rest, rfl, hv, hrest⟩ := h
    cases i with
    | zero =>
      cases hi
      exact hv
    | succ i => exact ih hrest hi

/-- In a frame whose timestamps have been normalized, a column of the given expression has in each
row what `g` makes of the value under a name. -/
def ReadsLiterally (r : Resolver) (schema : Schema) (name : String)
    (g : SparkType → SparkValue F → SparkValue F)
    (expr : Schema → Except AnalysisException (Column F)) : Prop :=
  ∀ (i : Nat) (dt : SparkType), schema[i]? = some (name, dt) → ∀ (rows : List (Row F)) out,
    (∀ row ∈ rows, CellsTyped OfType schema row) →
    normalizeTimestampsForUtc r ⟨schema, rows⟩ = .ok out → ∀ c, expr out.schema = .ok c →
    List.Forall₂ (fun row stored => c.eval stored =
      g (mapTypes (longWhere isTimestamp) dt) (mapLeaves timestampLeaf dt (row.getD i .null)))
      rows out.rows

/-- An expression that is made of what `F.col` gives for a name. -/
structure MadeOf (r : Resolver) (name : String) (g : SparkType → SparkValue F → SparkValue F)
    (expr : Schema → Except AnalysisException (Column F)) : Prop where
  follows : ∀ schema c, expr schema = .ok c →
    ∃ d, Column.col r schema name = .ok d ∧ Follows d c
  value : ∀ schema i dt c, r.candidates schema name = [((name, dt), i)] →
    Column.col r schema name = .ok (.cellAt (name, dt) i : Column F) → expr schema = .ok c →
    ∀ row : Row F, Shaped dt (row.getD i .null) → c.eval row = g dt (row.getD i .null)

variable {schema : Schema} {name : String} {g : SparkType → SparkValue F → SparkValue F}
  {expr : Schema → Except AnalysisException (Column F)}

theorem col_of_unmarked (hnames : (schema.map Prod.fst).Nodup) (hname : Unmarked name)
    {i : Nat} {dt : SparkType} (hi : schema[i]? = some (name, dt)) {rows : List (Row F)}
    {out : DataFrame F} (hok : normalizeTimestampsForUtc r ⟨schema, rows⟩ = .ok out) {d : Column F}
    (hd : Column.col r out.schema name = .ok d) :
    d = .cellAt (name, mapTypes (longWhere isTimestamp) dt) i ∧
      r.candidates out.schema name = [((name, mapTypes (longWhere isTimestamp) dt), i)] := by
  obtain ⟨φ, -, -, hcells⟩ := normalizeTimestamps_traces hok
  obtain ⟨hfield, -⟩ := hcells i name dt hi hname (List.nodup_iff_count.mp hnames name)
  obtain ⟨f, j, -, -, -, hfound, -⟩ := col_reads hd
  obtain ⟨rfl, hone⟩ := hfound hname
  have hself := mem_candidates.mpr ⟨hfield, r.refl name⟩
  rw [hone, List.mem_singleton] at hself
  cases hself
  exact ⟨rfl, hone⟩

theorem MadeOf.literal (hexpr : MadeOf r name g expr) (hnames : (schema.map Prod.fst).Nodup)
    (hname : Unmarked name) : ReadsLiterally r schema name g expr := by
  intro i dt hi rows out hrows hok c hc
  obtain ⟨d, hd, -⟩ := hexpr.follows _ _ hc
  obtain ⟨rfl, hone⟩ := col_of_unmarked hnames hname hi hok hd
  obtain ⟨φ, -, hmap, hcells⟩ := normalizeTimestamps_traces hok
  obtain ⟨-, hvalue⟩ := hcells i name dt hi hname (List.nodup_iff_count.mp hnames name)
  have hout : out.rows = rows.map φ := congrArg DataFrame.rows (Except.ok.inj (hok.symm.trans (hmap rows)))
  rw [hout]
  refine List.forall₂_map_right_iff.mpr (List.forall₂_same.mpr fun row hrow => ?_)
  have hrow := (hrows row hrow).shaped
  have hcell := hvalue row hrow.length_eq (hrow.getD hi)
  rw [hexpr.value _ i _ c hone hd hc _ (by rw [hcell]; exact Shaped.mapLeaves (hrow.getD hi) _ _),
    hcell]

/-- A name with marks finds a column with a shorter name. -/
theorem MadeOf.marked (hexpr : MadeOf r name g expr) {x : F}
    (hsample : ∀ dt : SparkType, g (mapTypes (longWhere isTimestamp) dt)
      (mapLeaves timestampLeaf dt (dt.sample x)) ≠ .null)
    (hmem : name ∈ schema.map Prod.fst) {rows : List (Row F)} {out : DataFrame F}
    (hok : normalizeTimestampsForUtc r ⟨schema, rows⟩ = .ok out) {c : Column F}
    (hc : expr out.schema = .ok c) (h : ReadsLiterally r schema name g expr) : Unmarked name := by
  by_contra hname
  obtain ⟨⟨_, dt⟩, hf, rfl⟩ := List.mem_map.mp hmem
  obtain ⟨i, hi⟩ := List.getElem?_of_mem hf
  obtain ⟨φ, hφ, hmap, -⟩ := normalizeTimestamps_traces hok
  obtain ⟨d, hd, hfollows⟩ := hexpr.follows _ _ hc
  obtain ⟨f, j, hj, hreads, -, -, hshorter⟩ := col_reads hd
  have hlone := h i dt hi [loneRow schema i (dt.sample x)] _
    (List.forall_mem_singleton.mpr (loneRow_typed hi (sample_typed x dt))) (hmap _) c hc
  obtain ⟨hvalue, -⟩ := List.forall₂_cons.mp hlone
  have hnull := hφ.null _ _ (loneRow_length schema i _) (loneRow_nullBelow hi (dt.sample x))
  rw [(hreads.trans hfollows).null _ (hnull j f hj (hshorter hname)),
    loneRow_self (List.getElem?_eq_some_iff.mp hi).1] at hvalue
  exact hsample dt hvalue.symm

theorem fieldType_of_candidates {i : Nat} {dt : SparkType}
    (hone : r.candidates schema name = [((name, dt), i)]) : fieldType schema name = some dt := by
  obtain ⟨hi, -⟩ := mem_candidates.mp (hone ▸ List.mem_singleton.mpr rfl)
  apply lookup_of_unique (List.mem_reverse.mpr (List.mem_of_getElem? hi))
  intro dt' hdt'
  obtain ⟨j, hj⟩ := List.getElem?_of_mem (List.mem_reverse.mp hdt')
  have hother := mem_candidates.mpr ⟨hj, r.refl name⟩
  rw [hone, List.mem_singleton] at hother
  exact congrArg (fun c => c.1.2) hother

section Expressions

variable [PyFloat F]

/-- The value that goes into the `_id` of a row. -/
def idLeaf (dt : SparkType) (v : SparkValue F) : SparkValue F :=
  match dt with
  | .atomic t => nonfiniteLeaf t v
  | _ => v

/-- The two rewrites of a column in turn, where the analyzer accepts them. -/
theorem sourceRewrites_ok {dt : SparkType} {c c₁ c₂ : Column F} (hc : c.dataType = dt)
    (hc₁ : (if typeHasDateOrNtz dt then rewriteDateNtz r c dt else .ok c) = .ok c₁)
    (hc₂ : (if typeHasFloat dt then nullNonfinite r c₁ dt else .ok c₁) = .ok c₂) :
    c₂.dataType = mapTypes (longWhere isDateOrNtz) dt ∧
      ∀ row, Shaped dt (c.eval row) → c₂.eval row = mapLeaves sourceLeaf dt (c.eval row) := by
  obtain ⟨htype₁, heval₁⟩ := (dateNtzRewrite_sound (P := fun _ _ => True)).optional_ok
    dateNtzRewrite_nullTyped (hc.trans (mapTypes_id dt).symm) hc₁
  obtain ⟨htype₂, heval₂⟩ :=
    (nonfiniteRewrite_sound (P := fun _ _ => True) isFloat_longWhere).optional_ok
      nonfiniteRewrite_nullTyped htype₁ hc₂
  refine ⟨htype₂, ?_⟩
  intro row hrow
  have hfirst := heval₁ row ((mapTypes_id dt).symm ▸ hrow)
  rw [heval₂ row (hfirst ▸ Shaped.mapLeaves hrow _ _), hfirst, mapLeaves_mapLeaves_same]
  rfl

theorem sourceExpr_value {i : Nat} {dt : SparkType} {e : String × Column F}
    (hone : r.candidates schema name = [((name, dt), i)])
    (hcol : Column.col r schema name = .ok (.cellAt (name, dt) i : Column F))
    (he : sourceExpr r schema name = .ok e) :
    e.1 = name ∧ e.2.dataType = mapTypes (longWhere isDateOrNtz) dt ∧
      ∀ row : Row F, Shaped dt (row.getD i .null) →
        e.2.eval row = mapLeaves sourceLeaf dt (row.getD i .null) := by
  rw [sourceExpr_eq hcol (fieldType_of_candidates hone)] at he
  obtain ⟨c₁, hc₁, he⟩ := bind_ok he
  obtain ⟨c₂, hc₂, he⟩ := bind_ok he
  cases he
  obtain ⟨htype, heval⟩ := sourceRewrites_ok (c := .cellAt (name, dt) i) rfl hc₁ hc₂
  exact ⟨rfl, htype, heval⟩

theorem sourceExpr_madeOf (name : String) :
    MadeOf r name (mapLeaves sourceLeaf) fun schema =>
      (sourceExpr r schema name).map (Prod.snd : String × Column F → Column F) where
  follows schema c hc := by
    obtain ⟨e, he, rfl⟩ := map_ok hc
    obtain ⟨d, hd, -, hfollows⟩ := sourceExpr_follows he
    exact ⟨d, hd, hfollows⟩
  value schema i dt c hone hcol hc := by
    obtain ⟨e, he, rfl⟩ := map_ok hc
    exact (sourceExpr_value hone hcol he).2.2

theorem idColumn_value {i : Nat} {dt : SparkType} {c : Column F}
    (hone : r.candidates schema name = [((name, dt), i)])
    (hcol : Column.col r schema name = .ok (.cellAt (name, dt) i : Column F))
    (hc : idColumn r schema name = .ok c) :
    c.dataType = dt ∧ ∀ row : Row F, c.eval row = idLeaf dt (row.getD i .null) := by
  rw [idColumn, hcol, ok_bind, fieldType_of_candidates hone] at hc
  cases dt with
  | atomic t =>
    dsimp only at hc
    split at hc
    · rename_i ht
      obtain ⟨d, hd, htype, heval⟩ :=
        floatLeaf_sound (c := (.cellAt (name, .atomic t) i : Column F)) ht rfl
      cases hc.symm.trans hd
      refine ⟨htype, ?_⟩
      intro row
      rw [heval, idLeaf, nonfiniteLeaf, if_pos ht]
      rfl
    · rename_i ht
      cases hc
      refine ⟨rfl, ?_⟩
      intro row
      rw [idLeaf, nonfiniteLeaf, if_neg ht]
      rfl
  | _ =>
    cases hc
    exact ⟨rfl, fun row => rfl⟩

theorem idColumn_madeOf (name : String) :
    MadeOf r name (idLeaf : SparkType → SparkValue F → SparkValue F) fun schema =>
      idColumn r schema name where
  follows _ _ hc := idColumn_follows hc
  value _ _ _ _ hone hcol hc row _ := (idColumn_value hone hcol hc).2 row

omit [PyFloat F] in
theorem col_madeOf (name : String) :
    MadeOf r name (fun _ (v : SparkValue F) => v) fun schema => Column.col r schema name where
  follows schema c hc := ⟨c, hc, .refl c⟩
  value schema i dt c _ hcol hc row _ := by
    cases hcol.symm.trans hc
    rfl

theorem sourceLeaf_sample_ne {x : F} (hx : nonFinite x = false) (t : AtomicType) :
    sourceLeaf (longWhere isTimestamp t) (timestampLeaf t (t.sample x)) ≠ .null := by
  cases t <;> simp [sourceLeaf, nonfiniteLeaf, dateNtzLeaf, timestampLeaf, longWhere, isTimestamp,
    isFloat, AtomicType.sample, SparkValue.finiteOrNull, SparkValue.unixMillis, hx]

theorem sourceValue_sample_ne {x : F} (hx : nonFinite x = false) (dt : SparkType) :
    mapLeaves sourceLeaf (mapTypes (longWhere isTimestamp) dt)
      (mapLeaves timestampLeaf dt (dt.sample x)) ≠ .null := by
  rw [mapLeaves_mapLeaves]
  exact mapLeaves_sample_ne (sourceLeaf_sample_ne hx) dt

omit [PyFloat F] in
theorem timestampLeaf_sample_ne (x : F) (t : AtomicType) :
    timestampLeaf t (t.sample x) ≠ .null := by
  cases t <;> simp [timestampLeaf, isTimestamp, AtomicType.sample, SparkValue.unixMillis]

theorem idValue_sample_ne {x : F} (hx : nonFinite x = false) (dt : SparkType) :
    idLeaf (mapTypes (longWhere isTimestamp) dt) (mapLeaves timestampLeaf dt (dt.sample x)) ≠ .null := by
  cases dt with
  | atomic t =>
    cases t <;> simp [idLeaf, mapTypes, mapLeaves, nonfiniteLeaf, timestampLeaf, longWhere,
      isTimestamp, isFloat, SparkType.sample, AtomicType.sample, SparkValue.finiteOrNull,
      SparkValue.unixMillis, hx]
  | _ =>
    intro h
    cases h

end Expressions

/-- The names that decide what `build_ndjson` writes: those that go into `_source`, and those of the
id and the flag. -/
def ReadsName (cfg : EsWriteConfig) (name : String) : Prop :=
  name ∉ droppedColumns cfg ∨ cfg.idColumnName = some name ∨
    (cfg.hasDeletes = true ∧ cfg.deleteFlagColumn = some name)

instance (cfg : EsWriteConfig) (name : String) : Decidable (ReadsName cfg name) :=
  inferInstanceAs (Decidable (_ ∨ _ ∨ _))

/-- Two rows agree on the columns that are read. -/
def AgreeOnRead (cfg : EsWriteConfig) (schema : Schema) (row row' : Row F) : Prop :=
  ∀ i f, schema[i]? = some f → ReadsName cfg f.1 → row.getD i .null = row'.getD i .null

/-- Each value that is written comes from the column literally of its name, so that a dropped column
shows in no line. -/
structure ComputedLiterally [PyFloat F] (J : SparkFunctions F) (r : Resolver) (cfg : EsWriteConfig)
    (schema : Schema) : Prop where
  keys : ∀ (rows : List (Row F)) out, normalizeTimestampsForUtc r ⟨schema, rows⟩ = .ok out →
    payloadColumns out.columns (droppedColumns cfg) =
      payloadColumns (schema.map Prod.fst) (droppedColumns cfg)
  source : ∀ name ∈ payloadColumns (schema.map Prod.fst) (droppedColumns cfg),
    ReadsLiterally r schema name (mapLeaves sourceLeaf) fun schema =>
      (sourceExpr r schema name).map (Prod.snd : String × Column F → Column F)
  id : ∀ name, cfg.idColumnName = some name →
    ReadsLiterally r schema name (idLeaf : SparkType → SparkValue F → SparkValue F) fun schema =>
      idColumn r schema name
  flag : ∀ name, cfg.hasDeletes = true → cfg.deleteFlagColumn = some name →
    ReadsLiterally r schema name (fun _ (v : SparkValue F) => v) fun schema =>
      Column.col r schema name
  dropped : ∀ (rows rows' : List (Row F)) out out' line, (∀ row ∈ rows, CellsTyped OfType schema row) →
    (∀ row ∈ rows', CellsTyped OfType schema row) →
    List.Forall₂ (AgreeOnRead cfg schema) rows rows' →
    normalizeTimestampsForUtc r ⟨schema, rows⟩ = .ok out →
    normalizeTimestampsForUtc r ⟨schema, rows'⟩ = .ok out' →
    buildNdjson J r cfg out.schema = .ok line →
    out.rows.map (lineOf line) = out'.rows.map (lineOf line)

theorem map_eq_of_forall₂ {α β : Type} {R : α → α → Prop} {f : α → β} {xs ys : List α}
    (h : List.Forall₂ R xs ys) (hf : ∀ x ∈ xs, ∀ y ∈ ys, R x y → f x = f y) : xs.map f = ys.map f := by
  induction h with
  | nil => rfl
  | cons hxy _ ih =>
    rw [List.map_cons, List.map_cons, hf _ List.mem_cons_self _ List.mem_cons_self hxy,
      ih fun x hx y hy => hf x (List.mem_cons_of_mem _ hx) y (List.mem_cons_of_mem _ hy)]

section Lines

variable [PyFloat F] {J : SparkFunctions F} {cfg : EsWriteConfig} {rows : List (Row F)}
  {out : DataFrame F}

omit [PyFloat F] in
theorem payloadColumns_normalized (hunmarked : ∀ f ∈ schema, ReadsName cfg f.1 → Unmarked f.1)
    (hok : normalizeTimestampsForUtc r ⟨schema, rows⟩ = .ok out) :
    payloadColumns out.columns (droppedColumns cfg) =
      payloadColumns (schema.map Prod.fst) (droppedColumns cfg) := by
  obtain ⟨φ, hφ, -, -⟩ := normalizeTimestamps_traces hok
  refine filter_eq_of_getElem? fun i => Option.ext fun name => ?_
  have hkept {name : String} (hmem : name ∈ schema.map Prod.fst) (hname : name ∉ droppedColumns cfg) :
      Unmarked name := by
    obtain ⟨f, hf, rfl⟩ := List.mem_map.mp hmem
    exact hunmarked f hf (.inl hname)
  simp only [DataFrame.columns, List.getElem?_map, Option.filter_eq_some_iff, Option.map_eq_some_iff,
    decide_eq_true_eq]
  constructor
  · rintro ⟨⟨f, hf, rfl⟩, hname⟩
    obtain ⟨dt, hdt⟩ := hφ.only i f hf (hkept (hφ.names i f hf) hname)
    exact ⟨⟨_, hdt, rfl⟩, hname⟩
  · rintro ⟨⟨f, hf, rfl⟩, hname⟩
    have hmem := List.mem_map_of_mem (f := Prod.fst) (List.mem_of_getElem? hf)
    obtain ⟨dt, hdt⟩ := hφ.kept i f hf (hkept hmem hname)
    exact ⟨⟨_, hdt, rfl⟩, hname⟩

omit [PyFloat F] in
theorem col_congr (hnames : (schema.map Prod.fst).Nodup) {name : String} (hname : Unmarked name)
    {i : Nat} {dt : SparkType} (hi : schema[i]? = some (name, dt))
    (hok : normalizeTimestampsForUtc r ⟨schema, rows⟩ = .ok out) {φ : Row F → Row F}
    (hcells : ∀ (i : Nat) (n : String) (dt : SparkType), schema[i]? = some (n, dt) → Unmarked n →
      (schema.map Prod.fst).count n ≤ 1 →
        out.schema[i]? = some (n, mapTypes (longWhere isTimestamp) dt) ∧
        ∀ row, row.length = schema.length → Shaped dt (row.getD i .null) →
          (φ row).getD i .null = mapLeaves timestampLeaf dt (row.getD i .null))
    {c : Column F} (hc : Column.col r out.schema name = .ok c) {row row' : Row F}
    (hrow : CellsShaped schema row) (hrow' : CellsShaped schema row')
    (heq : row.getD i .null = row'.getD i .null) : c.eval (φ row) = c.eval (φ row') := by
  obtain ⟨rfl, -⟩ := col_of_unmarked hnames hname hi hok hc
  obtain ⟨-, hvalue⟩ := hcells i name dt hi hname (List.nodup_iff_count.mp hnames name)
  dsimp only [Column.cellAt]
  rw [hvalue row hrow.length_eq (hrow.getD hi), hvalue row' hrow'.length_eq (hrow'.getD hi), heq]

section Accepted

variable {indexExists : Bool} (hok : normalizeTimestampsForUtc r ⟨schema, rows⟩ = .ok out)
  (hpre : preflight cfg out.schema indexExists = .ok ())
include hok

omit [PyFloat F] in
theorem mem_of_normalized {name : String} (h : name ∈ out.schema.map Prod.fst) :
    name ∈ schema.map Prod.fst := by
  obtain ⟨φ, hφ, -, -⟩ := normalizeTimestamps_traces hok
  obtain ⟨f, hf, rfl⟩ := List.mem_map.mp h
  obtain ⟨i, hi⟩ := List.getElem?_of_mem hf
  exact hφ.names i f hi

include hpre

omit [PyFloat F] in
theorem idColumn_mem {name : String} (h : cfg.idColumnName = some name) :
    name ∈ schema.map Prod.fst :=
  mem_of_normalized hok ((preflight_ok hpre).id name (idField_of_idColumnName h))

omit [PyFloat F] in
theorem flagColumn_mem {name : String} (hdeletes : cfg.hasDeletes = true)
    (h : cfg.deleteFlagColumn = some name) : name ∈ schema.map Prod.fst := by
  obtain ⟨name', hname', hflag⟩ := (preflight_ok hpre).flag hdeletes
  cases h.symm.trans hname'
  exact mem_of_normalized hok (List.mem_map.mpr ⟨_, columnType_mem hflag, rfl⟩)

theorem lineOf_congr {line : Column F} (hnames : (schema.map Prod.fst).Nodup)
    (hunmarked : ∀ f ∈ schema, ReadsName cfg f.1 → Unmarked f.1) {φ : Row F → Row F}
    (hcells : ∀ (i : Nat) (n : String) (dt : SparkType), schema[i]? = some (n, dt) → Unmarked n →
      (schema.map Prod.fst).count n ≤ 1 →
        out.schema[i]? = some (n, mapTypes (longWhere isTimestamp) dt) ∧
        ∀ row, row.length = schema.length → Shaped dt (row.getD i .null) →
          (φ row).getD i .null = mapLeaves timestampLeaf dt (row.getD i .null))
    (hline : buildNdjson J r cfg out.schema = .ok line) {row row' : Row F}
    (hrow : CellsShaped schema row) (hrow' : CellsShaped schema row')
    (hagree : AgreeOnRead cfg schema row row') : lineOf line (φ row) = lineOf line (φ row') := by
  obtain ⟨a, ha, hlines⟩ := buildNdjson_lines hline
  have hread {name : String} (hmem : name ∈ schema.map Prod.fst) (hread : ReadsName cfg name)
      (c : Column F) (hc : Column.col r out.schema name = .ok c) :
      c.eval (φ row) = c.eval (φ row') := by
    obtain ⟨f, hf, rfl⟩ := List.mem_map.mp hmem
    obtain ⟨i, hi⟩ := List.getElem?_of_mem hf
    exact col_congr hnames (hunmarked f hf hread) hi hok hcells hc hrow hrow' (hagree i f hi hread)
  rw [hlines, hlines]
  apply lineText_congr ha
  · intro name hname
    have hkeys := payloadColumns_normalized hunmarked hok
    obtain ⟨hmem, hkept⟩ := mem_payloadColumns.mp (hkeys ▸ hname)
    exact hread hmem (.inl hkept)
  · intro name hname
    exact hread (idColumn_mem hok hpre hname) (.inr (.inl hname))
  · intro hdeletes
    obtain ⟨name, hname, -⟩ := (preflight_ok hpre).flag hdeletes
    rw [hname]
    exact hread (flagColumn_mem hok hpre hdeletes hname) (.inr (.inr ⟨hdeletes, hname⟩))

theorem computedLiterally_of_unmarked {line : Column F} (hnames : (schema.map Prod.fst).Nodup)
    (hline : buildNdjson J r cfg out.schema = .ok line)
    (hunmarked : ∀ f ∈ schema, ReadsName cfg f.1 → Unmarked f.1) :
    ComputedLiterally J r cfg schema := by
  obtain ⟨φ, -, hmap, hcells⟩ := normalizeTimestamps_traces hok
  have hused {name : String} (hmem : name ∈ schema.map Prod.fst) (hread : ReadsName cfg name) :
      Unmarked name := by
    obtain ⟨f, hf, rfl⟩ := List.mem_map.mp hmem
    exact hunmarked f hf hread
  refine ⟨fun rows out hok => payloadColumns_normalized hunmarked hok, ?_, ?_, ?_, ?_⟩
  · intro name hname
    obtain ⟨hmem, hkept⟩ := mem_payloadColumns.mp hname
    exact (sourceExpr_madeOf name).literal hnames (hused hmem (.inl hkept))
  · intro name hname
    exact (idColumn_madeOf name).literal hnames
      (hused (idColumn_mem hok hpre hname) (.inr (.inl hname)))
  · intro name hdeletes hname
    exact (col_madeOf name).literal hnames
      (hused (flagColumn_mem hok hpre hdeletes hname) (.inr (.inr ⟨hdeletes, hname⟩)))
  · intro rows₁ rows₂ out₁ out₂ line' hrows₁ hrows₂ hagree hok₁ hok₂ hline'
    have hout₁ := Except.ok.inj (hok₁.symm.trans (hmap rows₁))
    have hout₂ := Except.ok.inj (hok₂.symm.trans (hmap rows₂))
    subst hout₁ hout₂
    cases hline.symm.trans hline'
    rw [List.map_map, List.map_map]
    apply map_eq_of_forall₂ hagree
    intro row hrow row' hrow' hagree
    exact lineOf_congr hok hpre hnames hunmarked hcells hline (hrows₁ row hrow).shaped
      (hrows₂ row' hrow').shaped hagree

omit hpre in
theorem unmarked_of_computedLiterally {x : F} (hx : nonFinite x = false) {line : Column F}
    (hline : buildNdjson J r cfg out.schema = .ok line) (h : ComputedLiterally J r cfg schema) :
    ∀ f ∈ schema, ReadsName cfg f.1 → Unmarked f.1 := by
  obtain ⟨a, ha, -⟩ := buildNdjson_lines hline
  intro f hf hread
  have hmem := List.mem_map_of_mem (f := Prod.fst) hf
  rcases hread with hkept | hid | ⟨hdeletes, hflag⟩
  · have hpayload : f.1 ∈ payloadColumns (schema.map Prod.fst) (droppedColumns cfg) :=
      List.mem_filter.mpr ⟨hmem, decide_eq_true hkept⟩
    obtain ⟨cols, hcols, -⟩ := sourceStruct_ok ha.source
    obtain ⟨e, -, he⟩ := mapM_ok hcols f.1 (h.keys rows out hok ▸ hpayload)
    exact (sourceExpr_madeOf f.1).marked (sourceValue_sample_ne hx) hmem hok
      (c := e.2) (by rw [he]; rfl) (h.source f.1 hpayload)
  · obtain ⟨c, hc, -⟩ := ha.id f.1 hid
    exact (idColumn_madeOf f.1).marked (idValue_sample_ne hx) hmem hok hc (h.id f.1 hid)
  · obtain ⟨c, d, hc, -, -⟩ := ha.flag hdeletes
    rw [hflag] at hc
    exact (col_madeOf f.1).marked (mapLeaves_sample_ne (timestampLeaf_sample_ne x)) hmem hok hc
      (h.flag f.1 hdeletes hflag)

end Accepted

end Lines

section Example

/-- A struct column, and a column whose name is the path of its field. -/
def ownerSchema : Schema :=
  [("owner", .struct [("name", .atomic .string)]), ("owner.name", .atomic .string)]

def ownerRow (nested dotted : String) : Row FewFloats := [.struct [.string nested], .string dotted]

def peopleConfig (dropFields : List String) : EsWriteConfig :=
  { hosts := "https://es:9200", apiKey := some "key", index := "people", dropFields := dropFields }

end Example

end EsConnector
