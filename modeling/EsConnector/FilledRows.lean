import EsConnector.ArrowSanitizer
import EsConnector.LiteralColumns
import Mathlib.Data.List.Dedup

namespace EsConnector
set_option autoImplicit true

variable {F : Type} [PyFloat F] {r : Resolver} {keys : List String}

mutual

/-- A value in which each path over the given keys finds something. -/
def Filled (keys : List String) : SparkType → SparkValue F → Prop
  | .atomic t, v => OfType t v ∧ ∀ x, v = .floating x → nonFinite x = false
  | .array _, v => ∃ xs, v = .array xs
  | .map key value, v =>
    (∃ entries, v = .map entries) ∧ (key = .atomic .string → ∀ k ∈ keys, Filled keys value (v.valueAt k))
  | .struct fields, v => ∃ cells, v = .struct cells ∧ FilledCells keys fields cells

def FilledCells (keys : List String) : Schema → List (SparkValue F) → Prop
  | [], cells => cells = []
  | (_, dt) :: fields, cells =>
    ∃ v rest, cells = v :: rest ∧ Filled keys dt v ∧ FilledCells keys fields rest

end

theorem Filled.present {dt : SparkType} {v : SparkValue F} (h : Filled keys dt v) :
    v.isNull = false := by
  cases dt with
  | atomic t =>
    obtain ⟨htype, -⟩ := h
    cases v with
    | null => cases t <;> cases htype
    | _ => rfl
  | array element =>
    obtain ⟨xs, rfl⟩ := h
    rfl
  | map key value =>
    obtain ⟨⟨entries, rfl⟩, -⟩ := h
    rfl
  | struct fields =>
    obtain ⟨cells, rfl, -⟩ := h
    rfl

theorem filledCells_iff {fields : Schema} {cells : List (SparkValue F)} :
    FilledCells keys fields cells ↔ cells.length = fields.length ∧
      ∀ (i : Nat) (f : String × SparkType), fields[i]? = some f →
        Filled keys f.2 (cells.getD i .null) := by
  induction fields generalizing cells with
  | nil => simp [FilledCells]
  | cons f fields ih =>
    constructor
    · rintro ⟨v, rest, rfl, hv, hrest⟩
      obtain ⟨hlength, hcells⟩ := ih.mp hrest
      refine ⟨congrArg (· + 1) hlength, ?_⟩
      intro i g hg
      cases i with
      | zero =>
        cases hg
        exact hv
      | succ i => exact hcells i g hg
    · rintro ⟨hlength, hcells⟩
      cases cells with
      | nil => cases hlength
      | cons v rest =>
        exact ⟨v, rest, rfl, hcells 0 f rfl,
          ih.mpr ⟨Nat.succ.inj hlength, fun i g hg => hcells (i + 1) g hg⟩⟩

theorem Column.getItem_filled {c d : Column F} {name : String} (h : c.getItem r name = .ok d)
    (hname : name ∈ keys) {row : Row F} (hc : Filled keys c.dataType (c.eval row)) :
    Filled keys d.dataType (d.eval row) := by
  rw [Column.getItem] at h
  split at h
  · rename_i fields hfields
    obtain ⟨⟨i, dt⟩, hfield, h⟩ := bind_ok h
    cases h
    rw [hfields] at hc
    obtain ⟨cells, hcells, hfilled⟩ := hc
    obtain ⟨f, hi, rfl⟩ := fieldOf_getElem? hfield
    dsimp only
    rw [hcells]
    exact (filledCells_iff.mp hfilled).2 i f hi
  · rename_i fields hfields
    obtain ⟨⟨i, dt⟩, -, h⟩ := bind_ok h
    cases h
    rw [hfields] at hc
    obtain ⟨xs, hxs⟩ := hc
    dsimp only
    rw [hxs]
    exact ⟨_, rfl⟩
  · rename_i value hmap
    cases h
    rw [hmap] at hc
    exact hc.2 rfl name hname
  · cases h

theorem Column.getItems_filled {c d : Column F} {names : List String}
    (h : names.foldlM (Column.getItem r) c = .ok d) (hnames : ∀ name ∈ names, name ∈ keys)
    {row : Row F} (hc : Filled keys c.dataType (c.eval row)) :
    Filled keys d.dataType (d.eval row) := by
  induction names generalizing c with
  | nil =>
    cases h
    exact hc
  | cons name names ih =>
    rw [List.foldlM_cons] at h
    obtain ⟨e, he, h⟩ := bind_ok h
    exact ih h (fun name hname => hnames name (List.mem_cons_of_mem _ hname))
      (Column.getItem_filled he (hnames name List.mem_cons_self) hc)

/-- The parts that `F.col` splits a name into. -/
def nameParts (name : String) : List String := (attributeParts [] false name.toList).getD []

theorem Column.col_filled {schema : Schema} {name : String} {c : Column F}
    (h : Column.col r schema name = .ok c) (hname : ∀ part ∈ nameParts name, part ∈ keys)
    {row : Row F} (hrow : FilledCells keys schema row) : Filled keys c.dataType (c.eval row) := by
  obtain ⟨part, nested, f, i, hparts, hone, hitems⟩ := col_parts h
  obtain ⟨hi, -⟩ := mem_candidates.mp (hone ▸ List.mem_singleton.mpr rfl)
  refine Column.getItems_filled hitems (fun name hmem => hname name ?_)
    ((filledCells_iff.mp hrow).2 i f hi)
  rw [nameParts, hparts]
  exact List.mem_cons_of_mem _ hmem

/-- A rewrite that the analyzer judges by the types of its columns. -/
structure Rewrite.Static (w : Rewrite F) : Prop where
  leaf : ∀ t (c d c' : Column F), c.dataType = d.dataType → w.leaf t c = .ok c' →
    ∃ d', w.leaf t d = .ok d' ∧ d'.dataType = c'.dataType
  nullStruct : ∀ dt (c d : Column F), c.dataType = d.dataType →
    (w.nullStruct dt c).dataType = (w.nullStruct dt d).dataType

variable {w : Rewrite F}

omit [PyFloat F] in
theorem Column.getItem_static {c d c' : Column F} {name : String} (hsame : c.dataType = d.dataType)
    (h : c.getItem r name = .ok c') : ∃ d', d.getItem r name = .ok d' ∧ d'.dataType = c'.dataType := by
  rw [Column.getItem] at h ⊢
  rw [← hsame]
  split at h
  · obtain ⟨x, hx, h⟩ := bind_ok h
    cases h
    exact ⟨⟨x.2, fun row => (d.eval row).cell x.1⟩, by rw [hx]; rfl, rfl⟩
  · obtain ⟨x, hx, h⟩ := bind_ok h
    cases h
    exact ⟨⟨.array x.2, fun row => (d.eval row).mapArray (SparkValue.cell x.1)⟩, by rw [hx]; rfl, rfl⟩
  · cases h
    exact ⟨_, rfl, rfl⟩
  · cases h

omit [PyFloat F] in
theorem Rewrite.applyFields_static {fields : Schema}
    (ih : ∀ fd ∈ fields, ∀ c d c' : Column F, c.dataType = d.dataType → w.apply r fd.2 c = .ok c' →
      ∃ d', w.apply r fd.2 d = .ok d' ∧ d'.dataType = c'.dataType) {c d : Column F}
    {cols : List (String × Column F)} (hsame : c.dataType = d.dataType)
    (h : w.applyFields r fields c = .ok cols) :
    ∃ cols', w.applyFields r fields d = .ok cols' ∧
      cols'.map (fun e => (e.1, e.2.dataType)) = cols.map fun e => (e.1, e.2.dataType) := by
  induction fields generalizing cols with
  | nil =>
    cases h
    exact ⟨[], rfl, rfl⟩
  | cons fd fields ihfields =>
    obtain ⟨x, field, rest, hx, hfield, hrest, rfl⟩ := Rewrite.applyFields_cons_ok h
    obtain ⟨y, hy, htype⟩ := Column.getItem_static hsame hx
    obtain ⟨rest', hrest', htypes⟩ :=
      ihfields (fun fd hfd => ih fd (List.mem_cons_of_mem _ hfd)) hrest
    obtain ⟨field', hfield', hfieldType⟩ : ∃ field',
        (if w.has fd.2 then w.apply r fd.2 y else .ok y) = .ok field' ∧
          field'.dataType = field.dataType := by
      split at hfield
      · rename_i hhas
        rw [if_pos hhas]
        exact ih fd List.mem_cons_self x y field htype.symm hfield
      · rename_i hhas
        cases hfield
        exact ⟨y, if_neg hhas, htype⟩
    refine ⟨(fd.1, field') :: rest', ?_, ?_⟩
    · rw [Rewrite.applyFields, hy, ok_bind, hfield', ok_bind, hrest', ok_bind]
      rfl
    · rw [List.map_cons, List.map_cons, htypes, hfieldType]

omit [PyFloat F] in
theorem Rewrite.Static.apply (hw : w.Static) {dt : SparkType} {c d c' : Column F}
    (hsame : c.dataType = d.dataType) (h : w.apply r dt c = .ok c') :
    ∃ d', w.apply r dt d = .ok d' ∧ d'.dataType = c'.dataType := by
  induction dt generalizing c d c' with
  | atomic t => exact hw.leaf t c d c' hsame h
  | array element _ =>
    obtain ⟨inner, body, htype, hbody, rfl⟩ := Rewrite.apply_array_ok h
    refine ⟨⟨.array body.dataType, fun row => (d.eval row).mapArray
      (Column.applyLambda (fun e => w.apply r element e) inner row)⟩, ?_, rfl⟩
    rw [Rewrite.apply, Column.transform, ← hsame, htype]
    dsimp only
    rw [hbody]
    rfl
  | map key value _ _ =>
    obtain ⟨key', inner, body, htype, hbody, rfl⟩ := Rewrite.apply_map_ok h
    refine ⟨⟨.map key' body.dataType, fun row => (d.eval row).mapValues
      (Column.applyLambda (fun v => w.apply r value v) inner row)⟩, ?_, rfl⟩
    rw [Rewrite.apply, Column.transformValues, ← hsame, htype]
    dsimp only
    rw [hbody]
    rfl
  | struct fields ih =>
    obtain ⟨cols, hcols, htype, hbranches, -⟩ := Rewrite.apply_struct_ok h
    obtain ⟨cols', hcols', htypes⟩ :=
      Rewrite.applyFields_static (fun fd hfd _ _ _ => ih fd hfd) hsame hcols
    have hnull := hw.nullStruct (.struct fields) c d hsame
    have hstruct : (Column.struct cols').dataType = (Column.struct cols).dataType :=
      congrArg SparkType.struct htypes
    refine ⟨⟨(w.nullStruct (.struct fields) d).dataType, fun row =>
      if (d.isNull.eval row).isTrue then (w.nullStruct (.struct fields) d).eval row
      else (Column.struct cols').eval row⟩, ?_, hnull.symm.trans (hbranches.trans htype.symm)⟩
    rw [Rewrite.apply, hcols', ok_bind]
    exact if_pos (hnull.symm.trans (hbranches.trans hstruct.symm))

omit [PyFloat F] in
theorem timestampRewrite_static : (timestampRewrite : Rewrite F).Static where
  leaf t c d c' hsame h := by
    simp only [timestampRewrite] at h ⊢
    split at h
    · rename_i ht
      obtain ⟨htype, rfl⟩ := Column.function_accepts h
      exact ⟨_, (if_pos ht).trans (Column.function_ok (hsame ▸ htype)), rfl⟩
    · rename_i ht
      cases h
      exact ⟨d, if_neg ht, hsame.symm⟩
  nullStruct _ _ _ _ := rfl

mutual

/-- The names of the fields of the structs in a type. -/
def fieldNames : SparkType → List String
  | .atomic _ => []
  | .array element => fieldNames element
  | .map _ value => fieldNames value
  | .struct fields => fieldNamesOf fields

def fieldNamesOf : Schema → List String
  | [] => []
  | (name, dt) :: fields => name :: fieldNames dt ++ fieldNamesOf fields

end

theorem fieldNamesOf_subset {fields : Schema} (h : fieldNamesOf fields ⊆ keys) :
    ∀ f ∈ fields, f.1 ∈ keys ∧ fieldNames f.2 ⊆ keys := by
  induction fields with
  | nil => exact fun _ hf => nomatch hf
  | cons f fields ih =>
    rw [fieldNamesOf, List.cons_append, List.cons_subset, List.append_subset] at h
    exact List.forall_mem_cons.mpr ⟨⟨h.1, h.2.1⟩, ih h.2.2⟩

omit [PyFloat F] in
theorem SparkValue.valueAt_mapValues {f : SparkValue F → SparkValue F} {k : String} {v : SparkValue F}
    (h : (v.valueAt k).isNull = false) : (v.mapValues f).valueAt k = f (v.valueAt k) := by
  cases v with
  | map entries =>
    induction entries with
    | nil => cases h
    | cons e entries ih =>
      obtain ⟨key, x⟩ := e
      simp only [valueAt, mapValues_map, List.map_cons, List.find?_cons] at h ih ⊢
      cases key with
      | string s => by_cases hs : s = k <;> simp_all
      | _ => exact ih h
  | _ => cases h

theorem applyFields_filled {fields : Schema} (hnames : ∀ f ∈ fields, f.1 ∈ keys) {row : Row F}
    (ih : ∀ fd ∈ fields, ∀ c d : Column F, w.apply r fd.2 c = .ok d →
      Filled keys c.dataType (c.eval row) → Filled keys d.dataType (d.eval row)) {c : Column F}
    (hc : Filled keys c.dataType (c.eval row)) {cols : List (String × Column F)}
    (h : w.applyFields r fields c = .ok cols) :
    FilledCells keys (cols.map fun e => (e.1, e.2.dataType)) (cols.map fun e => e.2.eval row) := by
  induction fields generalizing cols with
  | nil =>
    cases h
    rfl
  | cons fd fields ihfields =>
    obtain ⟨x, field, rest, hx, hfield, hrest, rfl⟩ := Rewrite.applyFields_cons_ok h
    have hfilled := Column.getItem_filled hx (hnames fd List.mem_cons_self) hc
    refine ⟨_, _, rfl, ?_, ihfields (fun f hf => hnames f (List.mem_cons_of_mem _ hf))
      (fun fd hfd => ih fd (List.mem_cons_of_mem _ hfd)) hrest⟩
    split at hfield
    · exact ih fd List.mem_cons_self _ _ hfield hfilled
    · cases hfield
      exact hfilled

theorem timestampRewrite_filled {dt : SparkType} (hnames : fieldNames dt ⊆ keys) {row : Row F}
    {c d : Column F} (h : timestampRewrite.apply r dt c = .ok d)
    (hc : Filled keys c.dataType (c.eval row)) : Filled keys d.dataType (d.eval row) := by
  induction dt generalizing c d with
  | atomic t =>
    simp only [Rewrite.apply, timestampRewrite] at h
    split at h
    · obtain ⟨htype, rfl⟩ := Column.function_accepts h
      rw [of_decide_eq_true htype] at hc
      obtain ⟨htype, -⟩ := hc
      dsimp only
      cases hv : c.eval row with
      | timestamp micros => exact ⟨trivial, fun _ h => by cases h⟩
      | _ =>
        rw [hv] at htype
        cases htype
    · cases h
      exact hc
  | array element _ =>
    obtain ⟨inner, body, htype, -, rfl⟩ := Rewrite.apply_array_ok h
    rw [htype] at hc
    obtain ⟨xs, hxs⟩ := hc
    dsimp only
    rw [hxs]
    exact ⟨_, rfl⟩
  | map key value _ ih =>
    obtain ⟨key', inner, body, htype, hbody, rfl⟩ := Rewrite.apply_map_ok h
    rw [htype] at hc
    obtain ⟨⟨entries, hentries⟩, hvalues⟩ := hc
    refine ⟨⟨_, by dsimp only; rw [hentries, SparkValue.mapValues_map]⟩, fun hkey k hk => ?_⟩
    have hfilled := hvalues hkey k hk
    dsimp only
    rw [SparkValue.valueAt_mapValues hfilled.present]
    obtain ⟨e, he, htype⟩ := timestampRewrite_static.apply
      (c := ⟨inner, fun _ => .null⟩) (d := ⟨inner, fun _ => (c.eval row).valueAt k⟩) rfl hbody
    rw [Column.applyLambda, he, ← htype]
    exact ih hnames he hfilled
  | struct fields ih =>
    obtain ⟨cols, hcols, htype, -, heval⟩ := Rewrite.apply_struct_ok h
    have hfields := fieldNamesOf_subset hnames
    rw [htype, heval, hc.present]
    exact ⟨_, rfl, applyFields_filled (fun f hf => (hfields f hf).1)
      (fun fd hfd _ _ => ih fd hfd (hfields fd hfd).2) hc hcols⟩

omit [PyFloat F] in
theorem sanitizeColumn_string {J : SparkFunctions F} {text : String} {c d : Column F}
    (h : sanitizeColumn J text c = .ok d) : d.dataType = .atomic .string ∧
      ∀ row, (c.eval row).isNull = false → ∃ s, d.eval row = .string s := by
  rw [sanitizeColumn] at h
  split at h
  · cases h
    exact ⟨rfl, fun row hrow => ⟨_, castString_eval hrow⟩⟩
  · rw [Column.toJsonNoOptions] at h
    exact ⟨toJsonBy_string h, fun row hrow => ⟨_, toJsonBy_ok h row hrow⟩⟩

theorem withColumn_filled {schema : Schema} {row : Row F} (hrow : FilledCells keys schema row)
    {name : String} {c : Column F} (hc : Filled keys c.dataType (c.eval row)) :
    FilledCells keys (withColumnSchema r schema name c.dataType)
      (withColumnRow r schema name c row) := by
  obtain ⟨hlength, hcells⟩ := filledCells_iff.mp hrow
  refine filledCells_iff.mpr ⟨withColumnRow_length hlength, fun i f hf => ?_⟩
  rcases withColumn_cell hf with ⟨hi, -, hvalue⟩ | ⟨rfl, -, hvalue⟩
  · rw [hvalue row hlength]
    exact hcells i f hi
  · rw [hvalue row hlength]
    exact hc

theorem rewriteColumns_filled (keys : List String)
    {act : α → Column F → Except AnalysisException (Column F)}
    {steps : List (String × α)} (hparts : ∀ s ∈ steps, nameParts s.1 ⊆ keys)
    (hact : ∀ s ∈ steps, ∀ (c d : Column F) row, act s.2 c = .ok d →
      Filled keys c.dataType (c.eval row) → Filled keys d.dataType (d.eval row))
    {schema : Schema} {row : Row F} {out : DataFrame F}
    (hok : rewriteColumns r act steps ⟨schema, [row]⟩ = .ok out) (hrow : FilledCells keys schema row) :
    ∃ row', out.rows = [row'] ∧ FilledCells keys out.schema row' := by
  induction steps generalizing schema row with
  | nil =>
    cases hok
    exact ⟨row, rfl, hrow⟩
  | cons s steps ih =>
    obtain ⟨c, d, hc, hd, hok⟩ := rewriteColumns_cons_ok hok
    rw [List.map_singleton] at hok
    exact ih (fun s hs => hparts s (List.mem_cons_of_mem _ hs))
      (fun s hs => hact s (List.mem_cons_of_mem _ hs)) hok
      (withColumn_filled hrow (hact s List.mem_cons_self _ _ _ hd
        (Column.col_filled hc (hparts s List.mem_cons_self) hrow)))

omit [PyFloat F] in
theorem rewriteColumns_types {act : α → Column F → Except AnalysisException (Column F)}
    {Q : SparkType → Prop} (hact : ∀ a c d, act a c = .ok d → Q d.dataType)
    {steps : List (String × α)} {df out : DataFrame F} (hok : rewriteColumns r act steps df = .ok out)
    (hdf : ∀ f ∈ df.schema, Q f.2) : ∀ f ∈ out.schema, Q f.2 := by
  induction steps generalizing df with
  | nil =>
    cases hok
    exact hdf
  | cons s steps ih =>
    obtain ⟨c, d, -, hd, hok⟩ := rewriteColumns_cons_ok hok
    apply ih hok
    intro f hf
    obtain ⟨i, hi⟩ := List.getElem?_of_mem hf
    rcases withColumn_cell hi with ⟨hi, -, -⟩ | ⟨rfl, -, -⟩
    · exact hdf f (List.mem_of_getElem? hi)
    · exact hact _ _ _ hd

/-- The names that a path in a frame may have. -/
def pathKeys (schema : Schema) : List String :=
  schema.flatMap fun f => nameParts f.1 ++ fieldNames f.2

theorem pathKeys_subset {schema : Schema} {f : String × SparkType} (hf : f ∈ schema) :
    nameParts f.1 ⊆ pathKeys schema ∧ fieldNames f.2 ⊆ pathKeys schema :=
  List.append_subset.mp fun _ hpart => List.mem_flatMap.mpr ⟨f, hf, hpart⟩

/-- What is found at the paths of a row is not lost on the way to the frame of the lines. -/
theorem preparedFrame_filled {J : SparkFunctions F} {schema : Schema} {row : Row F}
    {out : DataFrame F} (hok : preparedFrame J r ⟨schema, [row]⟩ = .ok out)
    (hrow : FilledCells (pathKeys schema) schema row) :
    ∃ row', out.rows = [row'] ∧ FilledCells (pathKeys schema) out.schema row' := by
  obtain ⟨middle, hmiddle, hok⟩ := bind_ok hok
  obtain ⟨φ, hφ, -⟩ := sanitizeForArrow_traces hmiddle
  obtain ⟨stored, hstored, hfilled⟩ := rewriteColumns_filled (pathKeys schema)
    (fun s hs => by
      obtain ⟨i, dt, hi⟩ := hostileColumns_mem hs
      exact (pathKeys_subset (List.mem_of_getElem? hi)).1)
    (fun s _ c d row hd hc => by
      obtain ⟨htype, hstring⟩ := sanitizeColumn_string hd
      obtain ⟨text, htext⟩ := hstring row hc.present
      rw [htype, htext]
      exact ⟨trivial, nofun⟩)
    hmiddle hrow
  have htypes : ∀ f ∈ middle.schema, fieldNames f.2 ⊆ pathKeys schema :=
    rewriteColumns_types (Q := fun dt => fieldNames dt ⊆ pathKeys schema)
      (fun text c d hd => (sanitizeColumn_string hd).1 ▸ List.nil_subset _) hmiddle
      fun f hf => (pathKeys_subset hf).2
  have hmiddle' : middle = ⟨middle.schema, [stored]⟩ := by rw [← hstored]
  rw [hmiddle', normalizeTimestamps_eq] at hok
  refine rewriteColumns_filled _ ?_ ?_ hok hfilled
  · intro s hs
    obtain ⟨i, hi⟩ := List.getElem?_of_mem (List.mem_of_mem_filter hs)
    obtain ⟨f, hf, hname⟩ := List.mem_map.mp (hφ.names i s hi)
    exact hname ▸ (pathKeys_subset hf).1
  · intro s hs c d row hd hc
    exact timestampRewrite_filled (htypes s (List.mem_of_mem_filter hs)) hd hc

mutual

/-- A value that has something at each path over the given keys, and no array or map that is empty. -/
def SparkType.filled (keys : List String) (x : F) : SparkType → SparkValue F
  | .atomic t => t.sample x
  | .array element => .array [element.filled keys x]
  | .map key value =>
    .map (if key = .atomic .string then
        ("" :: keys).dedup.map fun k => (.string k, value.filled keys x)
      else [(key.filled keys x, value.filled keys x)])
  | .struct fields => .struct (filledRow keys x fields)

def filledRow (keys : List String) (x : F) : Schema → Row F
  | [] => []
  | (_, dt) :: fields => dt.filled keys x :: filledRow keys x fields

end

omit [PyFloat F] in
theorem filledRow_typed {x : F} {fields : Schema}
    (ih : ∀ f ∈ fields, Typed OfType f.2 (f.2.filled keys x)) :
    CellsTyped OfType fields (filledRow keys x fields) := by
  induction fields with
  | nil => rfl
  | cons f fields ihfields =>
    exact ⟨_, _, rfl, ih f List.mem_cons_self,
      ihfields fun f hf => ih f (List.mem_cons_of_mem _ hf)⟩

omit [PyFloat F] in
theorem AtomicType.sample_typed (x : F) (t : AtomicType) : OfType t (t.sample x) := by
  cases t <;> trivial

omit [PyFloat F] in
theorem SparkType.filled_ne_null (keys : List String) (x : F) (dt : SparkType) :
    dt.filled keys x ≠ .null := by
  cases dt with
  | atomic t => cases t <;> simp [SparkType.filled, AtomicType.sample]
  | _ => simp [SparkType.filled]

omit [PyFloat F] in
theorem SparkType.filled_typed (keys : List String) (x : F) (dt : SparkType) :
    Typed OfType dt (dt.filled keys x) := by
  induction dt with
  | atomic t => exact .inr (t.sample_typed x)
  | array element ih => exact .inr ⟨_, rfl, List.forall_mem_singleton.mpr ih⟩
  | map key value ihkey ih =>
    rw [SparkType.filled]
    split
    · rename_i hkey
      subst hkey
      refine .inr ⟨_, rfl, ?_, ?_⟩
      · rw [List.map_map]
        exact ("" :: keys).nodup_dedup.map fun _ _ h => SparkValue.string.inj h
      · intro e he
        obtain ⟨k, -, rfl⟩ := List.mem_map.mp he
        exact ⟨nofun, .inr trivial, ih⟩
    · exact .inr ⟨_, rfl, List.nodup_singleton _,
        List.forall_mem_singleton.mpr ⟨key.filled_ne_null keys x, ihkey, ih⟩⟩
  | struct fields ih => exact .inr ⟨_, rfl, filledRow_typed ih⟩

omit [PyFloat F] in
theorem valueAt_filled {v : SparkValue F} {k : String} {ks : List String} (hk : k ∈ ks) :
    (SparkValue.map (ks.map fun k => (.string k, v))).valueAt k = v := by
  induction ks with
  | nil => cases hk
  | cons k' ks ih =>
    simp only [SparkValue.valueAt, List.map_cons, List.find?_cons] at ih ⊢
    by_cases hsame : k' = k
    · simp [hsame]
    · simp only [hsame, decide_false]
      exact ih ((List.mem_cons.mp hk).resolve_left (Ne.symm hsame))

theorem filledRow_filled {x : F} {fields : Schema}
    (ih : ∀ f ∈ fields, Filled keys f.2 (f.2.filled keys x)) :
    FilledCells keys fields (filledRow keys x fields) := by
  induction fields with
  | nil => rfl
  | cons f fields ihfields =>
    exact ⟨_, _, rfl, ih f List.mem_cons_self,
      ihfields fun f hf => ih f (List.mem_cons_of_mem _ hf)⟩

theorem SparkType.filled_filled {x : F} (hx : nonFinite x = false) (dt : SparkType) :
    Filled keys dt (dt.filled keys x) := by
  induction dt with
  | atomic t =>
    refine ⟨t.sample_typed x, ?_⟩
    intro y hy
    have hxy : x = y := by cases t <;> cases hy <;> rfl
    exact hxy ▸ hx
  | array element _ => exact ⟨_, rfl⟩
  | map key value _ ih =>
    refine ⟨⟨_, rfl⟩, ?_⟩
    intro hkey k hk
    rw [SparkType.filled, if_pos hkey,
      valueAt_filled (List.mem_dedup.mpr (List.mem_cons_of_mem _ hk))]
    exact ih
  | struct fields ih => exact ⟨_, rfl, filledRow_filled ih⟩

omit [PyFloat F] in
theorem filledRow_getD {x : F} {fields : Schema} {i : Nat} {f : String × SparkType}
    (hi : fields[i]? = some f) : (filledRow keys x fields).getD i .null = f.2.filled keys x := by
  induction fields generalizing i with
  | nil => cases hi
  | cons g fields ih =>
    cases i with
    | zero =>
      cases hi
      rfl
    | succ i => exact ih hi

theorem exists_filled {x : F} (hx : nonFinite x = false) (keys : List String) (schema : Schema) :
    ∃ row : Row F, CellsTyped OfType schema row ∧ FilledCells keys schema row :=
  ⟨filledRow keys x schema, filledRow_typed fun f _ => f.2.filled_typed keys x,
    filledRow_filled fun f _ => f.2.filled_filled hx⟩

theorem idColumn_filled {schema : Schema} {name : String} {c : Column F}
    (h : idColumn r schema name = .ok c) (hname : nameParts name ⊆ keys) {row : Row F}
    (hrow : FilledCells keys schema row) : (c.eval row).isNull = false := by
  obtain ⟨d, hd, h⟩ := bind_ok h
  have hfilled := Column.col_filled hd hname hrow
  split at h
  · rename_i t _
    split at h
    · rename_i ht
      simp only [nullNonfinite, Rewrite.apply, nonfiniteRewrite, if_pos ht] at h
      obtain ⟨condition, hcondition, h⟩ := bind_ok h
      obtain ⟨hfloat, rfl⟩ := Column.function_accepts hcondition
      obtain ⟨-, -, heval⟩ := Column.whenOtherwise_ok h
      rw [heval]
      dsimp only
      cases hv : d.eval row with
      | floating x =>
        have hx : nonFinite x = false := by
          cases hdt : d.dataType with
          | atomic t =>
            rw [hdt, hv] at hfilled
            exact hfilled.2 x rfl
          | _ =>
            rw [hdt] at hfloat
            cases hfloat
        rw [SparkValue.isNonFinite, hx]
        rfl
      | null =>
        have hpresent := hfilled.present
        rw [hv] at hpresent
        cases hpresent
      | _ => rfl
    · cases h
      exact hfilled.present
  · cases h
    exact hfilled.present

variable {x : F}

omit [PyFloat F] in
theorem Column.getItem_of_filled {c d : Column F} {name : String} (h : c.getItem r name = .ok d)
    (hname : name ∈ keys) {row : Row F} (hc : c.eval row = c.dataType.filled keys x) :
    d.eval row = d.dataType.filled keys x := by
  rw [Column.getItem] at h
  split at h
  · rename_i fields hfields
    obtain ⟨⟨i, dt⟩, hfield, h⟩ := bind_ok h
    cases h
    rw [hfields, SparkType.filled] at hc
    obtain ⟨f, hi, rfl⟩ := fieldOf_getElem? hfield
    dsimp only
    rw [hc]
    exact filledRow_getD hi
  · rename_i fields hfields
    obtain ⟨⟨i, dt⟩, hfield, h⟩ := bind_ok h
    cases h
    rw [hfields, SparkType.filled, SparkType.filled] at hc
    obtain ⟨f, hi, rfl⟩ := fieldOf_getElem? hfield
    dsimp only
    rw [hc, SparkType.filled, SparkValue.mapArray_array, List.map_singleton]
    exact congrArg (fun v => SparkValue.array [v]) (filledRow_getD hi)
  · rename_i value hmap
    cases h
    rw [hmap, SparkType.filled, if_pos rfl] at hc
    dsimp only
    rw [hc]
    exact valueAt_filled (List.mem_dedup.mpr (List.mem_cons_of_mem _ hname))
  · cases h

omit [PyFloat F] in
theorem applyFields_of_filled {fields : Schema} (hnames : ∀ f ∈ fields, f.1 ∈ keys) {row : Row F}
    (ih : ∀ fd ∈ fields, ∀ c d : Column F, w.apply r fd.2 c = .ok d →
      c.eval row = c.dataType.filled keys x → d.eval row = d.dataType.filled keys x) {c : Column F}
    (hc : c.eval row = c.dataType.filled keys x) {cols : List (String × Column F)}
    (h : w.applyFields r fields c = .ok cols) :
    cols.map (fun e => e.2.eval row) = filledRow keys x (cols.map fun e => (e.1, e.2.dataType)) := by
  induction fields generalizing cols with
  | nil =>
    cases h
    rfl
  | cons fd fields ihfields =>
    obtain ⟨e, field, rest, he, hfield, hrest, rfl⟩ := Rewrite.applyFields_cons_ok h
    have hfilled := Column.getItem_of_filled he (hnames fd List.mem_cons_self) hc
    have hfirst : field.eval row = field.dataType.filled keys x := by
      split at hfield
      · exact ih fd List.mem_cons_self _ _ hfield hfilled
      · cases hfield
        exact hfilled
    rw [List.map_cons, List.map_cons, filledRow, hfirst,
      ihfields (fun f hf => hnames f (List.mem_cons_of_mem _ hf))
        (fun fd hfd => ih fd (List.mem_cons_of_mem _ hfd)) hrest]

omit [PyFloat F] in
/-- A filled value with its timestamps rewritten is filled. -/
theorem timestampRewrite_of_filled {dt : SparkType} (hnames : fieldNames dt ⊆ keys) {row : Row F}
    {c d : Column F} (h : timestampRewrite.apply r dt c = .ok d)
    (hc : c.eval row = c.dataType.filled keys x) : d.eval row = d.dataType.filled keys x := by
  have hlambda {element inner : SparkType} {body : Column F}
      (ih : ∀ {c d : Column F}, timestampRewrite.apply r element c = .ok d →
        c.eval row = c.dataType.filled keys x → d.eval row = d.dataType.filled keys x)
      (hbody : timestampRewrite.apply r element ⟨inner, fun _ => .null⟩ = .ok body) :
      Column.applyLambda (timestampRewrite.apply r element) inner row (inner.filled keys x) =
        body.dataType.filled keys x := by
    obtain ⟨e, he, htype⟩ := timestampRewrite_static.apply
      (c := ⟨inner, fun _ => .null⟩) (d := ⟨inner, fun _ => inner.filled keys x⟩) rfl hbody
    rw [Column.applyLambda, he, ← htype]
    exact ih he rfl
  induction dt generalizing c d with
  | atomic t =>
    simp only [Rewrite.apply, timestampRewrite] at h
    split at h
    · obtain ⟨htype, rfl⟩ := Column.function_accepts h
      rw [of_decide_eq_true htype] at hc
      dsimp only
      rw [hc]
      rfl
    · cases h
      exact hc
  | array element ih =>
    obtain ⟨inner, body, htype, hbody, rfl⟩ := Rewrite.apply_array_ok h
    rw [htype, SparkType.filled] at hc
    dsimp only
    rw [hc, SparkType.filled, SparkValue.mapArray_array, List.map_singleton,
      hlambda (fun h hc => ih hnames h hc) hbody]
  | map key value _ ih =>
    obtain ⟨key', inner, body, htype, hbody, rfl⟩ := Rewrite.apply_map_ok h
    rw [htype, SparkType.filled] at hc
    dsimp only
    rw [hc, SparkType.filled, SparkValue.mapValues_map]
    have hvalue := hlambda (fun h hc => ih hnames h hc) hbody
    split
    · rw [List.map_map]
      exact congrArg SparkValue.map (List.map_congr_left fun k _ => Prod.ext rfl hvalue)
    · rw [List.map_singleton, hvalue]
  | struct fields ih =>
    obtain ⟨cols, hcols, htype, -, heval⟩ := Rewrite.apply_struct_ok h
    have hfields := fieldNamesOf_subset hnames
    have hpresent : (c.eval row).isNull = false := by
      have hne := c.dataType.filled_ne_null keys x
      rw [← hc] at hne
      cases hv : c.eval row with
      | null => exact absurd hv hne
      | _ => rfl
    rw [htype, heval, hpresent]
    exact congrArg SparkValue.struct (applyFields_of_filled (fun f hf => (hfields f hf).1)
      (fun fd hfd _ _ h hc => ih fd hfd (hfields fd hfd).2 h hc) hc hcols)

end EsConnector
