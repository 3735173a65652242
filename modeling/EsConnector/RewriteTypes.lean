import EsConnector.SourceColumns

namespace EsConnector
set_option autoImplicit true

variable {F : Type} {P : AtomicType → SparkValue F → Prop} {r : Resolver} {w : Rewrite F}
  {h g : AtomicType → AtomicType} {f : AtomicType → SparkValue F → SparkValue F}

theorem apart_of_selectable {fields : Schema}
    (hselect : ∀ f ∈ fields, ∃ x, Column.fieldOf r fields f.1 = .ok x) : NamesApart r fields := by
  -- a name finds its own field, so a second field of the same name would make it ambiguous
  have honly (i j : Nat) (hi : i < fields.length) (hj : j < fields.length)
      (hsame : r.same fields[j].1 fields[i].1 = true) : j = i := by
    obtain ⟨x, hx⟩ := hselect fields[i] (List.getElem_mem hi)
    have hmem (k : Nat) (hk : k < fields.length) (h : r.same fields[k].1 fields[i].1 = true) :
        (fields[k], k) ∈ r.candidates fields fields[i].1 :=
      List.mem_filter.mpr ⟨List.mem_zipIdx_iff_getElem?.mpr (List.getElem?_eq_getElem hk), h⟩
    have hself := hmem i hi (r.refl _)
    have hother := hmem j hj hsame
    rw [Column.fieldOf] at hx
    split at hx
    · cases hx
    · rename_i hone
      rw [hone, List.mem_singleton] at hself hother
      exact congrArg Prod.snd (hother.trans hself.symm)
    · cases hx
  apply List.pairwise_iff_getElem.mpr
  intro i j hi hj hlt
  refine ⟨Bool.eq_false_iff.mpr ?_, Bool.eq_false_iff.mpr ?_⟩
  · intro hsame
    exact absurd (honly j i hj hi hsame) (Nat.ne_of_lt hlt)
  · intro hsame
    exact absurd (honly i j hi hj hsame) (Nat.ne_of_gt hlt)

theorem getItem_struct_ok {c x : Column F} {fields : Schema} {name : String}
    (hc : c.dataType = .struct fields) (hx : c.getItem r name = .ok x) :
    ∃ i, Column.fieldOf r fields name = .ok (i, x.dataType) := by
  rw [Column.getItem, hc] at hx
  obtain ⟨⟨i, dt⟩, hfield, hx⟩ := bind_ok hx
  cases hx
  exact ⟨i, hfield⟩

theorem Rewrite.applyFields_ok {c : Column F} {all : Schema} (hc : c.dataType = .struct all)
    {fields : Schema} {cols : List (String × Column F)}
    (hcols : w.applyFields r fields c = .ok cols) :
    ∀ fd ∈ fields, ∃ (i : Nat) (x : Column F), Column.fieldOf r all fd.1 = .ok (i, x.dataType) ∧
      (w.has fd.2 = true → ∃ c', w.apply r fd.2 x = .ok c') := by
  induction fields generalizing cols with
  | nil => exact fun _ hfd => nomatch hfd
  | cons fd fields ih =>
    obtain ⟨x, field, rest, hx, hfield, hrest, -⟩ := Rewrite.applyFields_cons_ok hcols
    refine List.forall_mem_cons.mpr ⟨?_, ih hrest⟩
    obtain ⟨i, hi⟩ := getItem_struct_ok hc hx
    exact ⟨i, x, hi, fun hhas => ⟨field, by rwa [if_pos hhas] at hfield⟩⟩

theorem Rewrite.fields_of_ok {fields : Schema} {c : Column F}
    (hc : c.dataType = .struct (mapFields h fields)) {cols : List (String × Column F)}
    (hcols : w.applyFields r fields c = .ok cols) :
    NamesApart r fields ∧ ∀ fd ∈ fields, w.has fd.2 = true →
      ∃ x c' : Column F, x.dataType = mapTypes h fd.2 ∧ w.apply r fd.2 x = .ok c' := by
  have hfields := Rewrite.applyFields_ok hc hcols
  have hapart : NamesApart r (mapFields h fields) := by
    apply apart_of_selectable
    intro fd hfd
    rw [mapFields_eq_map] at hfd
    obtain ⟨fd', hfd', rfl⟩ := List.mem_map.mp hfd
    obtain ⟨i, x, hi, -⟩ := hfields fd' hfd'
    exact ⟨_, hi⟩
  constructor
  · rw [mapFields_eq_map] at hapart
    exact List.pairwise_map.mp hapart
  · intro fd hfd hhas
    obtain ⟨i, x, hi, hrewrite⟩ := hfields fd hfd
    obtain ⟨c', hc'⟩ := hrewrite hhas
    refine ⟨x, c', ?_, hc'⟩
    obtain ⟨before, after, rfl⟩ := List.append_of_mem hfd
    simp only [mapFields_eq_map, List.map_append, List.map_cons] at hapart hi
    rw [fieldOf_of_apart hapart] at hi
    exact (congrArg Prod.snd (Except.ok.inj hi)).symm

/-- Conversely, a walk that the analyzer accepts is over structs that it can rebuild. -/
theorem Rewrite.Sound.walks_of_ok (hw : w.Sound P h g f) (hnull : w.NullTyped)
    {dt : SparkType} {c c' : Column F} (hc : c.dataType = mapTypes h dt)
    (hok : w.apply r dt c = .ok c') : Walks w.has (w.Fits h g) r dt := by
  induction dt generalizing c c' with
  | atomic t => trivial
  | array element ih =>
    obtain ⟨_, body, htype, hbody, -⟩ := Rewrite.apply_array_ok hok
    cases hc.symm.trans htype
    exact ih rfl hbody
  | map key value _ ih =>
    obtain ⟨_, _, body, htype, hbody, -⟩ := Rewrite.apply_map_ok hok
    cases hc.symm.trans htype
    exact ih rfl hbody
  | struct fields ih =>
    obtain ⟨cols, hcols, -, hsame, -⟩ := Rewrite.apply_struct_ok hok
    obtain ⟨hapart, hfields⟩ := Rewrite.fields_of_ok hc hcols
    have hwalks (fd) (hfd : fd ∈ fields) (hhas : w.has fd.2 = true) :
        Walks w.has (w.Fits h g) r fd.2 := by
      obtain ⟨x, c', hx, hc'⟩ := hfields fd hfd hhas
      exact ih fd hfd hx hc'
    refine ⟨hapart, fun d hd => ?_, walksFields_iff.mpr hwalks⟩
    obtain ⟨cols', hcols', htypes, -⟩ := hw.fields hc hapart
      (fun fd hfd hhas c hc => hw.apply_of_walks (hwalks fd hfd hhas) c hc) [] fields rfl
    cases hcols.symm.trans hcols'
    rw [hnull _ d c (hd.trans hc.symm), hsame, Column.struct, htypes, mapTypes]

mutual

/-- No map key of a type has a timestamp. -/
def KeysClear : SparkType → Prop
  | .atomic _ => True
  | .array element => KeysClear element
  | .map key value => typeHasTimestamp key = false ∧ KeysClear value
  | .struct fields => FieldKeysClear fields

def FieldKeysClear : Schema → Prop
  | [] => True
  | (_, dt) :: fields => KeysClear dt ∧ FieldKeysClear fields

end

theorem fieldKeysClear_iff {fields : Schema} :
    FieldKeysClear fields ↔ ∀ f ∈ fields, KeysClear f.2 := by
  induction fields with
  | nil => simp [FieldKeysClear]
  | cons f fields ih => simp [FieldKeysClear, ih]

/-- The structs that `_rewrite_timestamps` rebuilds have fields that are told apart. -/
abbrev Rebuildable (r : Resolver) : SparkType → Prop :=
  Walks typeHasTimestamp (fun _ => True) r

/-- The structs that `_rewrite_timestamps` rebuilds have no map key with a timestamp. -/
def StructKeysClear : SparkType → Prop
  | .atomic _ => True
  | .array element => StructKeysClear element
  | .map _ value => StructKeysClear value
  | .struct fields => FieldKeysClear fields

theorem longWhere_eq_self {p : AtomicType → Bool} (hp : p .bigint = false) {t : AtomicType} :
    longWhere p t = t ↔ p t = false := by
  refine ⟨fun h => ?_, longWhere_of_false t⟩
  by_contra ht
  rw [longWhere, if_pos (by simpa using ht)] at h
  rw [← h, hp] at ht
  exact ht rfl

theorem epochStructType_eq_self {dt : SparkType} :
    epochStructType dt = dt ↔ typeHasTimestamp dt = false := by
  induction dt with
  | atomic t =>
    rw [epochStructType, epochTypeOf, SparkType.atomic.injEq]
    exact longWhere_eq_self (p := isTimestamp) rfl
  | array element ih => simpa [epochStructType, epochTypeOf, typeHasTimestamp, typeHas] using ih
  | map key value ihk ihv =>
    simp only [epochStructType, epochTypeOf, typeHasTimestamp, typeHas, if_true, SparkType.map.injEq,
      Bool.true_and, Bool.or_eq_false_iff]
    exact and_congr ihk ihv
  | struct fields ih =>
    simp only [epochStructType, epochTypeOf, typeHasTimestamp, typeHas, SparkType.struct.injEq]
    rw [fieldsHave_eq_false, epochFieldsOf_eq_map]
    conv_lhs => rhs; rw [← List.map_id fields]
    rw [List.map_inj_left]
    apply forall₂_congr
    intro fd hfd
    exact Prod.ext_iff.trans ((and_iff_right rfl).trans (ih fd hfd))

theorem epochStructType_eq_mapTypes {dt : SparkType} :
    epochStructType dt = mapTypes (longWhere isTimestamp) dt ↔ KeysClear dt := by
  induction dt with
  | atomic t => exact iff_of_true rfl trivial
  | array element ih => simpa [epochStructType, epochTypeOf, mapTypes, KeysClear] using ih
  | map key value _ ih =>
    simp only [epochStructType, epochTypeOf, mapTypes, KeysClear, if_true, SparkType.map.injEq]
    exact and_congr epochStructType_eq_self ih
  | struct fields ih =>
    simp only [epochStructType, epochTypeOf, mapTypes, KeysClear, SparkType.struct.injEq]
    rw [fieldKeysClear_iff, epochFieldsOf_eq_map, mapFields_eq_map, List.map_inj_left]
    apply forall₂_congr
    intro fd hfd
    exact Prod.ext_iff.trans ((and_iff_right rfl).trans (ih fd hfd))

theorem structKeysClear_of_keysClear {dt : SparkType} (hdt : KeysClear dt) : StructKeysClear dt := by
  induction dt with
  | atomic t => trivial
  | array element ih => exact ih hdt
  | map key value _ ih => exact ih hdt.2
  | struct fields _ => exact hdt

theorem timestampRewrite_fits {dt : SparkType} :
    (timestampRewrite : Rewrite F).Fits id (longWhere isTimestamp) dt ↔ KeysClear dt := by
  refine ⟨fun hfits => ?_, fun hclear c _ => epochStructType_eq_mapTypes.mpr hclear⟩
  exact epochStructType_eq_mapTypes.mp (hfits ⟨dt, fun _ => .null⟩ (mapTypes_id dt).symm)

/-- `_rewrite_timestamps` builds what the analyzer accepts just where this holds. -/
theorem timestampRewrite_walks {dt : SparkType} :
    Walks typeHasTimestamp ((timestampRewrite : Rewrite F).Fits id (longWhere isTimestamp)) r dt ↔
      Rebuildable r dt ∧ StructKeysClear dt := by
  induction dt with
  | atomic t => exact iff_of_true trivial ⟨trivial, trivial⟩
  | array element ih => exact ih
  | map key value _ ih => exact ih
  | struct fields ih =>
    simp only [Rebuildable, Walks, StructKeysClear, true_and, walksFields_iff]
    rw [timestampRewrite_fits, KeysClear]
    constructor
    · rintro ⟨hapart, hclear, hfields⟩
      exact ⟨⟨hapart, fun fd hfd hhas => ((ih fd hfd).mp (hfields fd hfd hhas)).1⟩, hclear⟩
    · rintro ⟨⟨hapart, hfields⟩, hclear⟩
      refine ⟨hapart, hclear, fun fd hfd hhas => (ih fd hfd).mpr ⟨hfields fd hfd hhas, ?_⟩⟩
      exact structKeysClear_of_keysClear (fieldKeysClear_iff.mp hclear fd hfd)

theorem rewriteTimestamps_accepted {dt : SparkType} {c : Column F} (hc : c.dataType = dt) :
    (∃ c', rewriteTimestamps r c dt = .ok c') ↔ Rebuildable r dt ∧ StructKeysClear dt := by
  have hw := timestampRewrite_sound (F := F) (P := fun _ _ => True)
  have hc' := hc.trans (mapTypes_id dt).symm
  rw [← timestampRewrite_walks (F := F)]
  constructor
  · rintro ⟨c', hok⟩
    exact hw.walks_of_ok timestampRewrite_nullTyped hc' hok
  · intro hwalks
    obtain ⟨c', hok, -⟩ := hw.apply_of_walks hwalks c hc'
    exact ⟨c', hok⟩

theorem rewriteTimestamps_type {dt : SparkType} {c c' : Column F} (hc : c.dataType = dt)
    (hok : rewriteTimestamps r c dt = .ok c') : c'.dataType = mapTypes (longWhere isTimestamp) dt := by
  have hw := timestampRewrite_sound (F := F) (P := fun _ _ => True)
  have hwalks := (timestampRewrite_walks (F := F)).mpr ((rewriteTimestamps_accepted hc).mp ⟨c', hok⟩)
  obtain ⟨d, hd, htype, -⟩ := hw.apply_of_walks hwalks c (hc.trans (mapTypes_id dt).symm)
  cases hok.symm.trans hd
  exact htype

theorem rewriteTimestamps_typed {dt : SparkType} {c : Column F} (hc : c.dataType = dt) :
    (∃ c', rewriteTimestamps r c dt = .ok c' ∧ c'.dataType = epochStructType dt) ↔
      Rebuildable r dt ∧ KeysClear dt := by
  constructor
  · rintro ⟨c', hok, htype⟩
    have hwalks := (rewriteTimestamps_accepted hc).mp ⟨c', hok⟩
    exact ⟨hwalks.1, epochStructType_eq_mapTypes.mp (htype ▸ rewriteTimestamps_type hc hok)⟩
  · rintro ⟨hrebuild, hclear⟩
    obtain ⟨c', hok⟩ :=
      (rewriteTimestamps_accepted hc).mpr ⟨hrebuild, structKeysClear_of_keysClear hclear⟩
    exact ⟨c', hok, (rewriteTimestamps_type hc hok).trans (epochStructType_eq_mapTypes.mpr hclear).symm⟩

/-- The loop goes through where each of its columns is rewritten. -/
theorem normalizeTimestamps_accepted {schema : Schema} {rows : List (Row F)}
    (hapart : NamesApart r schema)
    (hnames : ∀ f ∈ schema, typeHasTimestamp f.2 = true → PlainName f.1) :
    (∃ out, normalizeTimestampsForUtc r ⟨schema, rows⟩ = .ok out) ↔
      ∀ f ∈ schema, typeHasTimestamp f.2 = true → Rebuildable r f.2 ∧ StructKeysClear f.2 := by
  suffices ∀ (rest before : Schema), schema = before ++ rest → ∀ df : DataFrame F,
      df.schema = mapFields (longWhere isTimestamp) before ++ rest →
      ((∃ out, rest.foldlM (fun out f =>
        if typeHasTimestamp f.2 then do
          let c ← Column.col r out.schema f.1
          return out.withColumn r f.1 (← rewriteTimestamps r c f.2)
        else return out) df = .ok out) ↔
        ∀ f ∈ rest, typeHasTimestamp f.2 = true → Rebuildable r f.2 ∧ StructKeysClear f.2) from
    this schema [] rfl ⟨schema, rows⟩ rfl
  intro rest
  induction rest with
  | nil => exact fun _ _ df _ => iff_of_true ⟨df, rfl⟩ fun _ hf => nomatch hf
  | cons fd rest ih =>
    intro before hsplit df hdf
    have hnext : schema = (before ++ [fd]) ++ rest := by simp [hsplit]
    have hfd : fd ∈ schema := by simp [hsplit]
    have happend (dt) (hdt : dt = mapTypes (longWhere isTimestamp) fd.2) :
        mapFields (longWhere isTimestamp) before ++ (fd.1, dt) :: rest =
          mapFields (longWhere isTimestamp) (before ++ [fd]) ++ rest := by
      rw [hdt, mapFields_eq_map, mapFields_eq_map]
      simp
    rw [List.foldlM_cons, List.forall_mem_cons]
    by_cases hhas : typeHasTimestamp fd.2 = true
    · have hrest := namesApart_mapFields_before (hsplit ▸ hapart) (longWhere isTimestamp)
      have hcol := col_of_plain (F := F) (hnames fd hfd hhas) hrest
      rw [if_pos hhas, hdf, hcol, ok_bind, ← rewriteTimestamps_accepted (F := F) (r := r)
        (c := ⟨fd.2, fun row => row.getD (mapFields (longWhere isTimestamp) before).length .null⟩)
        rfl, imp_iff_right hhas]
      constructor
      · rintro ⟨out, hout⟩
        obtain ⟨next, hnextOk, hout⟩ := bind_ok hout
        obtain ⟨c, hc, hcolumn⟩ := bind_ok hnextOk
        cases hcolumn
        refine ⟨⟨c, hc⟩, (ih _ hnext _ ?_).mp ⟨out, hout⟩⟩
        rw [withColumn_schema_of_apart hdf hrest]
        exact happend _ (rewriteTimestamps_type rfl hc)
      · rintro ⟨⟨c, hc⟩, hfields⟩
        rw [hc]
        refine (ih _ hnext _ ?_).mpr hfields
        rw [withColumn_schema_of_apart hdf hrest]
        exact happend _ (rewriteTimestamps_type rfl hc)
    · rw [if_neg hhas]
      refine (ih _ hnext df ?_).trans (iff_and_self.mpr fun _ h => absurd h hhas)
      have hsame := mapTypes_unchanged (h := id) longWhere_of_false (Bool.eq_false_iff.mpr hhas)
      rw [hdf, ← happend _ rfl, hsame, mapTypes_id]

/-- The rewrite is well typed where no map key has a timestamp. Elsewhere the null branch of a struct
does not have the type of the other. -/
theorem rewrite_well_typed_iff (r : Resolver) :
    (∀ (dt : SparkType) (c : Column F), c.dataType = dt →
      ((∃ c', rewriteTimestamps r c dt = .ok c' ∧ c'.dataType = epochStructType dt) ↔
        Rebuildable r dt ∧ KeysClear dt)) ∧
    ∀ df : DataFrame F, NamesApart r df.schema →
      (∀ f ∈ df.schema, typeHasTimestamp f.2 = true → PlainName f.1) →
      ((∃ out, normalizeTimestampsForUtc r df = .ok out) ↔
        ∀ f ∈ df.schema, typeHasTimestamp f.2 = true → Rebuildable r f.2 ∧ StructKeysClear f.2) :=
  ⟨fun _ _ hc => rewriteTimestamps_typed hc,
    fun _ hapart hnames => normalizeTimestamps_accepted hapart hnames⟩

/-- A struct with a map of instants, and a map from instants that no struct holds. -/
def timelineSchema : Schema :=
  [("visit", .struct [("at", .map (.atomic .string) (.atomic .timestamp))]),
    ("log", .map (.atomic .timestamp) (.atomic .string))]

theorem rewrite_well_typed_timeline :
    (∃ c', rewriteTimestamps .caseSensitive
        (⟨.struct [("at", .map (.atomic .string) (.atomic .timestamp))], fun _ => .null⟩ : Column Empty)
        (.struct [("at", .map (.atomic .string) (.atomic .timestamp))]) = .ok c' ∧
      c'.dataType = .struct [("at", .map (.atomic .string) (.atomic .bigint))]) ∧
    ∃ out, normalizeTimestampsForUtc .caseSensitive (⟨timelineSchema, []⟩ : DataFrame Empty) =
      .ok out := by
  obtain ⟨htyped, haccepted⟩ := rewrite_well_typed_iff (F := Empty) .caseSensitive
  refine ⟨(htyped _ _ rfl).mpr ?_, (haccepted _ ?_ ?_).mpr ?_⟩
  · simp [Walks, WalksFields, NamesApart, KeysClear, FieldKeysClear, typeHasTimestamp, typeHas,
      isTimestamp]
  · decide
  · decide
  · simp [timelineSchema, Walks, WalksFields, NamesApart, StructKeysClear, KeysClear, FieldKeysClear,
      typeHasTimestamp, typeHas, isTimestamp]

/-- A struct with a map from instants is rejected. -/
theorem timestamp_key_rejected :
    normalizeTimestampsForUtc .caseSensitive
      (⟨[("visit", .struct [("log", .map (.atomic .timestamp) (.atomic .string))])], []⟩ :
        DataFrame Empty) =
      .error (.incompatibleBranches
        (.struct [("log", .map (.atomic .bigint) (.atomic .string))])
        (.struct [("log", .map (.atomic .timestamp) (.atomic .string))])) := by
  rfl

end EsConnector
