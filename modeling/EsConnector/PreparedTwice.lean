import Mathlib.Data.List.GetD
import EsConnector.CopiedRows
import EsConnector.DescribeScan
import EsConnector.FilledRows

namespace EsConnector
set_option autoImplicit true

variable {F : Type} {J : SparkFunctions F} {r : Resolver} {schema : Schema}

/-- Names that are alike look alike to the scan of the `DESCRIBE` output. -/
def Resolver.KeepsEnds (r : Resolver) : Prop :=
  ∀ a b, r.same a b = true → (EndsColumns a ↔ EndsColumns b)

theorem caseSensitive_keepsEnds : Resolver.caseSensitive.KeepsEnds :=
  fun _ _ h => of_decide_eq_true h ▸ Iff.rfl

section Sanitizer

theorem string_not_hostile : typeIsArrowHostile (SparkType.atomic .string).simpleString = false := by
  decide

/-- The columns of a frame while the sanitizer goes through its steps: as they were, and then not the
columns of a step, or texts in the place of columns that the scan has passed. -/
structure Sanitizing (r : Resolver) (before schema : Schema) (steps : List String) : Prop where
  length : before.length ≤ schema.length
  columns : ∀ (i : Nat) (f : String × SparkType), schema[i]? = some f →
    (before[i]? = some f ∧ ∀ name ∈ steps, r.same f.1 name = false) ∨
    (f.2 = .atomic .string ∧ ¬EndsColumns f.1 ∧
      ∀ g : String × SparkType, before[i]? = some g → ¬EndsColumns g.1)

theorem Sanitizing.refl (schema : Schema) : Sanitizing r schema schema [] where
  length := Nat.le_refl _
  columns _ _ hf := .inl ⟨hf, fun _ h => absurd h List.not_mem_nil⟩

theorem withColumnSchema_length (schema : Schema) (name : String) (dt : SparkType) :
    schema.length ≤ (withColumnSchema r schema name dt).length := by
  rw [withColumnSchema]
  split
  · rw [List.length_map]
  · rw [List.length_append]
    exact Nat.le_add_right _ _

theorem Sanitizing.step {before : Schema} {steps : List String} (h : Sanitizing r before schema steps)
    (hr : r.KeepsEnds) {name : String} (hname : ¬EndsColumns name) {c : Column F}
    (hc : c.dataType = .atomic .string) :
    Sanitizing r before (withColumnSchema r schema name c.dataType) (steps ++ [name]) where
  length := h.length.trans (withColumnSchema_length schema name _)
  columns := by
    intro i f hf
    rcases withColumn_cell hf with ⟨hold, hother, -⟩ | ⟨rfl, hsame, -⟩
    · rcases h.columns i f hold with ⟨hbefore, hnone⟩ | htext
      · refine .inl ⟨hbefore, ?_⟩
        intro step hstep
        rcases List.mem_append.mp hstep with hstep | hstep
        · exact hnone step hstep
        · exact List.mem_singleton.mp hstep ▸ hother
      · exact .inr htext
    · refine .inr ⟨hc, hname, ?_⟩
      intro g hg
      have hlt : i < schema.length := (List.getElem?_eq_some_iff.mp hg).1.trans_le h.length
      have hold := List.getElem?_eq_getElem hlt
      have halike : ¬EndsColumns schema[i].1 := (hr _ _ (hsame _ hold)).not.mpr hname
      rcases h.columns i _ hold with ⟨hbefore, -⟩ | ⟨-, -, hends⟩
      · cases hbefore.symm.trans hg
        exact halike
      · exact hends g hg

theorem rewriteColumns_sanitizing {before : Schema} {done : List String}
    {steps : List (String × String)} {df out : DataFrame F} (hr : r.KeepsEnds)
    (hnames : ∀ s ∈ steps, ¬EndsColumns s.1) (h : Sanitizing r before df.schema done)
    (hok : rewriteColumns r (sanitizeColumn J) steps df = .ok out) :
    Sanitizing r before out.schema (done ++ steps.map Prod.fst) := by
  induction steps generalizing df done with
  | nil =>
    cases hok
    rw [List.map_nil, List.append_nil]
    exact h
  | cons s steps ih =>
    obtain ⟨c, d, -, hd, hrest⟩ := rewriteColumns_cons_ok hok
    have hstep := h.step hr (hnames s List.mem_cons_self) (sanitizeColumn_string hd).1
    have hall := ih (fun s hs => hnames s (List.mem_cons_of_mem _ hs)) hstep hrest
    rwa [List.append_assoc, List.singleton_append] at hall

theorem hostileColumns_names {s : String × String} (h : s ∈ hostileColumns schema) :
    ¬EndsColumns s.1 := by
  have hmem : some s ∈ (hostileColumns schema).map some := List.mem_map_of_mem h
  rw [hostileColumns, hostileColumns_at_positions] at hmem
  obtain ⟨i, hi, hs⟩ := List.mem_map.mp hmem
  obtain ⟨-, -, -, hends⟩ := mem_hostilePositions.mp hi
  exact hends i (Nat.le_refl i) s hs

theorem hostileColumns_nil (h : ∀ (i : Nat) (f : String × SparkType), schema[i]? = some f →
    typeIsArrowHostile f.2.simpleString = true →
      ¬∀ j ≤ i, ∀ g : String × SparkType, schema[j]? = some g → ¬EndsColumns g.1) :
    hostileColumns schema = [] := by
  have hpositions : hostilePositions (describeRows schema) = [] := by
    apply List.eq_nil_iff_forall_not_mem.mpr
    intro i hi
    obtain ⟨row, hrow, hhostile, hends⟩ := mem_hostilePositions.mp hi
    rw [describeRows_get] at hrow
    obtain ⟨f, hf, rfl⟩ := Option.map_eq_some_iff.mp hrow
    apply h i f hf hhostile
    intro j hj g hg
    exact hends j hj (g.1, g.2.simpleString) (by rw [describeRows_get, hg]; rfl)
  rw [hostileColumns, ← List.map_eq_nil_iff (f := some), hostileColumns_at_positions, hpositions,
    List.map_nil]

theorem sanitized_of_hostile {i : Nat} {f : String × SparkType} (hf : schema[i]? = some f)
    (hhostile : typeIsArrowHostile f.2.simpleString = true)
    (hends : ∀ j ≤ i, ∀ g : String × SparkType, schema[j]? = some g → ¬EndsColumns g.1) :
    Sanitized schema f := by
  have hi : i ∈ hostilePositions (describeRows schema) := by
    have hrow : (describeRows schema)[i]? = some (f.1, f.2.simpleString) := by
      rw [describeRows_get, hf]
      rfl
    refine mem_hostilePositions.mpr ⟨(f.1, f.2.simpleString), hrow, hhostile, ?_⟩
    intro j hj row hrow
    rw [describeRows_get] at hrow
    obtain ⟨g, hg, rfl⟩ := Option.map_eq_some_iff.mp hrow
    exact hends j hj g hg
  have hmem := List.mem_map_of_mem (f := ((describeRows schema)[·]?)) hi
  rw [← hostileColumns_at_positions, describeRows_get, hf] at hmem
  obtain ⟨s, hs, he⟩ := List.mem_map.mp hmem
  cases he
  exact hs

theorem hostileColumns_sanitized {df out : DataFrame F} (hr : r.KeepsEnds)
    (hok : sanitizeForArrow J r df = .ok out) : hostileColumns out.schema = [] := by
  have h := rewriteColumns_sanitizing hr (fun s hs => hostileColumns_names hs)
    (Sanitizing.refl df.schema) hok
  rw [List.nil_append] at h
  apply hostileColumns_nil
  intro i f hf hhostile hno
  rcases h.columns i f hf with ⟨hbefore, hnone⟩ | ⟨htext, -⟩
  · have hsanitized : Sanitized df.schema f := by
      apply sanitized_of_hostile hbefore hhostile
      intro j hj g hg
      have hlt : j < out.schema.length := (List.getElem?_eq_some_iff.mp hg).1.trans_le h.length
      have hnow := List.getElem?_eq_getElem hlt
      rcases h.columns j _ hnow with ⟨hsame, -⟩ | ⟨-, -, hends⟩
      · cases hsame.symm.trans hg
        exact hno j hj _ hnow
      · exact hends g hg
    have hself := hnone f.1 (List.mem_map_of_mem hsanitized)
    rw [r.refl] at hself
    cases hself
  · rw [htext, string_not_hostile] at hhostile
    cases hhostile

theorem sanitizeForArrow_quiet {df : DataFrame F} (h : hostileColumns df.schema = []) :
    sanitizeForArrow J r df = .ok df := by
  rw [sanitizeForArrow, h]
  rfl

end Sanitizer

section Types

theorem isTimestamp_longWhere (t : AtomicType) : isTimestamp (longWhere isTimestamp t) = false := by
  rw [longWhere]
  split
  · rfl
  · rename_i h
    exact Bool.eq_false_iff.mpr h

theorem mapTypes_twice (dt : SparkType) : mapTypes (longWhere isTimestamp)
    (mapTypes (longWhere isTimestamp) dt) = mapTypes (longWhere isTimestamp) dt := by
  rw [mapTypes_mapTypes]
  congr 1
  funext t
  exact longWhere_of_false _ (isTimestamp_longWhere t)

theorem mapLeaves_timestamp_twice (dt : SparkType) (v : SparkValue F) :
    mapLeaves timestampLeaf (mapTypes (longWhere isTimestamp) dt) (mapLeaves timestampLeaf dt v) =
      mapLeaves timestampLeaf dt v := by
  rw [mapLeaves_mapLeaves]
  congr 1
  funext t w
  rw [timestampLeaf, isTimestamp_longWhere]
  rfl

theorem typeHasTimestamp_of_mapTypes {dt : SparkType}
    (h : typeHasTimestamp (mapTypes (longWhere isTimestamp) dt) = true) :
    typeHasTimestamp dt = true := by
  induction dt with
  | atomic t =>
    rw [typeHasTimestamp, mapTypes, typeHas, isTimestamp_longWhere] at h
    cases h
  | array element ih => exact ih h
  | map key value _ ih =>
    simp only [typeHasTimestamp, mapTypes, typeHas, Bool.true_and, Bool.or_eq_true] at h ⊢
    exact h.imp_right ih
  | struct fields ih =>
    by_contra hno
    have hfields := fieldsHave_eq_false.mp (Bool.eq_false_iff.mpr hno)
    have hnone : fieldsHave isTimestamp true (mapFields (longWhere isTimestamp) fields) = false := by
      apply fieldsHave_eq_false.mpr
      intro f hf
      rw [mapFields_eq_map] at hf
      obtain ⟨g, hg, rfl⟩ := List.mem_map.mp hf
      exact Bool.eq_false_iff.mpr fun hhas =>
        Bool.false_ne_true ((hfields g hg).symm.trans (ih g hg hhas))
    exact Bool.false_ne_true (hnone.symm.trans h)

theorem Rebuildable.mapTypes {dt : SparkType} (h : Rebuildable r dt) :
    Rebuildable r (mapTypes (longWhere isTimestamp) dt) := by
  induction dt with
  | atomic t => trivial
  | array element ih => exact ih h
  | map key value _ ih => exact ih h
  | struct fields ih =>
    obtain ⟨hapart, -, hfields⟩ := h
    refine ⟨hapart.mapFields _, trivial, walksFields_iff.mpr ?_⟩
    intro f hf hhas
    rw [mapFields_eq_map] at hf
    obtain ⟨g, hg, rfl⟩ := List.mem_map.mp hf
    exact ih g hg (walksFields_iff.mp hfields g hg (typeHasTimestamp_of_mapTypes hhas))

theorem KeysClear.mapTypes {dt : SparkType} (h : KeysClear dt) (g : AtomicType → AtomicType) :
    KeysClear (mapTypes g dt) := by
  induction dt with
  | atomic t => trivial
  | array element ih => exact ih h
  | map key value _ ih => exact ⟨h.1, ih h.2⟩
  | struct fields ih =>
    apply fieldKeysClear_iff.mpr
    intro f hf
    rw [mapFields_eq_map] at hf
    obtain ⟨fd, hfd, rfl⟩ := List.mem_map.mp hf
    exact ih fd hfd (fieldKeysClear_iff.mp h fd hfd)

theorem StructKeysClear.mapTypes {dt : SparkType} (h : StructKeysClear dt)
    (g : AtomicType → AtomicType) :
    StructKeysClear (mapTypes g dt) := by
  induction dt with
  | atomic t => trivial
  | array element ih => exact ih h
  | map key value _ ih => exact ih h
  | struct fields _ =>
    have hfields : KeysClear (.struct fields) := h
    exact hfields.mapTypes g

theorem hostile_of_parts {dt dt' : SparkType} (hnames : namesWithin dt' = namesWithin dt)
    (hleaves : (leafTypes dt').any (fun t => typeIsArrowHostile t.simpleString) =
      (leafTypes dt).any fun t => typeIsArrowHostile t.simpleString) :
    typeIsArrowHostile dt'.simpleString = typeIsArrowHostile dt.simpleString := by
  rw [typeIsArrowHostile_text, typeIsArrowHostile_text, foundWithin, foundWithin, hnames, hleaves]

theorem namesWithin_mapTypes (g : AtomicType → AtomicType) (dt : SparkType) :
    namesWithin (mapTypes g dt) = namesWithin dt := by
  induction dt with
  | atomic t => rfl
  | array element ih => exact ih
  | map key value _ ih => exact congrArg (namesWithin key ++ ·) ih
  | struct fields ih =>
    rw [mapTypes, namesWithin, namesWithin]
    induction fields with
    | nil => rfl
    | cons f fields ihfields =>
      rw [mapFields, namesWithinOf, namesWithinOf, ih f List.mem_cons_self,
        ihfields fun fd hfd => ih fd (List.mem_cons_of_mem _ hfd)]

theorem leafTypes_mapTypes {p : AtomicType → Bool} {g : AtomicType → AtomicType}
    (hg : ∀ t, p (g t) = p t) (dt : SparkType) :
    (leafTypes (mapTypes g dt)).any p = (leafTypes dt).any p := by
  induction dt with
  | atomic t => simp only [mapTypes, leafTypes, List.any_cons, hg]
  | array element ih => exact ih
  | map key value _ ih => rw [mapTypes, leafTypes, leafTypes, List.any_append, List.any_append, ih]
  | struct fields ih =>
    rw [mapTypes, leafTypes, leafTypes]
    induction fields with
    | nil => rfl
    | cons f fields ihfields =>
      rw [mapFields, leafTypesOf, leafTypesOf, List.any_append, List.any_append,
        ih f List.mem_cons_self, ihfields fun fd hfd => ih fd (List.mem_cons_of_mem _ hfd)]

theorem hostile_mapTypes (dt : SparkType) :
    typeIsArrowHostile (mapTypes (longWhere isTimestamp) dt).simpleString =
      typeIsArrowHostile dt.simpleString := by
  apply hostile_of_parts (namesWithin_mapTypes _ dt)
  apply leafTypes_mapTypes
  intro t
  by_cases ht : isTimestamp t = true
  · obtain rfl : t = .timestamp := by simpa [isTimestamp] using ht
    decide
  · rw [longWhere, if_neg ht]

end Types

section Frames

variable {out : DataFrame F} {φ : Row F → Row F}

theorem Traces.schema_eq {schema' : Schema} (h : Traces schema schema' φ)
    (hnames : ∀ f ∈ schema, Unmarked f.1) {g : String × SparkType → SparkType}
    (hfields : ∀ (i : Nat) (f : String × SparkType), schema[i]? = some f →
      schema'[i]? = some (f.1, g f)) :
    schema' = schema.map fun f => (f.1, g f) := by
  apply List.ext_getElem?
  intro i
  rw [List.getElem?_map]
  cases hi : schema[i]? with
  | some f => exact hfields i f hi
  | none =>
    rw [Option.map_none, ← Option.not_isSome_iff_eq_none, Option.isSome_iff_exists]
    rintro ⟨f, hf⟩
    obtain ⟨f', hf', hname⟩ := List.mem_map.mp (h.names i f hf)
    obtain ⟨dt, hdt⟩ := h.only i f hf (hname ▸ hnames f' hf')
    cases hi.symm.trans hdt

/-- A frame that has been prepared has no column left for the sanitizer. -/
theorem prepared_quiet : hostileColumns (schema.map fun f => (f.1, preparedType schema f)) = [] := by
  apply hostileColumns_nil
  intro i f hf hhostile hends
  rw [List.getElem?_map] at hf
  obtain ⟨f₀, hf₀, rfl⟩ := Option.map_eq_some_iff.mp hf
  have hnot : ¬Sanitized schema f₀ := by
    intro hsanitized
    rw [preparedType, if_pos hsanitized, string_not_hostile] at hhostile
    cases hhostile
  rw [preparedType, if_neg hnot, hostile_mapTypes] at hhostile
  apply hnot
  apply sanitized_of_hostile hf₀ hhostile
  intro j hj g hg
  exact hends j hj (g.1, preparedType schema g) (by rw [List.getElem?_map, hg]; rfl)

variable {rows : List (Row F)} (hnames : ∀ f ∈ schema, PlainName f.1) (hapart : NamesApart r schema)
include hnames hapart

theorem sanitizedFrame_columns (hok : sanitizeForArrow J r ⟨schema, rows⟩ = .ok out) :
    out.schema = schema.map fun f => (f.1, if Sanitized schema f then .atomic .string else f.2) := by
  obtain ⟨φ, hφ, -, hcells⟩ := sanitizeForArrow_traces hok
  apply hφ.schema_eq fun f hf => (hnames f hf).unmarked
  intro i f hf
  have hname := (hnames f (List.mem_of_getElem? hf)).unmarked
  exact (hcells i f.1 f.2 hf hname (List.nodup_iff_count_le_one.mp hapart.nodup f.1)).1

theorem preparedFrame_columns (hok : preparedFrame J r ⟨schema, rows⟩ = .ok out) :
    out.schema = schema.map fun f => (f.1, preparedType schema f) := by
  obtain ⟨φ, hφ, -, hcells⟩ := preparedFrame_traces hok
  apply hφ.schema_eq fun f hf => (hnames f hf).unmarked
  intro i f hf
  have hname := (hnames f (List.mem_of_getElem? hf)).unmarked
  exact (hcells i f.1 f.2 hf hname (List.nodup_iff_count_le_one.mp hapart.nodup f.1)).1

theorem prepared_accepted (hok : preparedFrame J r ⟨schema, rows⟩ = .ok out) :
    ∃ again, normalizeTimestampsForUtc r out = .ok again := by
  have hschema := preparedFrame_columns hnames hapart hok
  obtain ⟨middle, hmiddle, hok⟩ := bind_ok hok
  have hmiddleSchema := sanitizedFrame_columns hnames hapart hmiddle
  have hmiddlePlain : ∀ f ∈ middle.schema, typeHasTimestamp f.2 = true → PlainName f.1 := by
    intro f hf _
    rw [hmiddleSchema] at hf
    obtain ⟨f₀, hf₀, rfl⟩ := List.mem_map.mp hf
    exact hnames f₀ hf₀
  have houtPlain : ∀ f ∈ out.schema, typeHasTimestamp f.2 = true → PlainName f.1 := by
    intro f hf _
    rw [hschema] at hf
    obtain ⟨f₀, hf₀, rfl⟩ := List.mem_map.mp hf
    exact hnames f₀ hf₀
  have hfirst : ∀ f ∈ middle.schema, typeHasTimestamp f.2 = true →
      Rebuildable r f.2 ∧ StructKeysClear f.2 :=
    (normalizeTimestamps_accepted (hmiddleSchema ▸ List.pairwise_map.mpr hapart) hmiddlePlain).mp
      ⟨out, hok⟩
  apply (normalizeTimestamps_accepted (hschema ▸ List.pairwise_map.mpr hapart) houtPlain).mpr
  intro f hf hhas
  rw [hschema] at hf
  obtain ⟨f₀, hf₀, rfl⟩ := List.mem_map.mp hf
  by_cases hsanitized : Sanitized schema f₀
  · rw [preparedType, if_pos hsanitized] at hhas
    cases hhas
  · rw [preparedType, if_neg hsanitized] at hhas ⊢
    have hmem : f₀ ∈ middle.schema := by
      rw [hmiddleSchema]
      exact List.mem_map.mpr ⟨f₀, hf₀, by rw [if_neg hsanitized]⟩
    obtain ⟨hrebuild, hclear⟩ := hfirst f₀ hmem (typeHasTimestamp_of_mapTypes hhas)
    exact ⟨hrebuild.mapTypes, hclear.mapTypes _⟩

omit hnames hapart

theorem preparedType_twice (f : String × SparkType) :
    mapTypes (longWhere isTimestamp) (preparedType schema f) = preparedType schema f := by
  rw [preparedType]
  split
  · rfl
  · exact mapTypes_twice f.2

theorem preparedValue_shaped {f : String × SparkType} {v : SparkValue F} (hv : Shaped f.2 v) :
    Shaped (preparedType schema f) (preparedValue J schema f v) := by
  rw [preparedType, preparedValue]
  split
  · exact .inr trivial
  · exact hv.mapLeaves _ _

theorem preparedValue_twice (f : String × SparkType) (v : SparkValue F) :
    mapLeaves timestampLeaf (preparedType schema f) (preparedValue J schema f v) =
      preparedValue J schema f v := by
  rw [preparedType, preparedValue]
  split
  · rfl
  · exact mapLeaves_timestamp_twice f.2 v

theorem list_ext_getD {α : Type} {l l' : List α} {d : α} (hlength : l.length = l'.length)
    (h : ∀ i < l.length, l.getD i d = l'.getD i d) : l = l' := by
  apply List.ext_getElem hlength
  intro i hi hi'
  have hsame := h i hi
  rwa [List.getD_eq_getElem _ d hi, List.getD_eq_getElem _ d hi'] at hsame

/-- A frame whose types and values the pass over the timestamps leaves alone comes out of it as it
was. -/
theorem normalizeTimestamps_fixed {df again : DataFrame F} (hnames : ∀ f ∈ df.schema, PlainName f.1)
    (hapart : NamesApart r df.schema)
    (htypes : ∀ f ∈ df.schema, mapTypes (longWhere isTimestamp) f.2 = f.2)
    (hrows : ∀ row ∈ df.rows, row.length = df.schema.length ∧
      ∀ (i : Nat) (f : String × SparkType), df.schema[i]? = some f →
        Shaped f.2 (row.getD i .null) ∧
          mapLeaves timestampLeaf f.2 (row.getD i .null) = row.getD i .null)
    (hok : normalizeTimestampsForUtc r df = .ok again) : again = df := by
  obtain ⟨ψ, hψ, hall, hcells⟩ := normalizeTimestamps_traces hok
  have hcount := List.nodup_iff_count_le_one.mp hapart.nodup
  have hcolumn (i : Nat) (f : String × SparkType) (hf : df.schema[i]? = some f) :=
    hcells i f.1 f.2 hf (hnames f (List.mem_of_getElem? hf)).unmarked (hcount f.1)
  have hschema : again.schema = df.schema := by
    apply (hψ.schema_eq (g := Prod.snd) (fun f hf => (hnames f hf).unmarked) ?_).trans
    · exact List.map_id _
    · intro i f hf
      rw [(hcolumn i f hf).1, htypes f (List.mem_of_getElem? hf)]
  have hsame : ∀ row ∈ df.rows, ψ row = row := by
    intro row hrow
    obtain ⟨hlen, hcell⟩ := hrows row hrow
    have hψlen : (ψ row).length = row.length := by rw [hψ.length row hlen, hschema, hlen]
    apply list_ext_getD (d := .null) hψlen
    intro i hi
    have hlt : i < df.schema.length := hlen ▸ hψlen ▸ hi
    obtain ⟨f, hf⟩ : ∃ f, df.schema[i]? = some f := ⟨_, List.getElem?_eq_getElem hlt⟩
    obtain ⟨hshaped, hleaf⟩ := hcell i f hf
    exact ((hcolumn i f hf).2 row hlen hshaped).trans hleaf
  have hagain : again = ⟨again.schema, df.rows.map ψ⟩ :=
    Except.ok.inj (hok.symm.trans (hall df.rows))
  rw [hagain, hschema, List.map_congr_left hsame, List.map_id']

include hnames hapart

/-- Preparing a frame that has been prepared changes nothing. -/
theorem preparedFrame_twice (hrows : ∀ row ∈ rows, CellsShaped schema row)
    (hok : preparedFrame J r ⟨schema, rows⟩ = .ok out) : preparedFrame J r out = .ok out := by
  have hschema := preparedFrame_columns hnames hapart hok
  have hquiet : hostileColumns out.schema = [] := hschema ▸ prepared_quiet
  have hfield {i : Nat} {f : String × SparkType} (hf : out.schema[i]? = some f) :
      ∃ f₀, schema[i]? = some f₀ ∧ f = (f₀.1, preparedType schema f₀) := by
    rw [hschema, List.getElem?_map] at hf
    obtain ⟨f₀, hf₀, rfl⟩ := Option.map_eq_some_iff.mp hf
    exact ⟨f₀, hf₀, rfl⟩
  obtain ⟨again, hagain⟩ := prepared_accepted hnames hapart hok
  obtain ⟨φ, hφ, hall, hcells⟩ := preparedFrame_traces hok
  have hout : out = ⟨out.schema, rows.map φ⟩ := Except.ok.inj (hok.symm.trans (hall rows))
  have hfixed : again = out := by
    apply normalizeTimestamps_fixed ?_ ?_ ?_ ?_ hagain
    · intro f hf
      obtain ⟨i, hi⟩ := List.getElem?_of_mem hf
      obtain ⟨f₀, hf₀, rfl⟩ := hfield hi
      exact hnames f₀ (List.mem_of_getElem? hf₀)
    · exact hschema ▸ List.pairwise_map.mpr hapart
    · intro f hf
      obtain ⟨i, hi⟩ := List.getElem?_of_mem hf
      obtain ⟨f₀, hf₀, rfl⟩ := hfield hi
      exact preparedType_twice f₀
    · intro row' hrow'
      rw [hout] at hrow'
      obtain ⟨row, hrow, rfl⟩ := List.mem_map.mp hrow'
      have hlen := (hrows row hrow).length_eq
      refine ⟨hφ.length row hlen, ?_⟩
      intro i f hf
      obtain ⟨f₀, hf₀, rfl⟩ := hfield hf
      have hshaped := (hrows row hrow).getD hf₀
      have hmark := (hnames f₀ (List.mem_of_getElem? hf₀)).unmarked
      have honce := List.nodup_iff_count_le_one.mp hapart.nodup f₀.1
      have hcell : (φ row).getD i .null = preparedValue J schema f₀ (row.getD i .null) :=
        (hcells i f₀.1 f₀.2 hf₀ hmark honce).2 row hlen hshaped
      rw [hcell]
      exact ⟨preparedValue_shaped hshaped, preparedValue_twice f₀ _⟩
  rw [preparedFrame, sanitizeForArrow_quiet hquiet, ok_bind, hagain, hfixed]

end Frames

section Lines

variable [PyFloat F]

theorem bulkWriteLines_congr {df df' : DataFrame F} (h : preparedFrame J r df' = preparedFrame J r df)
    (cfg : EsWriteConfig) (indexExists : Bool) :
    bulkWriteLines J r cfg indexExists df' = bulkWriteLines J r cfg indexExists df := by
  rw [bulkWriteLines, bulkWriteLines, h]

/-- The preparation of a frame is idempotent, and a caller may do it by hand: a frame that has been
sanitized is left alone by the sanitizer, whatever its columns are called, a frame that has been
prepared is left alone by both passes, and in either case the write sends the same lines. -/
theorem preparing_twice (J : SparkFunctions F) (r : Resolver) (df out : DataFrame F) :
    (r.KeepsEnds → sanitizeForArrow J r df = .ok out →
      sanitizeForArrow J r out = .ok out ∧ ∀ cfg indexExists,
        bulkWriteLines J r cfg indexExists out = bulkWriteLines J r cfg indexExists df) ∧
    ((∀ f ∈ df.schema, PlainName f.1) → NamesApart r df.schema →
      (∀ row ∈ df.rows, CellsShaped df.schema row) → preparedFrame J r df = .ok out →
      preparedFrame J r out = .ok out ∧ ∀ cfg indexExists,
        bulkWriteLines J r cfg indexExists out = bulkWriteLines J r cfg indexExists df) := by
  constructor
  · intro hr hok
    have htwice : sanitizeForArrow J r out = .ok out :=
      sanitizeForArrow_quiet (hostileColumns_sanitized hr hok)
    refine ⟨htwice, bulkWriteLines_congr ?_⟩
    rw [preparedFrame, preparedFrame, htwice, hok]
  · intro hnames hapart hrows hok
    have htwice := preparedFrame_twice hnames hapart hrows hok
    exact ⟨htwice, bulkWriteLines_congr (htwice.trans hok.symm)⟩

end Lines

def eventFunctions : SparkFunctions FewFloats where
  toJson _ _ := "{}"
  toJsonNoOptions _ _ := "[1]"
  castString _ _ := "INTERVAL '1' DAY"
  equalsTrue _ := none

/-- A VARIANT, an interval, and instants as keys and as values of a map. -/
def eventFrame : DataFrame FewFloats :=
  ⟨[("raw", .array (.atomic (.other "variant"))), ("span", .atomic (.other "interval day")),
      ("seen", .map (.atomic .timestamp) (.atomic .timestamp))],
    [[.array [.other "1"], .null, .map [(.timestamp 5000, .timestamp 7000)]]]⟩

def sanitizedEvents : DataFrame FewFloats :=
  ⟨[("raw", .atomic .string), ("span", .atomic .string),
      ("seen", .map (.atomic .timestamp) (.atomic .timestamp))],
    [[.string "[1]", .null, .map [(.timestamp 5000, .timestamp 7000)]]]⟩

def preparedEvents : DataFrame FewFloats :=
  ⟨[("raw", .atomic .string), ("span", .atomic .string),
      ("seen", .map (.atomic .timestamp) (.atomic .bigint))],
    [[.string "[1]", .null, .map [(.timestamp 5000, .integral 7)]]]⟩

theorem hostile_events :
    hostileColumns eventFrame.schema = [("raw", "array<variant>"), ("span", "interval day")] := by
  decide +kernel

/-- Both parts of `preparing_twice` at these events. -/
theorem preparing_twice_events :
    sanitizeForArrow eventFunctions .caseSensitive sanitizedEvents = .ok sanitizedEvents ∧
      preparedFrame eventFunctions .caseSensitive preparedEvents = .ok preparedEvents := by
  have hsanitized : sanitizeForArrow eventFunctions .caseSensitive eventFrame =
      .ok sanitizedEvents := by
    rw [sanitizeForArrow, hostile_events, rewriteColumns, List.foldlM_cons]
    rfl
  have hprepared : preparedFrame eventFunctions .caseSensitive eventFrame = .ok preparedEvents := by
    rw [preparedFrame, hsanitized]
    rfl
  obtain ⟨hsanitizing, -⟩ := preparing_twice eventFunctions .caseSensitive eventFrame sanitizedEvents
  obtain ⟨-, hpreparing⟩ := preparing_twice eventFunctions .caseSensitive eventFrame preparedEvents
  constructor
  · exact (hsanitizing caseSensitive_keepsEnds hsanitized).1
  · exact (hpreparing (by decide) (by decide) (by simp [eventFrame, CellsTyped, Typed]) hprepared).1

end EsConnector
