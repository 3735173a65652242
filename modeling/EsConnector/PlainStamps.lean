import EsConnector.ZoneFreedom

namespace EsConnector
set_option autoImplicit true

variable {F : Type} {r : Resolver} {schema schema' : Schema} {cfg : EsWriteConfig}

/-- Columns under names that `F.col` takes as they are and tells apart. -/
structure PlainColumns (r : Resolver) (schema : Schema) : Prop where
  plain : ∀ f ∈ schema, PlainName f.1
  apart : NamesApart r schema

theorem PlainColumns.congr (h : PlainColumns r schema)
    (hnames : schema'.map Prod.fst = schema.map Prod.fst) : PlainColumns r schema' := by
  constructor
  · intro f hf
    obtain ⟨g, hg, hname⟩ := List.mem_map.mp (hnames ▸ List.mem_map_of_mem (f := Prod.fst) hf)
    exact hname ▸ h.plain g hg
  · have hpairs : (schema'.map Prod.fst).Pairwise fun n n' => r.same n n' = false ∧ r.same n' n = false := by
      rw [hnames]
      exact List.pairwise_map.mpr h.apart
    exact List.pairwise_map.mp hpairs

theorem PlainColumns.col (h : PlainColumns r schema) {f : String × SparkType} {i : Nat}
    (hi : schema[i]? = some f) : Column.col r schema f.1 = .ok (.cellAt f i : Column F) := by
  obtain ⟨hlt, rfl⟩ := List.getElem?_eq_some_iff.mp hi
  have hsplit : schema.take i ++ schema[i] :: schema.drop (i + 1) = schema := by
    rw [← List.drop_eq_getElem_cons hlt, List.take_append_drop]
  have hapart : NamesApart r (schema.take i ++ schema[i] :: schema.drop (i + 1)) := by
    rw [hsplit]
    exact h.apart
  have hcol := col_of_plain (F := F) (h.plain _ (List.getElem_mem hlt)) hapart
  rw [List.length_take, Nat.min_eq_left (Nat.le_of_lt hlt)] at hcol
  rw [hsplit] at hcol
  exact hcol

theorem PlainColumns.same (h : PlainColumns r schema) {f g : String × SparkType} {i j : Nat}
    (hi : schema[i]? = some f) (hj : schema[j]? = some g) : r.same g.1 f.1 = decide (j = i) := by
  have hname : Unmarked g.1 := (h.plain g (List.mem_of_getElem? hj)).2
  exact ((Traces.refl (F := Empty) schema).step_unmarked hi (h.col hi) hj hname).1

theorem PlainColumns.withColumn_names (h : PlainColumns r schema) {f : String × SparkType} {i : Nat}
    (hi : schema[i]? = some f) (dt : SparkType) :
    (withColumnSchema r schema f.1 dt).map Prod.fst = schema.map Prod.fst := by
  have hany : (schema.any fun g => r.same g.1 f.1) = true :=
    List.any_eq_true.mpr ⟨f, List.mem_of_getElem? hi, r.refl f.1⟩
  rw [withColumnSchema, if_pos hany, List.map_map]
  apply List.map_congr_left
  intro g hg
  obtain ⟨j, hj⟩ := List.getElem?_of_mem hg
  rw [Function.comp_apply, h.same hi hj]
  by_cases hji : j = i
  · subst hji
    cases hi.symm.trans hj
    rw [if_pos (decide_eq_true rfl)]
  · rw [if_neg (by simpa using hji)]

/-- A pass over columns under plain names rewrites the cells of its own columns only. -/
theorem rewriteColumns_cells {α : Type} {act : α → Column F → Except AnalysisException (Column F)}
    {steps : List (String × α)} (h : PlainColumns r schema)
    (hsteps : ∀ s ∈ steps, ∃ (j : Nat) (dt : SparkType), schema[j]? = some (s.1, dt))
    (hnodup : (steps.map Prod.fst).Nodup) {row : Row F} (hrow : row.length = schema.length)
    {out : DataFrame F} (hok : rewriteColumns r act steps ⟨schema, [row]⟩ = .ok out) :
    out.schema.map Prod.fst = schema.map Prod.fst ∧ ∃ last, out.rows = [last] ∧
      last.length = out.schema.length ∧
      ∀ (i : Nat) (n : String) (dt : SparkType), schema[i]? = some (n, dt) → ∃ c : Column F,
        StepsTo act steps n dt i c ∧ out.schema[i]? = some (n, c.dataType) ∧
        ∃ seen : Row F, seen.getD i .null = row.getD i .null ∧ last.getD i .null = c.eval seen := by
  induction steps generalizing schema row with
  | nil =>
    cases hok
    exact ⟨rfl, row, rfl, hrow, fun i n dt hi =>
      ⟨.cellAt (n, dt) i, .inl ⟨List.not_mem_nil, rfl⟩, hi, row, rfl, rfl⟩⟩
  | cons s steps ih =>
    obtain ⟨name, a⟩ := s
    obtain ⟨j, dt₀, hj⟩ := hsteps (name, a) List.mem_cons_self
    obtain ⟨c, d, hc, hd, hok⟩ := rewriteColumns_cons_ok hok
    cases (h.col hj).symm.trans hc
    obtain ⟨hfirst, hnodup⟩ := List.nodup_cons.mp hnodup
    have hnames := h.withColumn_names hj d.dataType
    rw [List.map_singleton] at hok
    obtain ⟨hkept, last, hlast, hlength, hcells⟩ := ih (h.congr hnames)
      (fun s hs => by
        obtain ⟨k, dt, hk⟩ := hsteps s (List.mem_cons_of_mem _ hs)
        have hname : (withColumnSchema r schema name d.dataType)[k]?.map Prod.fst = some s.1 := by
          rw [← List.getElem?_map, hnames, List.getElem?_map, hk]
          rfl
        obtain ⟨g, hg, hsame⟩ := Option.map_eq_some_iff.mp hname
        exact ⟨k, g.2, by rw [hg, ← hsame]⟩)
      hnodup (withColumnRow_length hrow) hok
    refine ⟨hkept.trans hnames, last, hlast, hlength, ?_⟩
    intro i n dt hi
    have hfield := withColumnSchema_getElem? hi name d.dataType (r := r)
    rw [h.same hj hi] at hfield
    by_cases hij : i = j
    · -- this is the step of the column, and no later one touches it
      subst hij
      cases hi.symm.trans hj
      rw [if_pos (decide_eq_true rfl)] at hfield
      obtain ⟨c, hto, htype, seen, hseen, hvalue⟩ := hcells i name d.dataType hfield
      obtain rfl := hto.untouched hfirst
      refine ⟨d, .inr ⟨[], a, steps, rfl, List.not_mem_nil, hfirst, hd⟩, htype, row, rfl, ?_⟩
      rcases withColumn_cell hfield with ⟨-, hdiff, -⟩ | ⟨-, -, hput⟩
      · rw [r.refl] at hdiff
        cases hdiff
      · exact hvalue.trans (hseen.trans (hput row hrow))
    · rw [if_neg (by simpa using hij)] at hfield
      obtain ⟨c, hto, htype, seen, hseen, hvalue⟩ := hcells i n dt hfield
      have hne : n ≠ name := by
        intro rfl
        have hsame := h.same hj hi
        rw [r.refl] at hsame
        exact hij (of_decide_eq_true hsame.symm)
      refine ⟨c, hto.cons hne, htype, seen, hseen.trans ?_, hvalue⟩
      rcases withColumn_cell hfield with ⟨-, -, hkeep⟩ | ⟨he, -, -⟩
      · exact hkeep row hrow
      · exact absurd (congrArg Prod.fst he) hne

theorem hostileColumns_nodup (h : PlainColumns r schema) :
    ((hostileColumns schema).map Prod.fst).Nodup := by
  have hsub := (hostileColumnsFromDescribe_sublist (describeRows schema)).map Prod.fst
  rw [describeRows_names] at hsub
  exact h.apart.nodup.sublist hsub

/-- The mark of a column is that of its own type, if the column is one that is sanitized. -/
theorem stampedFrame_cells (h : PlainColumns r schema) {frame : DataFrame F}
    (hframe : stampedFrame F r schema = .ok frame) :
    frame.schema.map Prod.fst = schema.map Prod.fst ∧ ∃ marks, frame.rows = [marks] ∧
      ∀ (i : Nat) (f : String × SparkType), schema[i]? = some f → (marks.getD i .null ≠ .null ↔
        Sanitized schema f ∧ typeHasTimestamp f.2 = true) := by
  obtain ⟨middle, hmiddle, hok⟩ := bind_ok hframe
  obtain ⟨hnames, first, hfirst, hlength, hstamped⟩ := rewriteColumns_cells h
    (fun s hs => hostileColumns_mem hs) (hostileColumns_nodup h) (List.length_map ..) hmiddle
  have hmiddleColumns := h.congr hnames
  have hok : normalizeTimestampsForUtc r ⟨middle.schema, middle.rows⟩ = .ok frame := hok
  rw [hfirst, normalizeTimestamps_eq] at hok
  obtain ⟨hnames', marks, hmarks, -, hcells⟩ := rewriteColumns_cells hmiddleColumns
    (fun s hs => by
      obtain ⟨i, hi⟩ := List.getElem?_of_mem (List.mem_of_mem_filter hs)
      exact ⟨i, s.2, hi⟩)
    ((hmiddleColumns.apart.nodup).sublist (List.filter_sublist.map _)) hlength hok
  refine ⟨hnames'.trans hnames, marks, hmarks, ?_⟩
  intro i f hi
  have hcount : (schema.map Prod.fst).count f.1 ≤ 1 :=
    List.nodup_iff_count_le_one.mp h.apart.nodup f.1
  obtain ⟨c, hto, hfield, seen, hseen, hfirstCell⟩ := hstamped i f.1 f.2 hi
  rw [nulls_getD] at hseen
  have hc := hto.of_hostile (List.mem_of_getElem? hi) hcount
  obtain ⟨d, hto', -, seen', hseen', hlast⟩ := hcells i f.1 c.dataType hfield
  have hd := hto'.of_filter (List.mem_of_getElem? hfield) (hnames ▸ hcount)
  rw [hlast]
  split at hc
  · rename_i hsanitized
    cases hc
    -- a text has no timestamp, so the second pass leaves it
    obtain rfl := Except.ok.inj hd
    have hmark : seen'.getD i .null =
        if typeHasTimestamp f.2 then .string "" else seen.getD i .null := hseen'.trans hfirstCell
    change seen'.getD i .null ≠ .null ↔ _
    rw [hmark, hseen]
    cases typeHasTimestamp f.2 <;> simp [hsanitized]
  · rename_i hsanitized
    cases hc
    have hnull : seen'.getD i .null = .null := (hseen'.trans hfirstCell).trans hseen
    have hfollows : Follows (.cellAt (f.1, f.2) i) d :=
      hto'.follows fun dt c c' hc' => timestampRewrite_local.apply_follows hc'
    have hnone : d.eval seen' = .null := hfollows.null seen' hnull
    exact iff_of_false (fun hne => hne hnone) fun hboth => hsanitized hboth.1

theorem readsStamp_iff (h : PlainColumns r schema) {frame : DataFrame F}
    (hframe : stampedFrame F r schema = .ok frame) {f : String × SparkType} (hf : f ∈ schema) :
    readsStamp r frame f.1 = true ↔ Sanitized schema f ∧ typeHasTimestamp f.2 = true := by
  obtain ⟨i, hi⟩ := List.getElem?_of_mem hf
  obtain ⟨hnames, marks, hmarks, hcells⟩ := stampedFrame_cells h hframe
  have hname : frame.schema[i]?.map Prod.fst = some f.1 := by
    rw [← List.getElem?_map, hnames, List.getElem?_map, hi]
    rfl
  obtain ⟨g, hg, hsame⟩ := Option.map_eq_some_iff.mp hname
  rw [← hcells i f hi, readsStamp, ← hsame, (h.congr hnames).col hg, hmarks]
  have hcell : (marks.getD i .null).isNull = false ↔ marks.getD i .null ≠ .null := by
    cases marks.getD i .null <;> simp [SparkValue.isNull]
  simpa [Column.cellAt] using hcell

/-- Under plain names the texts that show the zone are those of the columns with both VARIANT or
INTERVAL and a timestamp in their type. -/
theorem noStampWritten_iff (h : PlainColumns r schema) {frame : DataFrame F}
    (hframe : stampedFrame F r schema = .ok frame) :
    NoStampWritten F r cfg schema ↔
      ∀ f ∈ schema, WritesName cfg f.1 → Sanitized schema f → typeHasTimestamp f.2 = false := by
  have hnames := (stampedFrame_cells h hframe).1
  constructor
  · intro hclean f hf hwritten hsanitized
    obtain ⟨g, hg, hname⟩ := List.mem_map.mp (hnames ▸ List.mem_map_of_mem (f := Prod.fst) hf)
    have hread := hclean frame hframe g hg (hname ▸ hwritten)
    rw [hname] at hread
    by_contra hstamped
    rw [(readsStamp_iff h hframe hf).mpr ⟨hsanitized, Bool.not_eq_false _ ▸ hstamped⟩] at hread
    cases hread
  · intro hplain frame' hframe' g hg hwritten
    cases hframe.symm.trans hframe'
    obtain ⟨f, hf, hname⟩ := List.mem_map.mp (hnames ▸ List.mem_map_of_mem (f := Prod.fst) hg)
    rw [← hname] at hwritten ⊢
    by_contra hread
    obtain ⟨hsanitized, hstamped⟩ := (readsStamp_iff h hframe hf).mp (by simpa using hread)
    rw [hplain f hf hwritten hsanitized] at hstamped
    cases hstamped

end EsConnector
