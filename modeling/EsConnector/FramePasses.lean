import EsConnector.ColumnReads
import EsConnector.RewriteTypes

namespace EsConnector
set_option autoImplicit true

variable {F : Type} {r : Resolver}

/-- The schema that `withColumn` gives. -/
def withColumnSchema (r : Resolver) (schema : Schema) (name : String) (dt : SparkType) : Schema :=
  if schema.any fun f => r.same f.1 name then
    schema.map fun f => if r.same f.1 name then (name, dt) else f
  else schema ++ [(name, dt)]

/-- The row that `withColumn` gives. -/
def withColumnRow (r : Resolver) (schema : Schema) (name : String) (c : Column F) (row : Row F) :
    Row F :=
  if schema.any fun f => r.same f.1 name then
    List.zipWith (fun f v => if r.same f.1 name then c.eval row else v) schema row
  else row ++ [c.eval row]

theorem withColumn_eq (df : DataFrame F) (name : String) (c : Column F) :
    df.withColumn r name c = ⟨withColumnSchema r df.schema name c.dataType,
      df.rows.map (withColumnRow r df.schema name c)⟩ := by
  have hrow : withColumnRow r df.schema name c = fun row => withColumnRow r df.schema name c row := rfl
  rw [DataFrame.withColumn, withColumnSchema, hrow]
  split
  · rename_i hany
    simp only [withColumnRow, if_pos hany]
  · rename_i hany
    simp only [withColumnRow, if_neg hany]

theorem withColumnRow_length {schema : Schema} {name : String} {c : Column F} {row : Row F}
    (hrow : row.length = schema.length) :
    (withColumnRow r schema name c row).length =
      (withColumnSchema r schema name c.dataType).length := by
  rw [withColumnRow, withColumnSchema]
  split <;> simp [hrow]

/-- A column that `withColumn` leaves is where it was; any other is the new one. -/
theorem withColumn_cell {schema : Schema} {name : String} {c : Column F} {f' : String × SparkType}
    {i : Nat} (hf' : (withColumnSchema r schema name c.dataType)[i]? = some f') :
    (schema[i]? = some f' ∧ r.same f'.1 name = false ∧ ∀ row : Row F, row.length = schema.length →
        (withColumnRow r schema name c row).getD i .null = row.getD i .null) ∨
      (f' = (name, c.dataType) ∧ (∀ f, schema[i]? = some f → r.same f.1 name = true) ∧
        ∀ row : Row F, row.length = schema.length →
          (withColumnRow r schema name c row).getD i .null = c.eval row) := by
  rw [withColumnSchema] at hf'
  split at hf'
  · rename_i hany
    rw [List.getElem?_map] at hf'
    obtain ⟨f, hf, rfl⟩ := Option.map_eq_some_iff.mp hf'
    have hcell (row : Row F) (hrow : row.length = schema.length) :
        (withColumnRow r schema name c row).getD i .null =
          if r.same f.1 name then c.eval row else row.getD i .null := by
      have hi : i < row.length := by
        rw [hrow]
        exact (List.getElem?_eq_some_iff.mp hf).1
      rw [withColumnRow, if_pos hany, List.getD_eq_getElem?_getD, List.getElem?_zipWith, hf,
        List.getD_eq_getElem?_getD, List.getElem?_eq_getElem hi]
      rfl
    by_cases hsame : r.same f.1 name = true
    · refine .inr ⟨if_pos hsame, ?_, ?_⟩
      · intro g hg
        cases hf.symm.trans hg
        exact hsame
      · intro row hrow
        rw [hcell row hrow, if_pos hsame]
    · rw [if_neg hsame]
      refine .inl ⟨hf, Bool.eq_false_iff.mpr hsame, fun row hrow => ?_⟩
      rw [hcell row hrow, if_neg hsame]
  · rename_i hany
    rcases Nat.lt_or_ge i schema.length with hi | hi
    · rw [List.getElem?_append_left hi] at hf'
      refine .inl ⟨hf', ?_, ?_⟩
      · refine Bool.eq_false_iff.mpr fun hsame => hany ?_
        exact List.any_eq_true.mpr ⟨f', List.mem_of_getElem? hf', hsame⟩
      · intro row hrow
        rw [withColumnRow, if_neg hany, List.getD_eq_getElem?_getD, List.getElem?_append_left
          (hrow.symm ▸ hi), List.getD_eq_getElem?_getD]
    · rw [List.getElem?_append_right hi] at hf'
      obtain ⟨hlt, he⟩ := List.getElem?_eq_some_iff.mp hf'
      have hlast : i = schema.length := by
        rw [List.length_singleton] at hlt
        omega
      subst hlast
      refine .inr ⟨by simpa using he.symm, ?_, ?_⟩
      · intro f hf
        simp at hf
      · intro row hrow
        rw [withColumnRow, if_neg hany, List.getD_eq_getElem?_getD, ← hrow,
          List.getElem?_append_right (Nat.le_refl _)]
        simp

theorem withColumnSchema_getElem? {schema : Schema} {f : String × SparkType} {i : Nat}
    (hf : schema[i]? = some f) (name : String) (dt : SparkType) :
    (withColumnSchema r schema name dt)[i]? = some (if r.same f.1 name then (name, dt) else f) := by
  rw [withColumnSchema]
  split
  · rw [List.getElem?_map, hf, Option.map_some]
  · rename_i hany
    have hsame : ¬r.same f.1 name = true := fun hsame =>
      hany (List.any_eq_true.mpr ⟨f, List.mem_of_getElem? hf, hsame⟩)
    rw [List.getElem?_append_left (List.getElem?_eq_some_iff.mp hf).1, hf, if_neg hsame]

/-- Two rows agree on the columns whose names are shorter than `n`. -/
def AgreeBelow (schema : Schema) (n : Nat) (row row' : Row F) : Prop :=
  ∀ i f, schema[i]? = some f → f.1.length < n → row.getD i .null = row'.getD i .null

/-- The columns whose names are shorter than `n` are null. -/
def NullBelow (schema : Schema) (n : Nat) (row : Row F) : Prop :=
  ∀ i f, schema[i]? = some f → f.1.length < n → row.getD i .null = .null

theorem filter_eq_of_getElem? {α : Type} {l l' : List α} {p : α → Bool}
    (h : ∀ i : Nat, l[i]?.filter p = l'[i]?.filter p) : l.filter p = l'.filter p := by
  induction l generalizing l' with
  | nil =>
    refine (List.filter_eq_nil_iff.mpr fun a ha hp => ?_).symm
    obtain ⟨i, hi⟩ := List.getElem?_of_mem ha
    simpa [hi, hp, Option.filter_some] using h i
  | cons a l ih =>
    cases l' with
    | nil =>
      apply List.filter_eq_nil_iff.mpr
      intro b hb hp
      obtain ⟨i, hi⟩ := List.getElem?_of_mem hb
      simpa [hi, hp, Option.filter_some] using h i
    | cons b l' =>
      have hrest := ih fun i => by simpa using h (i + 1)
      have hfirst : (some a).filter p = (some b).filter p := h 0
      by_cases ha : p a = true
      · have hab : a = b ∧ p b = true := by
          rw [Option.filter_some, if_pos ha, Option.filter_some] at hfirst
          split at hfirst
          · rename_i hb
            exact ⟨Option.some.inj hfirst, hb⟩
          · cases hfirst
        rw [List.filter_cons_of_pos ha, List.filter_cons_of_pos hab.2, hrest, hab.1]
      · have hb : ¬p b = true := fun hb => by
          rw [Option.filter_some, if_neg ha, Option.filter_some, if_pos hb] at hfirst
          cases hfirst
        rw [List.filter_cons_of_neg ha, List.filter_cons_of_neg hb, hrest]

/-- What holds of the rows of a frame whose columns have been rewritten one by one under their names:
a column reads those of shorter names only, and one whose name has no marks keeps its place. -/
structure Traces (schema₀ schema : Schema) (φ : Row F → Row F) : Prop where
  length : ∀ row, row.length = schema₀.length → (φ row).length = schema.length
  agree : ∀ n row row', row.length = schema₀.length → row'.length = schema₀.length →
    AgreeBelow schema₀ n row row' → AgreeBelow schema n (φ row) (φ row')
  null : ∀ n row, row.length = schema₀.length → NullBelow schema₀ n row → NullBelow schema n (φ row)
  names : ∀ (i : Nat) (f : String × SparkType), schema[i]? = some f → f.1 ∈ schema₀.map Prod.fst
  kept : ∀ (i : Nat) (f : String × SparkType), schema₀[i]? = some f → Unmarked f.1 →
    ∃ dt : SparkType, schema[i]? = some (f.1, dt)
  only : ∀ (i : Nat) (f : String × SparkType), schema[i]? = some f → Unmarked f.1 →
    ∃ dt : SparkType, schema₀[i]? = some (f.1, dt)

variable {schema₀ schema : Schema} {φ : Row F → Row F}

theorem Traces.refl (schema : Schema) : Traces schema schema (id : Row F → Row F) where
  length _ h := h
  agree _ _ _ _ _ h := h
  null _ _ _ h := h
  names _ _ hf := List.mem_map_of_mem (List.mem_of_getElem? hf)
  kept _ f hf _ := ⟨f.2, hf⟩
  only _ f hf _ := ⟨f.2, hf⟩

theorem Traces.trans {schema' : Schema} {ψ : Row F → Row F} (h : Traces schema₀ schema φ)
    (h' : Traces schema schema' ψ) : Traces schema₀ schema' (ψ ∘ φ) where
  length row hrow := h'.length _ (h.length row hrow)
  agree n row row' hrow hrow' hagree :=
    h'.agree n _ _ (h.length row hrow) (h.length row' hrow') (h.agree n row row' hrow hrow' hagree)
  null n row hrow hnull := h'.null n _ (h.length row hrow) (h.null n row hrow hnull)
  names i f hf := by
    obtain ⟨g, hg, hname⟩ := List.mem_map.mp (h'.names i f hf)
    obtain ⟨j, hj⟩ := List.getElem?_of_mem hg
    exact hname ▸ h.names j g hj
  kept i f hf hname := by
    obtain ⟨dt, hdt⟩ := h.kept i f hf hname
    exact h'.kept i (f.1, dt) hdt hname
  only i f hf hname := by
    obtain ⟨dt, hdt⟩ := h'.only i f hf hname
    exact h.only i (f.1, dt) hdt hname

theorem Traces.count_eq (h : Traces schema₀ schema φ) {n : String} (hn : Unmarked n) :
    (schema.map Prod.fst).count n = (schema₀.map Prod.fst).count n := by
  rw [List.count_eq_length_filter, List.count_eq_length_filter]
  refine congrArg List.length (filter_eq_of_getElem? fun i => Option.ext fun name => ?_)
  simp only [List.getElem?_map, Option.filter_eq_some_iff, Option.map_eq_some_iff, beq_iff_eq]
  constructor
  · rintro ⟨⟨f, hf, rfl⟩, rfl⟩
    obtain ⟨dt, hdt⟩ := h.only i f hf hn
    exact ⟨⟨_, hdt, rfl⟩, rfl⟩
  · rintro ⟨⟨f, hf, rfl⟩, rfl⟩
    obtain ⟨dt, hdt⟩ := h.kept i f hf hn
    exact ⟨⟨_, hdt, rfl⟩, rfl⟩

/-- A column that a name without marks finds is the column of that name. -/
theorem Traces.found (h : Traces schema₀ schema φ) {name : String} {dt : SparkType} {j : Nat}
    (hj : schema₀[j]? = some (name, dt)) (hname : Unmarked name) {c : Column F}
    (hc : Column.col r schema name = .ok c) :
    (∃ dt', schema[j]? = some (name, dt') ∧ c = .cellAt (name, dt') j) ∧
      ∀ i f, schema[i]? = some f → r.same f.1 name = true → i = j := by
  obtain ⟨f, i, -, -, -, hfound, -⟩ := col_reads hc
  obtain ⟨rfl, hone⟩ := hfound hname
  obtain ⟨dt', hdt'⟩ := h.kept j _ hj hname
  have hself := mem_candidates.mpr ⟨hdt', r.refl name⟩
  rw [hone, List.mem_singleton] at hself
  cases hself
  refine ⟨⟨dt', hdt', rfl⟩, ?_⟩
  intro i f hf hsame
  have hother := mem_candidates.mpr ⟨hf, hsame⟩
  rw [hone, List.mem_singleton] at hother
  exact congrArg Prod.snd hother

theorem Traces.step_unmarked (h : Traces schema₀ schema φ) {name : String} {dt₀ : SparkType} {j : Nat}
    (hj : schema₀[j]? = some (name, dt₀)) {c : Column F} (hc : Column.col r schema name = .ok c)
    {i : Nat} {n : String} {dt : SparkType} (hi : schema[i]? = some (n, dt)) (hn : Unmarked n) :
    r.same n name = decide (i = j) ∧ (i = j → n = name) ∧
      (i = j → c = .cellAt (n, dt) i) := by
  by_cases hsame : r.same n name = true
  · have hname := (r.unmarked _ _ hsame).mp hn
    obtain ⟨⟨dt', hdt', hcell⟩, hfound⟩ := h.found hj hname hc
    obtain rfl := hfound i _ hi hsame
    cases hi.symm.trans hdt'
    exact ⟨by simpa using hsame, fun _ => rfl, fun _ => hcell⟩
  · have hne : i ≠ j := by
      intro rfl
      obtain ⟨dt', hdt'⟩ := h.only i _ hi hn
      cases hj.symm.trans hdt'
      exact hsame (r.refl _)
    refine ⟨by simpa [hne] using hsame, fun he => absurd he hne, fun he => absurd he hne⟩

theorem Traces.step (h : Traces schema₀ schema φ) {name : String} {dt₀ : SparkType} {j : Nat}
    (hj : schema₀[j]? = some (name, dt₀)) {c c' : Column F} (hc : Column.col r schema name = .ok c)
    (hfollows : Follows c c') :
    Traces schema₀ (withColumnSchema r schema name c'.dataType)
      (withColumnRow r schema name c' ∘ φ) := by
  obtain ⟨f, k, hk, hreads, hle, -, -⟩ := col_reads hc
  have hreads := hreads.trans hfollows
  refine ⟨fun row hrow => withColumnRow_length (h.length row hrow), ?_, ?_, ?_, ?_, ?_⟩
  · intro n row row' hrow hrow' hagree i f' hf' hlt
    have hbelow := h.agree n row row' hrow hrow' hagree
    rcases withColumn_cell hf' with ⟨hf, -, hcell⟩ | ⟨rfl, -, hcell⟩
    · rw [Function.comp_apply, Function.comp_apply, hcell _ (h.length row hrow),
        hcell _ (h.length row' hrow')]
      exact hbelow i f' hf hlt
    · rw [Function.comp_apply, Function.comp_apply, hcell _ (h.length row hrow),
        hcell _ (h.length row' hrow')]
      exact hreads.congr _ _ (hbelow k f hk (Nat.lt_of_le_of_lt hle hlt))
  · intro n row hrow hnull i f' hf' hlt
    have hbelow := h.null n row hrow hnull
    rcases withColumn_cell hf' with ⟨hf, -, hcell⟩ | ⟨rfl, -, hcell⟩
    · rw [Function.comp_apply, hcell _ (h.length row hrow)]
      exact hbelow i f' hf hlt
    · rw [Function.comp_apply, hcell _ (h.length row hrow)]
      exact hreads.null _ (hbelow k f hk (Nat.lt_of_le_of_lt hle hlt))
  · intro i g hg
    rcases withColumn_cell (c := c') hg with ⟨hf, -, -⟩ | ⟨rfl, -, -⟩
    · exact h.names i g hf
    · exact List.mem_map.mpr ⟨(name, dt₀), List.mem_of_getElem? hj, rfl⟩
  · intro i g hg hn
    obtain ⟨dt, hdt⟩ := h.kept i g hg hn
    obtain ⟨hsame, hname, -⟩ := h.step_unmarked hj hc hdt hn
    rw [withColumnSchema_getElem? hdt, hsame]
    by_cases hij : i = j
    · exact ⟨c'.dataType, by rw [if_pos (decide_eq_true hij), hname hij]⟩
    · exact ⟨dt, congrArg some (if_neg (by simpa using hij))⟩
  · intro i g hg hn
    rcases withColumn_cell hg with ⟨hf, -, -⟩ | ⟨rfl, hsame, -⟩
    · exact h.only i g hf hn
    · obtain ⟨⟨dt', hdt', -⟩, hfound⟩ := h.found hj hn hc
      rcases hi : schema[i]? with - | f'
      · -- the column of the name is there, so no column is added
        have hany : (schema.any fun f => r.same f.1 name) = true :=
          List.any_eq_true.mpr ⟨_, List.mem_of_getElem? hdt', r.refl name⟩
        rw [withColumnSchema, if_pos hany, List.getElem?_map, hi] at hg
        cases hg
      · obtain rfl := hfound i f' hi (hsame f' hi)
        exact ⟨dt₀, hj⟩

/-- A column rewritten under its name. -/
def rewriteColumn (r : Resolver) (df : DataFrame F) (name : String)
    (g : Column F → Except AnalysisException (Column F)) : Except AnalysisException (DataFrame F) := do
  let c ← Column.col r df.schema name
  return df.withColumn r name (← g c)

/-- Columns rewritten one after the other, as their types ask for. -/
def rewriteColumns (r : Resolver) (act : α → Column F → Except AnalysisException (Column F))
    (steps : List (String × α)) (df : DataFrame F) : Except AnalysisException (DataFrame F) :=
  steps.foldlM (fun out s => rewriteColumn r out s.1 (act s.2)) df

theorem rewriteColumns_cons_ok {act : α → Column F → Except AnalysisException (Column F)}
    {s : String × α} {steps : List (String × α)} {df out : DataFrame F}
    (h : rewriteColumns r act (s :: steps) df = .ok out) : ∃ c d,
      Column.col r df.schema s.1 = .ok c ∧ act s.2 c = .ok d ∧
      rewriteColumns r act steps ⟨withColumnSchema r df.schema s.1 d.dataType,
        df.rows.map (withColumnRow r df.schema s.1 d)⟩ = .ok out := by
  rw [rewriteColumns, List.foldlM_cons] at h
  obtain ⟨next, hnext, h⟩ := bind_ok h
  obtain ⟨c, hc, hnext⟩ := bind_ok hnext
  obtain ⟨d, hd, hnext⟩ := bind_ok hnext
  cases hnext
  rw [withColumn_eq] at h
  exact ⟨c, d, hc, hd, h⟩

/-- What a pass has done to the column of a name without marks. -/
def StepsTo (act : α → Column F → Except AnalysisException (Column F)) (steps : List (String × α))
    (n : String) (dt : SparkType) (i : Nat) (c : Column F) : Prop :=
  (n ∉ steps.map Prod.fst ∧ c = .cellAt (n, dt) i) ∨
    ∃ before a after, steps = before ++ (n, a) :: after ∧ n ∉ before.map Prod.fst ∧
      n ∉ after.map Prod.fst ∧ act a (.cellAt (n, dt) i) = .ok c

variable {α : Type} {act : α → Column F → Except AnalysisException (Column F)}

theorem StepsTo.follows {steps : List (String × α)} {c : Column F} (h : StepsTo act steps n dt i c)
    (hact : ∀ a c c', act a c = .ok c' → Follows c c') : Follows (.cellAt (n, dt) i) c := by
  rcases h with ⟨-, rfl⟩ | ⟨_, a, _, -, -, -, hc⟩
  · exact .refl _
  · exact hact a _ _ hc

theorem StepsTo.untouched {steps : List (String × α)} {c : Column F}
    (h : StepsTo act steps n dt i c) (hnone : n ∉ steps.map Prod.fst) : c = .cellAt (n, dt) i := by
  rcases h with ⟨-, hc⟩ | ⟨before, a, after, rfl, -⟩
  · exact hc
  · exact absurd (by simp) hnone

theorem StepsTo.cons {steps : List (String × α)} {c : Column F} (h : StepsTo act steps n dt i c)
    (hne : n ≠ name) : StepsTo act ((name, a) :: steps) n dt i c := by
  rcases h with ⟨hnone, hc⟩ | ⟨before, b, after, rfl, hbefore, hafter, hc⟩
  · exact .inl ⟨List.not_mem_cons_of_ne_of_not_mem hne hnone, hc⟩
  · exact .inr ⟨(name, a) :: before, b, after, rfl,
      List.not_mem_cons_of_ne_of_not_mem hne hbefore, hafter, hc⟩

theorem rewriteColumns_traces (hact : ∀ a c c', act a c = .ok c' → Follows c c')
    {steps : List (String × α)} (hsteps : ∀ s ∈ steps, ∃ (j : Nat) (dt : SparkType),
      schema₀[j]? = some (s.1, dt))
    (h : Traces schema₀ schema φ) {rows : List (Row F)} {out : DataFrame F}
    (hok : rewriteColumns r act steps ⟨schema, rows.map φ⟩ = .ok out) :
    ∃ ψ : Row F → Row F, Traces schema₀ out.schema ψ ∧
      (∀ rows : List (Row F),
        rewriteColumns r act steps ⟨schema, rows.map φ⟩ = .ok ⟨out.schema, rows.map ψ⟩) ∧
      ∀ (i : Nat) (n : String) (dt : SparkType), schema[i]? = some (n, dt) → Unmarked n →
        (steps.map Prod.fst).count n ≤ 1 → ∃ c : Column F, StepsTo act steps n dt i c ∧
          out.schema[i]? = some (n, c.dataType) ∧
          ∀ row, row.length = schema₀.length → (ψ row).getD i .null = c.eval (φ row) := by
  induction steps generalizing schema φ with
  | nil =>
    cases hok
    exact ⟨φ, h, fun rows => rfl, fun i n dt hi hn _ =>
      ⟨.cellAt (n, dt) i, .inl ⟨List.not_mem_nil, rfl⟩, hi, fun row _ => rfl⟩⟩
  | cons s steps ih =>
    obtain ⟨name, a⟩ := s
    obtain ⟨j, dt₀, hj⟩ := hsteps (name, a) List.mem_cons_self
    obtain ⟨c, c', hc, hc', hok⟩ := rewriteColumns_cons_ok hok
    have hstep (rows : List (Row F)) :
        rewriteColumns r act ((name, a) :: steps) ⟨schema, rows.map φ⟩ = rewriteColumns r act steps
          ⟨withColumnSchema r schema name c'.dataType,
            rows.map (withColumnRow r schema name c' ∘ φ)⟩ := by
      rw [rewriteColumns, List.foldlM_cons, rewriteColumn, hc, ok_bind, hc', ok_bind, withColumn_eq,
        List.map_map]
      rfl
    rw [List.map_map] at hok
    obtain ⟨ψ, hψ, hrows, hcells⟩ := ih (fun s hs => hsteps s (List.mem_cons_of_mem _ hs))
      (h.step hj hc (hact _ _ _ hc')) hok
    refine ⟨ψ, hψ, fun rows => (hstep rows).trans (hrows rows), ?_⟩
    intro i n dt hi hn hcount
    obtain ⟨hsame, hname, hcell⟩ := h.step_unmarked hj hc hi hn
    have hfield := withColumnSchema_getElem? hi name c'.dataType (r := r)
    by_cases hij : i = j
    · -- this is the step of the column, and no later one touches it
      obtain rfl := hname hij
      rw [hsame, if_pos (decide_eq_true hij)] at hfield
      rw [hcell hij] at hc'
      have hlater : (steps.map Prod.fst).count n = 0 := by
        rw [List.map_cons, List.count_cons_self] at hcount
        omega
      obtain ⟨d, hto, htype, heval⟩ := hcells i n c'.dataType hfield hn (by omega)
      obtain rfl := hto.untouched (List.count_eq_zero.mp hlater)
      refine ⟨c', .inr ⟨[], a, steps, rfl, List.not_mem_nil, List.count_eq_zero.mp hlater, hc'⟩,
        htype, fun row hrow => (heval row hrow).trans ?_⟩
      rcases withColumn_cell hfield with ⟨-, hdiff, -⟩ | ⟨-, -, hvalue⟩
      · rw [r.refl] at hdiff
        cases hdiff
      · exact hvalue _ (h.length row hrow)
    · rw [hsame, if_neg (by simpa using hij)] at hfield
      have hne : name ≠ n := fun he => hij (by
        rw [he, r.refl] at hsame
        exact of_decide_eq_true hsame.symm)
      rw [List.map_cons, List.count_cons_of_ne hne] at hcount
      obtain ⟨d, hto, htype, heval⟩ := hcells i n dt hfield hn hcount
      refine ⟨d, hto.cons hne.symm, htype, fun row hrow => (heval row hrow).trans ?_⟩
      apply (hto.follows hact).congr
      rcases withColumn_cell hfield with ⟨-, -, hvalue⟩ | ⟨he, -, -⟩
      · exact hvalue _ (h.length row hrow)
      · exact absurd (congrArg Prod.fst he).symm hne

theorem eq_of_count {α β : Type} [DecidableEq α] {l : List (α × β)} {n : α} {a b : β}
    (hcount : (l.map Prod.fst).count n ≤ 1) (ha : (n, a) ∈ l) (hb : (n, b) ∈ l) : b = a := by
  obtain ⟨before, after, rfl⟩ := List.append_of_mem ha
  rw [List.map_append, List.map_cons, List.count_append, List.count_cons_self] at hcount
  have hout {l : List (α × β)} (hzero : (l.map Prod.fst).count n = 0) : (n, b) ∉ l := fun hmem =>
    List.count_eq_zero.mp hzero (List.mem_map.mpr ⟨(n, b), hmem, rfl⟩)
  rcases List.mem_append.mp hb with hmem | hmem
  · exact absurd hmem (hout (by omega))
  · rcases List.mem_cons.mp hmem with he | hmem
    · exact congrArg Prod.snd he
    · exact absurd hmem (hout (by omega))

theorem StepsTo.of_filter {act : SparkType → Column F → Except AnalysisException (Column F)}
    {p : String × SparkType → Bool} {n : String} {dt : SparkType} {c : Column F}
    (h : StepsTo act (schema.filter p) n dt i c) (hmem : (n, dt) ∈ schema)
    (hcount : (schema.map Prod.fst).count n ≤ 1) :
    (if p (n, dt) then act dt (.cellAt (n, dt) i) else .ok (.cellAt (n, dt) i)) = .ok c := by
  rcases h with ⟨hnone, rfl⟩ | ⟨before, a, after, hsplit, -, -, hc⟩
  · refine if_neg fun hp => hnone ?_
    exact List.mem_map.mpr ⟨(n, dt), List.mem_filter.mpr ⟨hmem, hp⟩, rfl⟩
  · obtain ⟨ha, hp⟩ := List.mem_filter.mp (hsplit ▸ (by simp : (n, a) ∈ before ++ (n, a) :: after))
    obtain rfl := eq_of_count hcount hmem ha
    rw [if_pos hp, hc]

theorem normalizeTimestamps_eq (schema : Schema) (rows : List (Row F)) :
    normalizeTimestampsForUtc r ⟨schema, rows⟩ =
      rewriteColumns r (fun dt c => rewriteTimestamps r c dt)
        (schema.filter fun f => typeHasTimestamp f.2) ⟨schema, rows⟩ := by
  rw [rewriteColumns, List.foldlM_filter]
  rfl

variable {P : AtomicType → SparkValue F → Prop} {w : Rewrite F} {h g : AtomicType → AtomicType}
  {f : AtomicType → SparkValue F → SparkValue F}

theorem Rewrite.Sound.optional_ok (hw : w.Sound P h g f) (hnull : w.NullTyped)
    {dt : SparkType} {c d : Column F} (hc : c.dataType = mapTypes h dt)
    (hd : (if w.has dt then w.apply r dt c else .ok c) = .ok d) :
    d.dataType = mapTypes g dt ∧
      ∀ row, Typed P (mapTypes h dt) (c.eval row) → d.eval row = mapLeaves f dt (c.eval row) := by
  split at hd
  · obtain ⟨d', hd', htype, heval⟩ := hw.apply_of_walks (hw.walks_of_ok hnull hc hd) c hc
    cases hd.symm.trans hd'
    exact ⟨htype, heval⟩
  · rename_i hhas
    cases hd
    obtain ⟨htype, hsame⟩ := hw.unchanged dt (by simpa using hhas)
    exact ⟨hc.trans htype.symm, fun row hrow => (hsame _ hrow).symm⟩

/-- The loop over the columns: a timestamp column whose name has no marks is rewritten in place. -/
theorem normalizeTimestamps_traces {rows : List (Row F)} {out : DataFrame F}
    (hok : normalizeTimestampsForUtc r ⟨schema, rows⟩ = .ok out) :
    ∃ φ : Row F → Row F, Traces schema out.schema φ ∧
      (∀ rows : List (Row F),
        normalizeTimestampsForUtc r ⟨schema, rows⟩ = .ok ⟨out.schema, rows.map φ⟩) ∧
      ∀ (i : Nat) (n : String) (dt : SparkType), schema[i]? = some (n, dt) → Unmarked n →
        (schema.map Prod.fst).count n ≤ 1 →
          out.schema[i]? = some (n, mapTypes (longWhere isTimestamp) dt) ∧
          ∀ row, row.length = schema.length → Shaped dt (row.getD i .null) →
            (φ row).getD i .null = mapLeaves timestampLeaf dt (row.getD i .null) := by
  have hid (rows : List (Row F)) : rows.map id = rows := List.map_id rows
  rw [normalizeTimestamps_eq, ← hid rows] at hok
  obtain ⟨φ, hφ, hrows, hcells⟩ := rewriteColumns_traces
    (fun dt c c' hc' => timestampRewrite_local.apply_follows hc')
    (fun s hs => by
      obtain ⟨j, hj⟩ := List.getElem?_of_mem (List.mem_of_mem_filter hs)
      exact ⟨j, s.2, hj⟩)
    (Traces.refl schema) hok
  refine ⟨φ, hφ, ?_, ?_⟩
  · intro rows
    have hrows := hrows rows
    rw [hid rows] at hrows
    exact (normalizeTimestamps_eq schema rows).trans hrows
  · intro i n dt hi hn hcount
    have hsteps : ((schema.filter fun f => typeHasTimestamp f.2).map Prod.fst).count n ≤ 1 :=
      ((List.filter_sublist.map Prod.fst).count_le n).trans hcount
    obtain ⟨c, hto, htype, heval⟩ := hcells i n dt hi hn hsteps
    have hc : (if typeHasTimestamp dt then rewriteTimestamps r (.cellAt (n, dt) i) dt
        else .ok (.cellAt (n, dt) i)) = .ok c :=
      hto.of_filter (List.mem_of_getElem? hi) hcount
    obtain ⟨hd, hvalue⟩ := (timestampRewrite_sound (F := F) (P := fun _ _ => True)).optional_ok
      timestampRewrite_nullTyped (mapTypes_id dt).symm hc
    refine ⟨hd ▸ htype, fun row hrow hshaped => (heval row hrow).trans (hvalue row ?_)⟩
    rw [mapTypes_id]
    exact hshaped

end EsConnector
