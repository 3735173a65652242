import EsConnector.FramePasses

namespace EsConnector
set_option autoImplicit true

/-- `str.lower` on one character. What becomes of the letters outside ASCII is ASCII for two of them
only, and the search below takes no notice of the others. -/
def pyLower (c : Char) : List Char :=
  if c = Char.ofNat 0x130 then ['i', Char.ofNat 0x307]
  else if c = Char.ofNat 0x212A then ['k']
  else [c.toLower]

/-- `[a-z0-9_]`. -/
def identifierChar (c : Char) : Bool := c.isLower || c.isDigit || c = '_'

/-- `(?:variant|interval)(?![a-z0-9_:])`, at the start of a text. -/
def hostileAt (cs : List Char) : Bool :=
  ["variant", "interval"].any fun token => token.toList.isPrefixOf cs &&
    (cs.drop token.length).head?.all fun c => !identifierChar c && c != ':'

/-- The search of `_ARROW_HOSTILE_RE`, which looks at the character before, if there is one. -/
def searchHostile (before : Option Char) : List Char → Bool
  | [] => false
  | c :: rest =>
    (before.all (!identifierChar ·) && hostileAt (c :: rest)) || searchHostile (some c) rest

/-- `_type_is_arrow_hostile`. -/
def typeIsArrowHostile (typeText : String) : Bool :=
  searchHostile none (typeText.toList.flatMap pyLower)

/-- `_is_scalar_interval_type`. -/
def isScalarIntervalType (typeText : String) : Bool :=
  "interval".toList.isPrefixOf ((pyStrip typeText.toList).flatMap pyLower)

/-- `_hostile_columns_from_describe`: the columns end at the first row that is blank or starts with a
number sign. -/
def hostileColumnsFromDescribe : List (String × String) → List (String × String)
  | [] => []
  | (col, text) :: rows =>
    if col = "" ∨ col.toList.head? = some '#' then []
    else if typeIsArrowHostile text then (col, text) :: hostileColumnsFromDescribe rows
    else hostileColumnsFromDescribe rows

/-- What `DESCRIBE` says of a frame. -/
def describeRows (schema : Schema) : List (String × String) :=
  schema.map fun f => (f.1, f.2.simpleString)

/-- `_hostile_columns`. -/
def hostileColumns (schema : Schema) : List (String × String) :=
  hostileColumnsFromDescribe (describeRows schema)

theorem mem_of_hostileAt {cs : List Char} (h : hostileAt cs = true) : 'v' ∈ cs := by
  simp only [hostileAt, List.any_cons, List.any_nil, Bool.or_false, Bool.or_eq_true,
    Bool.and_eq_true, List.isPrefixOf_iff_prefix] at h
  rcases h with ⟨hfront, -⟩ | ⟨hfront, -⟩
  · exact hfront.subset (by decide)
  · exact hfront.subset (by decide)

theorem mem_of_searchHostile {before : Option Char} {cs : List Char}
    (h : searchHostile before cs = true) : 'v' ∈ cs := by
  induction cs generalizing before with
  | nil => cases h
  | cons c rest ih =>
    rw [searchHostile, Bool.or_eq_true, Bool.and_eq_true] at h
    rcases h with ⟨-, h⟩ | h
    · exact mem_of_hostileAt h
    · exact List.mem_cons_of_mem _ (ih h)

theorem toLower_digit {c : Char} (hc : c.isDigit = true) : c.toLower = c := by
  apply dif_neg
  intro hupper
  have hA : 'A'.val.toNat = 65 := rfl
  have h9 : '9'.val.toNat = 57 := rfl
  simp only [Char.isDigit, Bool.and_eq_true, decide_eq_true_eq, UInt32.le_iff_toNat_le,
    ge_iff_le] at hc hupper
  omega

theorem pyLower_digit {c : Char} (hc : c.isDigit = true) : 'v' ∉ pyLower c := by
  rw [pyLower]
  split
  · decide
  · split
    · decide
    · rw [toLower_digit hc, List.mem_singleton]
      intro rfl
      cases hc

/-- The types that Spark has a name of its own for are left alone. -/
theorem not_hostile_of_named {t : AtomicType} (ht : ∀ name, t ≠ .other name) :
    typeIsArrowHostile t.simpleString = false := by
  cases t with
  | decimal precision scale =>
    apply Bool.eq_false_iff.mpr
    intro h
    have hdigits (n : Nat) (c : Char) (hc : c ∈ (toString n).toList) : 'v' ∉ pyLower c := by
      rw [Nat.toString_eq_ofList_toDigits, String.toList_ofList] at hc
      exact pyLower_digit (Nat.isDigit_of_mem_toDigits (by decide) (by decide) hc)
    have htext : (AtomicType.decimal precision scale).simpleString.toList = "decimal(".toList ++
        ((toString precision).toList ++ (",".toList ++ ((toString scale).toList ++ [')']))) := by
      simp only [AtomicType.simpleString, String.toList_append, List.append_assoc]
      rfl
    have hsigns : ∀ c ∈ "decimal(".toList ++ ([','] ++ [')']), 'v' ∉ pyLower c := by decide
    obtain ⟨c, hc, hv⟩ := List.mem_flatMap.mp (mem_of_searchHostile h)
    rw [htext] at hc
    simp only [List.mem_append] at hc
    rcases hc with hc | hc | hc | hc | hc
    · exact hsigns c (List.mem_append_left _ hc) hv
    · exact hdigits precision c hc hv
    · exact hsigns c (List.mem_append_right _ (List.mem_append_left [')'] hc)) hv
    · exact hdigits scale c hc hv
    · exact hsigns c (List.mem_append_right _ (List.mem_append_right [','] hc)) hv
  | other name => exact absurd rfl (ht name)
  | _ => decide

variable {F : Type} (J : SparkFunctions F) (r : Resolver)

/-- What a column is rewritten to, by the text of its type. -/
def sanitizeColumn (typeText : String) (c : Column F) : Except AnalysisException (Column F) :=
  if isScalarIntervalType typeText then .ok (c.castString J) else c.toJsonNoOptions J

/-- `sanitize_for_arrow`. -/
def sanitizeForArrow (df : DataFrame F) : Except AnalysisException (DataFrame F) :=
  rewriteColumns r (sanitizeColumn J) (hostileColumns df.schema) df

/-- The frame that `bulk_write` builds its action lines from. -/
def preparedFrame (df : DataFrame F) : Except AnalysisException (DataFrame F) := do
  normalizeTimestampsForUtc r (← sanitizeForArrow J r df)

variable {J r} {schema : Schema}

theorem hostileColumnsFromDescribe_sublist (rows : List (String × String)) :
    (hostileColumnsFromDescribe rows).Sublist rows := by
  induction rows with
  | nil => exact .slnil
  | cons row rows ih =>
    rw [hostileColumnsFromDescribe]
    split
    · exact List.nil_sublist _
    · split
      · exact ih.cons_cons row
      · exact ih.cons row

theorem hostile_of_mem {rows : List (String × String)} {row : String × String}
    (h : row ∈ hostileColumnsFromDescribe rows) : typeIsArrowHostile row.2 = true := by
  induction rows with
  | nil => cases h
  | cons first rows ih =>
    rw [hostileColumnsFromDescribe] at h
    split at h
    · cases h
    · split at h
      · rename_i hhostile
        rcases List.mem_cons.mp h with rfl | h
        · exact hhostile
        · exact ih h
      · exact ih h

theorem sanitizeColumn_follows {text : String} {c c' : Column F}
    (h : sanitizeColumn J text c = .ok c') : Follows c c' := by
  rw [sanitizeColumn] at h
  split at h
  · cases h
    exact ⟨fun row row' heq => by simp only [Column.castString, heq], fun row hnull => by
      simp only [Column.castString, hnull]⟩
  · rw [Column.toJsonNoOptions, Column.toJsonBy] at h
    exact function_follows rfl h

/-- The text that a sanitized column has for a value. -/
def sanitizedText (J : SparkFunctions F) (dt : SparkType) : SparkValue F → SparkValue F
  | .null => .null
  | v => .string (if isScalarIntervalType dt.simpleString then J.castString dt v
      else J.toJsonNoOptions dt v)

theorem sanitizeColumn_ok {c c' : Column F} (h : sanitizeColumn J c.dataType.simpleString c = .ok c') :
    c'.dataType = .atomic .string ∧ ∀ row, c'.eval row = sanitizedText J c.dataType (c.eval row) := by
  rw [sanitizeColumn] at h
  split at h
  · rename_i hscalar
    cases h
    refine ⟨rfl, ?_⟩
    intro row
    dsimp only [Column.castString]
    cases c.eval row <;> simp [sanitizedText, hscalar]
  · rename_i hscalar
    rw [Column.toJsonNoOptions, Column.toJsonBy] at h
    obtain rfl := Column.function_eq h
    refine ⟨rfl, ?_⟩
    intro row
    dsimp only
    cases c.eval row <;> simp [sanitizedText, hscalar]

/-- `sanitize_for_arrow` rewrites a column. -/
def Sanitized (schema : Schema) (f : String × SparkType) : Prop :=
  (f.1, f.2.simpleString) ∈ hostileColumns schema

instance (schema : Schema) (f : String × SparkType) : Decidable (Sanitized schema f) :=
  inferInstanceAs (Decidable (_ ∈ _))

theorem Sanitized.hostile {f : String × SparkType} (h : Sanitized schema f) :
    typeIsArrowHostile f.2.simpleString = true :=
  hostile_of_mem h

theorem hostileColumns_mem {step : String × String} (h : step ∈ hostileColumns schema) :
    ∃ (i : Nat) (dt : SparkType), schema[i]? = some (step.1, dt) := by
  obtain ⟨f, hf, rfl⟩ := List.mem_map.mp ((hostileColumnsFromDescribe_sublist _).subset h)
  obtain ⟨i, hi⟩ := List.getElem?_of_mem hf
  exact ⟨i, f.2, hi⟩

theorem describeRows_names (schema : Schema) :
    (describeRows schema).map Prod.fst = schema.map Prod.fst := by
  rw [describeRows, List.map_map]
  rfl

theorem StepsTo.of_hostile {act : String → Column F → Except AnalysisException (Column F)} {n : String}
    {dt : SparkType} {i : Nat} {c : Column F}
    (h : StepsTo act (hostileColumns schema) n dt i c) (hmem : (n, dt) ∈ schema)
    (hcount : (schema.map Prod.fst).count n ≤ 1) :
    (if Sanitized schema (n, dt) then act dt.simpleString (.cellAt (n, dt) i)
      else .ok (.cellAt (n, dt) i)) = .ok c := by
  rcases h with ⟨hnone, rfl⟩ | ⟨before, text, after, hsplit, -, -, hc⟩
  · exact if_neg fun hmem => hnone (List.mem_map.mpr ⟨_, hmem, rfl⟩)
  · have hstep : (n, text) ∈ hostileColumns schema := hsplit ▸ (by simp)
    have htext : text = dt.simpleString := by
      refine eq_of_count (describeRows_names schema ▸ hcount) ?_
        ((hostileColumnsFromDescribe_sublist _).subset hstep)
      exact List.mem_map.mpr ⟨(n, dt), hmem, rfl⟩
    subst htext
    exact (if_pos hstep).trans hc

theorem sanitizeForArrow_traces {rows : List (Row F)} {out : DataFrame F}
    (hok : sanitizeForArrow J r ⟨schema, rows⟩ = .ok out) :
    ∃ φ : Row F → Row F, Traces schema out.schema φ ∧
      (∀ rows : List (Row F), sanitizeForArrow J r ⟨schema, rows⟩ = .ok ⟨out.schema, rows.map φ⟩) ∧
      ∀ (i : Nat) (n : String) (dt : SparkType), schema[i]? = some (n, dt) → Unmarked n →
        (schema.map Prod.fst).count n ≤ 1 →
          out.schema[i]? = some (n, if Sanitized schema (n, dt) then .atomic .string else dt) ∧
          ∀ row, row.length = schema.length → (φ row).getD i .null =
            if Sanitized schema (n, dt) then sanitizedText J dt (row.getD i .null)
            else row.getD i .null := by
  have hid (rows : List (Row F)) : rows.map id = rows := List.map_id rows
  rw [sanitizeForArrow, ← hid rows] at hok
  obtain ⟨φ, hφ, hrows, hcells⟩ := rewriteColumns_traces
    (fun text c c' hc' => sanitizeColumn_follows hc') (fun s hs => hostileColumns_mem hs)
    (Traces.refl schema) hok
  refine ⟨φ, hφ, ?_, ?_⟩
  · intro rows
    have hrows := hrows rows
    rwa [hid rows] at hrows
  · intro i n dt hi hn hcount
    have hsteps : ((hostileColumns schema).map Prod.fst).count n ≤ 1 := by
      apply Nat.le_trans (((hostileColumnsFromDescribe_sublist _).map Prod.fst).count_le n)
      rwa [describeRows_names]
    obtain ⟨c, hto, htype, heval⟩ := hcells i n dt hi hn hsteps
    have hc := hto.of_hostile (List.mem_of_getElem? hi) hcount
    split at hc
    · rename_i hsanitized
      obtain ⟨hd, hvalue⟩ := sanitizeColumn_ok (c := .cellAt (n, dt) i) hc
      rw [if_pos hsanitized, ← hd]
      exact ⟨htype, fun row hrow => (heval row hrow).trans ((hvalue row).trans (if_pos hsanitized).symm)⟩
    · rename_i hsanitized
      cases hc
      rw [if_neg hsanitized]
      exact ⟨htype, fun row hrow => (heval row hrow).trans (if_neg hsanitized).symm⟩

/-- The type of a column in the frame that the lines are built from. -/
def preparedType (schema : Schema) (f : String × SparkType) : SparkType :=
  if Sanitized schema f then .atomic .string else mapTypes (longWhere isTimestamp) f.2

def preparedValue (J : SparkFunctions F) (schema : Schema) (f : String × SparkType)
    (v : SparkValue F) : SparkValue F :=
  if Sanitized schema f then sanitizedText J f.2 v else mapLeaves timestampLeaf f.2 v

/-- Both passes, one after the other. -/
theorem preparedFrame_traces {rows : List (Row F)} {out : DataFrame F}
    (hok : preparedFrame J r ⟨schema, rows⟩ = .ok out) :
    ∃ φ : Row F → Row F, Traces schema out.schema φ ∧
      (∀ rows : List (Row F), preparedFrame J r ⟨schema, rows⟩ = .ok ⟨out.schema, rows.map φ⟩) ∧
      ∀ (i : Nat) (n : String) (dt : SparkType), schema[i]? = some (n, dt) → Unmarked n →
        (schema.map Prod.fst).count n ≤ 1 →
          out.schema[i]? = some (n, preparedType schema (n, dt)) ∧
          ∀ row, row.length = schema.length → Shaped dt (row.getD i .null) →
            (φ row).getD i .null = preparedValue J schema (n, dt) (row.getD i .null) := by
  obtain ⟨middle, hmiddle, hok⟩ := bind_ok hok
  obtain ⟨φ, hφ, hfirst, hsanitized⟩ := sanitizeForArrow_traces hmiddle
  have hok : normalizeTimestampsForUtc r ⟨middle.schema, middle.rows⟩ = .ok out := hok
  obtain ⟨ψ, hψ, hsecond, hnormalized⟩ := normalizeTimestamps_traces hok
  refine ⟨ψ ∘ φ, hφ.trans hψ, ?_, ?_⟩
  · intro rows
    rw [preparedFrame, hfirst rows, ok_bind, hsecond, List.map_map]
  · intro i n dt hi hn hcount
    obtain ⟨hfield, hvalue⟩ := hsanitized i n dt hi hn hcount
    obtain ⟨hout, hcell⟩ := hnormalized i n _ hfield hn (hφ.count_eq hn ▸ hcount)
    refine ⟨hout.trans ?_, ?_⟩
    · rw [preparedType]
      split <;> rfl
    · intro row hrow hshaped
      have hshaped' : Shaped (if Sanitized schema (n, dt) then .atomic .string else dt)
          ((φ row).getD i .null) := by
        rw [hvalue row hrow]
        split
        · exact .inr trivial
        · exact hshaped
      rw [Function.comp_apply, hcell _ (hφ.length row hrow) hshaped', hvalue row hrow, preparedValue]
      split <;> rfl

end EsConnector
