import EsConnector.ReadCoerce

namespace EsConnector
set_option autoImplicit true

variable {F : Type} [PyFloat F]

section Scalars

/-- A declared type that is refused, by its token. -/
def Unsupported (target : String) : Prop :=
  (unsupportedScalarTokens.lookup (tokenBase (stripLower target))).isSome

theorem readScalar_eq {target : String} (h : ¬Unsupported target) (value : Json F) :
    readScalar target value = match value with
      | .null => .ok .none
      | value => readPresent (stripLower target) target value := by
  have hreject : (rejectUnsupportedToken (stripLower target) target : Except (PyError F) Unit) =
      .ok () := by
    rw [rejectUnsupportedToken, Option.not_isSome_iff_eq_none.mp h]
  unfold readScalar
  dsimp only
  rw [hreject, ok_bind]
  rfl

theorem readScalar_null {target : String} (h : ¬Unsupported target) :
    readScalar target (.null : Json F) = .ok .none := by
  rw [readScalar_eq h]

theorem readScalar_present {target : String} {value : Json F} (h : ¬Unsupported target)
    (hvalue : value ≠ .null) :
    readScalar target value = readPresent (stripLower target) target value := by
  rw [readScalar_eq h]
  cases value with
  | null => exact absurd rfl hvalue
  | _ => rfl

variable {target : String} {value : Json F}

/-- A refused type has no value, not even null. -/
theorem supported_of_readScalar (h : readScalar target value = .ok r) : ¬Unsupported target := by
  intro hrefused
  obtain ⟨fix, hfix⟩ := Option.isSome_iff_exists.mp hrefused
  have hreject : (rejectUnsupportedToken (stripLower target) target : Except (PyError F) Unit) =
      .error (.schemaMismatch (.unsupported target fix)) := by
    rw [rejectUnsupportedToken, hfix]
  unfold readScalar at h
  dsimp only at h
  rw [hreject] at h
  cases h

theorem readPresent_timestamp : readPresent "timestamp" target value = (do
    rejectNonScalar value target
    return .datetime (← epochMillisToDatetime value)) := rfl

theorem readPresent_timestampNtz : readPresent "timestamp_ntz" target value = (do
    rejectNonScalar value target
    return .naive (← epochMillisToNaiveDatetime value)) := rfl

theorem readPresent_date : readPresent "date" target value = (do
    rejectNonScalar value target
    return .date (← epochMillisToDate value)) := rfl

theorem readPresent_binary : readPresent "binary" target value = (do
    rejectNonScalar value target
    return .bytes (← b64decode value)) := rfl

theorem readPresent_float : readPresent "float" target value = (do
    rejectNonScalar value target
    return .float (← pyFloat value)) := rfl

theorem readPresent_double : readPresent "double" target value = (do
    rejectNonScalar value target
    return .float (← pyFloat value)) := rfl

theorem readPresent_boolean : readPresent "boolean" target value = (do
    rejectNonScalar value target
    return .bool (← coerceBoolean target value)) := rfl

theorem readPresent_string : readPresent "string" target value = (do
    return .str (← coerceString target value)) := rfl

theorem readPresent_decimal {t : String} (ht : "decimal(".toList <+: t.toList) :
    readPresent t target value = (do
      rejectNonScalar value target
      return .decimal (← pyDecimal value)) := by
  obtain ⟨rest, hrest⟩ := ht
  have hne (s : String) (hs : s.toList.head? ≠ "decimal(".toList.head? ∨
      s.toList[2]? ≠ "decimal(".toList[2]?) : t ≠ s := by
    intro rfl
    rw [← hrest] at hs
    exact hs.elim (absurd rfl) (absurd rfl)
  rw [readPresent]
  rw [if_neg (hne _ (.inl (by decide))), if_neg (hne _ (.inl (by decide))),
    if_neg (hne _ (.inr (by decide))), if_neg (hne _ (.inl (by decide))),
    if_pos (hrest ▸ ⟨'(' :: rest, rfl⟩)]

theorem pyStrip_front {p : List Char} (r : List Char) (hne : p ≠ [])
    (hfirst : p.dropWhile pyIsSpace = p) (hlast : p.reverse.dropWhile pyIsSpace = p.reverse) :
    ∃ tail, pyStrip (p ++ r) = p ++ tail := by
  have hdrop : (p ++ r).dropWhile pyIsSpace = p ++ r := by
    rw [List.dropWhile_append, hfirst, if_neg (by simpa using hne)]
  rw [pyStrip, hdrop, List.rdropWhile, List.reverse_append, List.dropWhile_append, hlast]
  split
  · exact ⟨[], by rw [List.reverse_reverse, List.append_nil]⟩
  · exact ⟨_, by rw [List.reverse_append, List.reverse_reverse]⟩

theorem stripLower_front {s : String} {p r : List Char} (hs : s.toList = p ++ r)
    (hne : p ≠ []) (hfirst : p.dropWhile pyIsSpace = p)
    (hlast : p.reverse.dropWhile pyIsSpace = p.reverse) :
    ∃ tail, (stripLower s).toList = p.map Char.toLower ++ tail := by
  obtain ⟨tail, htail⟩ := pyStrip_front r hne hfirst hlast
  exact ⟨tail.map Char.toLower, by rw [stripLower, hs, htail, String.toList_ofList, List.map_append]⟩

theorem stripLower_decimal (precision scale : Nat) : ∃ rest,
    (stripLower (AtomicType.decimal precision scale).simpleString).toList =
      "decimal(".toList ++ rest := by
  refine stripLower_front (p := "decimal(".toList) (r := (toString precision).toList ++
    ",".toList ++ (toString scale).toList ++ [')']) ?_ (by decide) (by decide) (by decide)
  simp only [AtomicType.simpleString, String.toList_append, List.append_assoc]
  rfl

/-- The types that Spark has a name of its own for are not refused. -/
theorem supported_of_named {t : AtomicType} (ht : ∀ name, t ≠ .other name) :
    ¬Unsupported t.simpleString := by
  cases t with
  | decimal precision scale =>
    obtain ⟨rest, hrest⟩ := stripLower_decimal precision scale
    have hbase : tokenBase (stripLower (AtomicType.decimal precision scale).simpleString) =
        "decimal" := by
      rw [tokenBase, hrest]
      rfl
    rw [Unsupported, hbase]
    decide
  | other name => exact absurd rfl (ht name)
  | _ => exact Bool.not_eq_true _ ▸ rfl

theorem width_branch : ∀ t ∈ intWidthBounds.map Prod.fst, t ≠ "timestamp" ∧ t ≠ "timestamp_ntz" ∧
    t ≠ "date" ∧ t ≠ "binary" ∧ ¬"decimal".toList <+: t.toList := by decide

theorem readPresent_width {t : String} {lo hi : Int}
    (ht : intWidthBounds.lookup t = some (lo, hi)) : readPresent t target value = (do
      rejectNonScalar value target
      return .int (← coerceInt lo hi target value)) := by
  obtain ⟨before, after, hsplit, -⟩ := List.lookup_eq_some_iff.mp ht
  obtain ⟨hts, hntz, hdate, hbinary, hdecimal⟩ := width_branch t
    (List.mem_map.mpr ⟨(t, lo, hi), by simp [hsplit], rfl⟩)
  rw [readPresent]
  rw [if_neg hts, if_neg hntz, if_neg hdate, if_neg hbinary, if_neg hdecimal, ht]

/-- The `simpleString()` of the interval types. -/
def intervalNames : List String :=
  ["interval", "interval year", "interval year to month", "interval month", "interval day",
    "interval day to hour", "interval day to minute", "interval day to second", "interval hour",
    "interval hour to minute", "interval hour to second", "interval minute",
    "interval minute to second", "interval second"]

/-- The tokens that are read as text. -/
def textNames : List String := "string" :: "variant" :: intervalNames

/-- A token that has no branch before the one of the texts. -/
def LateToken (t : String) : Prop :=
  t ∉ ["timestamp", "timestamp_ntz", "date", "binary", "float", "double", "boolean"] ∧
    ¬"decimal".toList <+: t.toList ∧ intWidthBounds.lookup t = none

instance (t : String) : Decidable (LateToken t) := inferInstanceAs (Decidable (_ ∧ _))

instance (target : String) : Decidable (Unsupported target) :=
  inferInstanceAs (Decidable (_ = true))

/-- A token of the string family. -/
def TextToken (t : String) : Prop := t = "string" ∨ t = "variant" ∨ "interval".toList <+: t.toList

instance (t : String) : Decidable (TextToken t) := inferInstanceAs (Decidable (_ ∨ _))

theorem LateToken.readPresent {t : String} (ht : LateToken t) : readPresent t target value =
    if TextToken t then do
      return .str (← coerceString target value)
    else return .ofJson value := by
  obtain ⟨hnames, hdecimal, hwidth⟩ := ht
  simp only [List.mem_cons, List.not_mem_nil, or_false, not_or] at hnames
  obtain ⟨hts, hntz, hdate, hbinary, hfloat, hdouble, hboolean⟩ := hnames
  rw [EsConnector.readPresent]
  rw [if_neg hts, if_neg hntz, if_neg hdate, if_neg hbinary, if_neg hdecimal, hwidth]
  dsimp only
  rw [if_neg (not_or.mpr ⟨hfloat, hdouble⟩), if_neg hboolean]
  rfl

theorem text_branch : ∀ t ∈ textNames, ¬Unsupported t ∧ stripLower t = t ∧ LateToken t ∧
    TextToken t := by decide +kernel

theorem readPresent_text {t : String} (ht : t ∈ textNames) :
    readPresent t target value = (do return .str (← coerceString target value)) := by
  obtain ⟨-, -, hlate, htext⟩ := text_branch t ht
  rw [hlate.readPresent, if_pos htext]

end Scalars

section Containers

theorem readCoerce_array (element : TypeToken) (xs : List (Json F)) :
    readCoerce (.array element) (.list xs) = (do return .list (← xs.mapM (readCoerce element))) := by
  rw [readCoerce]

theorem readCoerce_array_single {element : TypeToken} {value : Json F} (hnull : value ≠ .null)
    (hlist : ∀ xs, value ≠ .list xs) :
    readCoerce (.array element) value = (do return .list [← readCoerce element value]) := by
  rw [readCoerce]
  · exact hnull
  · exact hlist

theorem readCoerce_map {key sub : TypeToken} {value : Json F} (hnull : value ≠ .null) :
    readCoerce (.map key sub) value = (do
      let items ← pyDict value
      return .dict (← items.mapM fun e => do return (e.1, ← readCoerce sub e.2))) := by
  rw [readCoerce]
  exact hnull

theorem readFields_eq_mapM (fields : List (String × TypeToken)) (src : List (PyKey F × Json F)) :
    readFields fields src =
      fields.mapM fun f => do
        return (f.1, ← readCoerce f.2 ((src.lookup (.str f.1)).getD .null)) := by
  induction fields with
  | nil => rfl
  | cons f fields ih =>
    rw [readFields, List.mapM_cons, ih, bind_assoc]
    rfl

theorem readCoerce_struct {fields : List (String × TypeToken)} {value : Json F}
    (hnull : value ≠ .null) :
    readCoerce (.struct fields) value = (do
      let src ← pyDict value
      let columns ← fields.mapM fun f => do
        return (f.1, ← readCoerce f.2 ((src.lookup (.str f.1)).getD .null))
      return .dict ((dictOf columns).map fun f => (.str f.1, f.2))) := by
  rw [readCoerce]
  · simp only [readFields_eq_mapM]
  · exact hnull

/-- `read_coerce` meets a value with a token somewhere while it reads another one. -/
inductive Meets : TypeToken → Json F → TypeToken → Json F → Prop where
  | here : Meets token value token value
  | element : x ∈ xs → Meets sub x token v → Meets (.array sub) (.list xs) token v
  | single : value ≠ .null → (∀ xs, value ≠ .list xs) → Meets sub value token v →
    Meets (.array sub) value token v
  | entry : value ≠ .null → pyDict value = .ok items → e ∈ items → Meets sub e.2 token v →
    Meets (.map key sub) value token v
  | field : value ≠ .null → pyDict value = .ok src → f ∈ fields →
    Meets f.2 ((src.lookup (.str f.1)).getD .null) token v → Meets (.struct fields) value token v

theorem Meets.inner_ok {outer token : TypeToken} {value v : Json F} (h : Meets outer value token v)
    {r : PyValue F} (hok : readCoerce outer value = .ok r) : ∃ r', readCoerce token v = .ok r' := by
  induction h generalizing r with
  | here => exact ⟨r, hok⟩
  | element hx _ ih =>
    rw [readCoerce_array] at hok
    obtain ⟨ys, hys, -⟩ := bind_ok hok
    obtain ⟨y, -, hy⟩ := mapM_ok hys _ hx
    exact ih hy
  | single hnull hlist _ ih =>
    rw [readCoerce_array_single hnull hlist] at hok
    obtain ⟨y, hy, -⟩ := bind_ok hok
    exact ih hy
  | entry hnull hdict he _ ih =>
    rw [readCoerce_map hnull, hdict, ok_bind] at hok
    obtain ⟨ys, hys, -⟩ := bind_ok hok
    obtain ⟨y, -, hy⟩ := mapM_ok hys _ he
    obtain ⟨z, hz, -⟩ := bind_ok hy
    exact ih hz
  | field hnull hdict hf _ ih =>
    rw [readCoerce_struct hnull, hdict, ok_bind] at hok
    obtain ⟨ys, hys, -⟩ := bind_ok hok
    obtain ⟨y, -, hy⟩ := mapM_ok hys _ hf
    obtain ⟨z, hz, -⟩ := bind_ok hy
    exact ih hz

/-- A coercion raises. -/
def Raises (out : Except (PyError F) α) : Prop := ∃ e, out = .error e

omit [PyFloat F] in
theorem raises_iff {out : Except (PyError F) α} : Raises out ↔ ∀ r, out ≠ .ok r := by
  cases out with
  | error e => exact ⟨fun _ r => nofun, fun _ => ⟨e, rfl⟩⟩
  | ok r => exact ⟨fun ⟨_, h⟩ => (nomatch h), fun h => absurd rfl (h r)⟩

theorem Meets.raises {outer token : TypeToken} {value v : Json F} (h : Meets outer value token v)
    (hv : Raises (readCoerce token v)) : Raises (readCoerce outer value) := by
  apply raises_iff.mpr
  intro r hok
  obtain ⟨r', hok'⟩ := h.inner_ok hok
  exact raises_iff.mp hv r' hok'

end Containers

end EsConnector
