import EsConnector.SourceColumns

namespace EsConnector
set_option autoImplicit true

variable {F : Type} {r : Resolver}

theorem attributeParts_length {part : List Char} {quoted : Bool} {cs : List Char} {p : String}
    {nested : List String} (h : attributeParts part quoted cs = some (p :: nested)) :
    p.length ≤ part.length + cs.length ∧
      (quoted = true ∨ (∃ c ∈ cs, c = '.' ∨ c = tick) → p.length < part.length + cs.length) := by
  have hfront {front : List Char} {rest : Option (List String)}
      (h : rest.map (String.ofList front :: ·) = some (p :: nested)) : p.length = front.length := by
    obtain ⟨_, -, hp⟩ := Option.map_eq_some_iff.mp h
    rw [← (List.cons.inj hp).1, String.length_ofList]
  fun_induction attributeParts part quoted cs with
  | case1 => cases h
  | case2 part quoted hquoted =>
    cases h
    simpa using hquoted
  | case3 part =>
    cases h
    simp
  | case4 part rest ih =>
    have hlt := (ih h).2 (.inl rfl)
    simp only [List.length_append, List.length_cons, List.length_nil] at hlt ⊢
    omega
  | case5 part d rest _ _ ih =>
    have hp := hfront h
    simp only [List.length_cons]
    omega
  | case6 => cases h
  | case7 part d rest _ ih =>
    have hlt := (ih h).2 (.inl rfl)
    simp only [List.length_append, List.length_cons, List.length_nil] at hlt ⊢
    omega
  | case8 quoted rest _ ih =>
    have hlt := (ih h).2 (.inl rfl)
    simp only [List.length_cons, List.length_nil] at hlt ⊢
    omega
  | case9 => cases h
  | case10 => cases h
  | case11 part quoted rest _ _ _ ih =>
    have hp := hfront h
    simp only [List.length_cons]
    omega
  | case12 part quoted d rest hquoted htick hdot ih =>
    obtain ⟨hle, hlt⟩ := ih h
    simp only [List.length_append, List.length_cons, List.length_nil] at hle hlt ⊢
    refine ⟨by omega, ?_⟩
    intro hmark
    have hrest : ∃ c ∈ rest, c = '.' ∨ c = tick := by
      simpa [hquoted, htick, hdot] using hmark
    have := hlt (.inr hrest)
    omega

/-- A column that reads a row only through another one, whose nulls it passes on. -/
structure Follows (c d : Column F) : Prop where
  congr : ∀ row row', c.eval row = c.eval row' → d.eval row = d.eval row'
  null : ∀ row, c.eval row = .null → d.eval row = .null

theorem Follows.refl (c : Column F) : Follows c c := ⟨fun _ _ h => h, fun _ h => h⟩

theorem Follows.trans {c d e : Column F} (hcd : Follows c d) (hde : Follows d e) : Follows c e :=
  ⟨fun row row' h => hde.congr row row' (hcd.congr row row' h), fun row h => hde.null row (hcd.null row h)⟩

theorem Follows.of_map {c : Column F} (f : SparkValue F → SparkValue F) (hf : f .null = .null)
    (dt : SparkType) : Follows c ⟨dt, fun row => f (c.eval row)⟩ :=
  ⟨fun _ _ h => congrArg f h, fun _ h => (congrArg f h).trans hf⟩

theorem getItem_follows {c d : Column F} {name : String} (h : c.getItem r name = .ok d) :
    Follows c d := by
  rw [Column.getItem] at h
  split at h
  · obtain ⟨x, -, hd⟩ := bind_ok h
    cases hd
    exact .of_map _ rfl _
  · obtain ⟨x, -, hd⟩ := bind_ok h
    cases hd
    exact .of_map _ rfl _
  · cases h
    exact .of_map _ rfl _
  · cases h

theorem getItems_follow {c d : Column F} {names : List String}
    (h : names.foldlM (Column.getItem r) c = .ok d) : Follows c d := by
  induction names generalizing c with
  | nil =>
    cases h
    exact .refl _
  | cons name names ih =>
    rw [List.foldlM_cons] at h
    obtain ⟨e, he, hd⟩ := bind_ok h
    exact (getItem_follows he).trans (ih hd)

/-- The column at a position. -/
def Column.cellAt (f : String × SparkType) (i : Nat) : Column F := ⟨f.2, fun row => row.getD i .null⟩

theorem topLevel_ok {schema : Schema} {name part : String} {c : Column F}
    (h : Column.topLevel r schema name part = .ok c) :
    ∃ f i, r.candidates schema part = [(f, i)] ∧ c = .cellAt f i := by
  rw [Column.topLevel] at h
  split at h
  · cases h
  · rename_i f i hone
    cases h
    exact ⟨f, i, hone, rfl⟩
  · cases h

theorem mem_candidates {schema : Schema} {name : String} {f : String × SparkType} {i : Nat} :
    (f, i) ∈ r.candidates schema name ↔ schema[i]? = some f ∧ r.same f.1 name = true := by
  rw [Resolver.candidates, List.mem_filter, List.mem_zipIdx_iff_getElem?]

theorem fieldOf_getElem? {fields : Schema} {name : String} {x : Nat × SparkType}
    (h : Column.fieldOf r fields name = .ok x) :
    ∃ f : String × SparkType, fields[x.1]? = some f ∧ f.2 = x.2 := by
  rw [Column.fieldOf] at h
  split at h
  · cases h
  · rename_i f i hone
    cases h
    exact ⟨f, (mem_candidates.mp (hone ▸ List.mem_singleton.mpr rfl)).1, rfl⟩
  · cases h

theorem col_parts {schema : Schema} {name : String} {c : Column F}
    (h : Column.col r schema name = .ok c) : ∃ part nested f i,
      attributeParts [] false name.toList = some (part :: nested) ∧
      r.candidates schema part = [(f, i)] ∧
      nested.foldlM (Column.getItem r) (Column.cellAt f i) = .ok c := by
  rw [Column.col] at h
  split at h
  · cases h
  · split at h
    · rename_i part nested hparts
      obtain ⟨top, htop, hitems⟩ := bind_ok h
      obtain ⟨f, i, hone, rfl⟩ := topLevel_ok htop
      exact ⟨part, nested, f, i, hparts, hone, hitems⟩
    · cases h

/-- `F.col` reads one column of the frame. It is the column of that name, where it is not one with a
shorter name. -/
theorem col_reads {schema : Schema} {name : String} {c : Column F}
    (h : Column.col r schema name = .ok c) :
    ∃ f i, schema[i]? = some f ∧ Follows (.cellAt f i) c ∧ f.1.length ≤ name.length ∧
      (Unmarked name → c = .cellAt f i ∧ r.candidates schema name = [(f, i)]) ∧
      (¬Unmarked name → f.1.length < name.length) := by
  obtain ⟨part, nested, f, i, hparts, hone, hitems⟩ := col_parts h
  obtain ⟨hfield, hsame⟩ := mem_candidates.mp (hone ▸ List.mem_singleton.mpr rfl)
  obtain ⟨hle, hlt⟩ := attributeParts_length hparts
  rw [List.length_nil, Nat.zero_add, String.length_toList, ← r.length_eq _ _ hsame] at hle hlt
  refine ⟨f, i, hfield, getItems_follow hitems, hle, ?_, fun hname => hlt ?_⟩
  · intro hname
    rw [attributeParts_plain hname, List.nil_append, String.ofList_toList] at hparts
    cases hparts
    cases hitems
    exact ⟨rfl, hone⟩
  · by_contra hnone
    exact hname fun c hc => not_or.mp fun hmark => hnone (.inr ⟨c, hc, hmark⟩)

/-- A rewrite whose leaves and null structs follow what they are made of. -/
structure Rewrite.Local (w : Rewrite F) : Prop where
  leaf : ∀ t c c', w.leaf t c = .ok c' → Follows c c'
  nullStruct : ∀ dt c, Follows c (w.nullStruct dt c)

variable {w : Rewrite F}

theorem whenOtherwise_follows {c condition value other d : Column F}
    (hcondition : ∀ row row', c.eval row = c.eval row' → condition.eval row = condition.eval row')
    (hvalue : Follows c value) (hother : Follows c other)
    (h : condition.whenOtherwise value other = .ok d) : Follows c d := by
  obtain ⟨-, -, heval⟩ := Column.whenOtherwise_ok h
  constructor
  · intro row row' heq
    rw [heval, heval, hcondition row row' heq, hvalue.congr row row' heq,
      hother.congr row row' heq]
  · intro row hnull
    rw [heval, hvalue.null row hnull, hother.null row hnull, Bool.cond_self]

theorem applyLambda_congr {f : Column F → Except AnalysisException (Column F)}
    (hf : ∀ c d, f c = .ok d → Follows c d) (dt : SparkType) (row row' : Row F) (x : SparkValue F) :
    Column.applyLambda f dt row x = Column.applyLambda f dt row' x := by
  rw [Column.applyLambda, Column.applyLambda]
  split
  · rename_i c hc
    exact (hf _ c hc).congr row row' rfl
  · rfl

@[simp] theorem Column.isNull_isTrue (c : Column F) (row : Row F) :
    (c.isNull.eval row).isTrue = (c.eval row).isNull := rfl

theorem applyFields_congr {fields : Schema}
    (ih : ∀ fd ∈ fields, ∀ c d : Column F, w.apply r fd.2 c = .ok d → Follows c d) {c : Column F}
    {cols : List (String × Column F)} (h : w.applyFields r fields c = .ok cols) :
    ∀ col ∈ cols, ∀ row row', c.eval row = c.eval row' → col.2.eval row = col.2.eval row' := by
  induction fields generalizing cols with
  | nil =>
    cases h
    exact fun _ hcol => nomatch hcol
  | cons fd fields ihfields =>
    obtain ⟨x, field, rest, hget, hfield, hrest, rfl⟩ := Rewrite.applyFields_cons_ok h
    have hfollows : Follows c field := by
      apply (getItem_follows hget).trans
      split at hfield
      · exact ih fd List.mem_cons_self _ _ hfield
      · cases hfield
        exact .refl _
    exact List.forall_mem_cons.mpr ⟨hfollows.congr,
      ihfields (fun fd hfd => ih fd (List.mem_cons_of_mem _ hfd)) hrest⟩

theorem Rewrite.Local.apply_follows (hw : w.Local) {dt : SparkType} {c d : Column F}
    (h : w.apply r dt c = .ok d) : Follows c d := by
  induction dt generalizing c d with
  | atomic t => exact hw.leaf t c d h
  | array element ih =>
    obtain ⟨_, body, -, -, rfl⟩ := Rewrite.apply_array_ok h
    constructor
    · intro row row' heq
      dsimp only
      rw [heq, funext (applyLambda_congr (fun _ _ => ih) _ row row')]
    · intro row hnull
      dsimp only
      rw [hnull, SparkValue.mapArray_null]
  | map key value _ ih =>
    obtain ⟨_, _, body, -, -, rfl⟩ := Rewrite.apply_map_ok h
    constructor
    · intro row row' heq
      dsimp only
      rw [heq, funext (applyLambda_congr (fun _ _ => ih) _ row row')]
    · intro row hnull
      dsimp only
      rw [hnull, SparkValue.mapValues_null]
  | struct fields ih =>
    obtain ⟨cols, hcols, -, -, heval⟩ := Rewrite.apply_struct_ok h
    have hfields := applyFields_congr (fun fd hfd _ _ => ih fd hfd) hcols
    constructor
    · intro row row' heq
      have hstruct : (Column.struct cols).eval row = (Column.struct cols).eval row' :=
        congrArg SparkValue.struct
          (List.map_congr_left fun col hcol => hfields col hcol row row' heq)
      rw [heval, heval, heq, hstruct, (hw.nullStruct _ c).congr row row' heq]
    · intro row hnull
      rw [heval, hnull, (hw.nullStruct _ c).null row hnull]
      rfl

theorem Column.function_accepts {c d : Column F} {accepts : SparkType → Bool} {result : SparkType}
    {f : SparkValue F → SparkValue F} (h : c.function name accepts result f = .ok d) :
    accepts c.dataType = true ∧ d = ⟨result, fun row => f (c.eval row)⟩ := by
  rw [Column.function] at h
  split at h
  · rename_i haccepts
    exact ⟨haccepts, (Except.ok.inj h).symm⟩
  · cases h

theorem Column.function_eq {c d : Column F} {accepts : SparkType → Bool} {result : SparkType}
    {f : SparkValue F → SparkValue F} (h : c.function name accepts result f = .ok d) :
    d = ⟨result, fun row => f (c.eval row)⟩ :=
  (Column.function_accepts h).2

theorem function_follows {c d : Column F} {accepts : SparkType → Bool} {result : SparkType}
    {f : SparkValue F → SparkValue F} (hf : f .null = .null)
    (h : c.function name accepts result f = .ok d) : Follows c d := by
  obtain rfl := Column.function_eq h
  exact .of_map f hf result

theorem litNull_follows (c : Column F) (dt : SparkType) : Follows c (.litNull dt) :=
  ⟨fun _ _ _ => rfl, fun _ _ => rfl⟩

theorem timestampRewrite_local : (timestampRewrite : Rewrite F).Local where
  leaf t c c' h := by
    simp only [timestampRewrite] at h
    split at h
    · exact function_follows rfl h
    · cases h
      exact .refl _
  nullStruct dt c := litNull_follows c _

theorem mul_follows {c a b d : Column F} (ha : Follows c a) (hb : ∀ row row', b.eval row = b.eval row')
    (h : a.mul b = .ok d) : Follows c d := by
  rw [Column.mul] at h
  split at h
  · cases h
    constructor
    · intro row row' heq
      dsimp only
      rw [ha.congr row row' heq, hb row row']
    · intro row hnull
      dsimp only
      rw [ha.null row hnull]
      rfl
  · cases h

theorem makeTimestamp_follows {c year month day hour minute second : Column F}
    (hyear : Follows c year) (hmonth : Follows c month) (hday : Follows c day)
    (hhour : Follows c hour) (hminute : Follows c minute) (hsecond : Follows c second) :
    Follows c (.makeTimestamp year month day hour minute second) := by
  constructor
  · intro row row' heq
    dsimp only [Column.makeTimestamp]
    rw [hyear.congr row row' heq, hmonth.congr row row' heq, hday.congr row row' heq,
      hhour.congr row row' heq, hminute.congr row row' heq, hsecond.congr row row' heq]
  · intro row hnull
    dsimp only [Column.makeTimestamp]
    rw [hyear.null row hnull]

theorem dateNtzRewrite_local : (dateNtzRewrite : Rewrite F).Local where
  leaf t c c' h := by
    cases t with
    | date =>
      obtain ⟨days, hdays, h⟩ := bind_ok h
      obtain ⟨long, hlong, h⟩ := bind_ok h
      obtain ⟨factor, hfactor, h⟩ := bind_ok h
      exact mul_follows ((function_follows rfl hdays).trans (function_follows rfl hlong))
        (fun row row' => (function_follows rfl hfactor).congr row row' rfl) h
    | timestampNtz =>
      obtain ⟨year, hyear, h⟩ := bind_ok h
      obtain ⟨month, hmonth, h⟩ := bind_ok h
      obtain ⟨day, hday, h⟩ := bind_ok h
      obtain ⟨hour, hhour, h⟩ := bind_ok h
      obtain ⟨minute, hminute, h⟩ := bind_ok h
      obtain ⟨second, hsecond, h⟩ := bind_ok h
      exact (makeTimestamp_follows (function_follows rfl hyear) (function_follows rfl hmonth)
        (function_follows rfl hday) (function_follows rfl hhour) (function_follows rfl hminute)
        (function_follows rfl hsecond)).trans (function_follows rfl h)
    | _ =>
      cases h
      exact .refl _
  nullStruct dt c := litNull_follows c _

section Floats

variable [PyFloat F]

theorem nonfiniteRewrite_local : (nonfiniteRewrite : Rewrite F).Local where
  leaf t c c' h := by
    simp only [nonfiniteRewrite] at h
    split at h
    · obtain ⟨condition, hcondition, h⟩ := bind_ok h
      exact whenOtherwise_follows (function_follows rfl hcondition).congr (litNull_follows c _)
        (.refl c) h
    · cases h
      exact .refl _
  nullStruct dt c := .refl c

/-- What goes into `_source` under a name follows what `F.col` makes of the name. -/
theorem sourceExpr_follows {schema : Schema} {name : String} {e : String × Column F}
    (h : sourceExpr r schema name = .ok e) :
    ∃ c, Column.col r schema name = .ok c ∧ e.1 = name ∧ Follows c e.2 := by
  rw [sourceExpr] at h
  obtain ⟨c, hc, h⟩ := bind_ok h
  refine ⟨c, hc, ?_⟩
  split at h
  · cases h
    exact ⟨rfl, .refl c⟩
  · obtain ⟨c₁, hc₁, h⟩ := bind_ok h
    obtain ⟨c₂, hc₂, h⟩ := bind_ok h
    cases h
    refine ⟨rfl, Follows.trans (d := c₁) ?_ ?_⟩
    · split at hc₁
      · exact dateNtzRewrite_local.apply_follows hc₁
      · cases hc₁
        exact .refl _
    · split at hc₂
      · exact nonfiniteRewrite_local.apply_follows hc₂
      · cases hc₂
        exact .refl _

theorem idColumn_follows {schema : Schema} {name : String} {d : Column F}
    (h : idColumn r schema name = .ok d) :
    ∃ c, Column.col r schema name = .ok c ∧ Follows c d := by
  rw [idColumn] at h
  obtain ⟨c, hc, h⟩ := bind_ok h
  refine ⟨c, hc, ?_⟩
  split at h
  · split at h
    · exact nonfiniteRewrite_local.apply_follows h
    · cases h
      exact .refl _
  · cases h
    exact .refl _

end Floats

end EsConnector
