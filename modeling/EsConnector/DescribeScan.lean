import EsConnector.DescribeText

namespace EsConnector
set_option autoImplicit true

/-- The scan takes the row for the end of the columns: its name is blank or starts with a number
sign. -/
abbrev EndsColumns (name : String) : Prop := name = "" ∨ name.toList.head? = some '#'

/-- VARIANT, INTERVAL and the intervals with a unit, in whatever case. -/
def AtomicType.isVariantOrInterval : AtomicType → Bool
  | .other name => lowered name = "variant".toList || lowered name = "interval".toList ||
    "interval ".toList.isPrefixOf (lowered name)
  | _ => false

/-- VARIANT or INTERVAL at any depth of a type. -/
def ContainsHostile (dt : SparkType) : Prop := ∃ t ∈ leafTypes dt, t.isVariantOrInterval = true

theorem isVariantOrInterval_hostile {t : AtomicType} (h : t.isVariantOrInterval = true) :
    typeIsArrowHostile t.simpleString = true := by
  cases t with
  | other name =>
    simp only [AtomicType.isVariantOrInterval, Bool.or_eq_true, decide_eq_true_eq,
      List.isPrefixOf_iff_prefix] at h
    rw [AtomicType.simpleString, typeIsArrowHostile_eq]
    rcases h with (h | h) | ⟨rest, h⟩
    · rw [h]
      decide
    · rw [h]
      decide
    · rw [← h, searchHostile_iff]
      refine ⟨[], "interval", ' ' :: rest, by decide, rfl, ?_, ?_⟩
      · intro b hb
        cases hb
      · intro c hc
        cases hc
        decide
  | _ => cases h

/-- The type test succeeds at every depth. -/
theorem ContainsHostile.found {dt : SparkType} (h : ContainsHostile dt) :
    typeIsArrowHostile dt.simpleString = true := by
  obtain ⟨t, ht, hhostile⟩ := h
  rw [typeIsArrowHostile_text, foundWithin, Bool.or_eq_true]
  exact .inl (List.any_eq_true.mpr ⟨t, ht, isVariantOrInterval_hostile hhostile⟩)

/-- The positions of the rows that `_hostile_columns_from_describe` returns. -/
def hostilePositions : List (String × String) → List Nat
  | [] => []
  | (col, text) :: rows =>
    if EndsColumns col then []
    else if typeIsArrowHostile text then 0 :: (hostilePositions rows).map (· + 1)
    else (hostilePositions rows).map (· + 1)

theorem hostileColumns_at_positions (rows : List (String × String)) :
    (hostileColumnsFromDescribe rows).map some = (hostilePositions rows).map (rows[·]?) := by
  induction rows with
  | nil => rfl
  | cons row rows ih =>
    obtain ⟨col, text⟩ := row
    rw [hostileColumnsFromDescribe, hostilePositions]
    by_cases hend : EndsColumns col
    · rw [if_pos hend, if_pos hend]
      rfl
    · have hrest : ((hostilePositions rows).map (· + 1)).map (((col, text) :: rows)[·]?) =
          (hostilePositions rows).map (rows[·]?) := by
        rw [List.map_map]
        exact List.map_congr_left fun i _ => List.getElem?_cons_succ
      rw [if_neg hend, if_neg hend]
      split
      · rw [List.map_cons, List.map_cons, ih, hrest, List.getElem?_cons_zero]
      · rw [ih, hrest]

theorem hostilePositions_sorted (rows : List (String × String)) :
    (hostilePositions rows).Pairwise (· < ·) := by
  induction rows with
  | nil => exact .nil
  | cons row rows ih =>
    have hnext : ((hostilePositions rows).map (· + 1)).Pairwise (· < ·) :=
      List.pairwise_map.mpr (ih.imp Nat.succ_lt_succ)
    rw [hostilePositions]
    split
    · exact .nil
    · split
      · refine .cons (fun i hi => ?_) hnext
        obtain ⟨j, -, rfl⟩ := List.mem_map.mp hi
        exact Nat.succ_pos j
      · exact hnext

/-- A row is returned if its text tests as hostile and no row up to it ends the columns. -/
theorem mem_hostilePositions {rows : List (String × String)} :
    i ∈ hostilePositions rows ↔ ∃ row, rows[i]? = some row ∧ typeIsArrowHostile row.2 = true ∧
      ∀ j ≤ i, ∀ r, rows[j]? = some r → ¬EndsColumns r.1 := by
  induction rows generalizing i with
  | nil => simp [hostilePositions]
  | cons row rows ih =>
    obtain ⟨col, text⟩ := row
    rw [hostilePositions]
    by_cases hend : EndsColumns col
    · rw [if_pos hend]
      apply iff_of_false List.not_mem_nil
      rintro ⟨-, -, -, hno⟩
      exact hno 0 (Nat.zero_le i) (col, text) rfl hend
    · have hnext (i : Nat) : (∀ j ≤ i + 1, ∀ r, ((col, text) :: rows)[j]? = some r →
          ¬EndsColumns r.1) ↔ ∀ j ≤ i, ∀ r, rows[j]? = some r → ¬EndsColumns r.1 := by
        constructor
        · intro h j hj r hr
          exact h (j + 1) (Nat.succ_le_succ hj) r hr
        · intro h j hj r hr
          cases j with
          | zero =>
            cases hr
            exact hend
          | succ j => exact h j (Nat.le_of_succ_le_succ hj) r hr
      have hsucc (i : Nat) : i + 1 ∈ (hostilePositions rows).map (· + 1) ↔
          i ∈ hostilePositions rows := by simp
      rw [if_neg hend]
      cases i with
      | zero =>
        have hzero : 0 ∉ (hostilePositions rows).map (· + 1) := by simp
        have hhere : (∀ j ≤ 0, ∀ r, ((col, text) :: rows)[j]? = some r → ¬EndsColumns r.1) := by
          intro j hj r hr
          obtain rfl := Nat.le_zero.mp hj
          cases hr
          exact hend
        split
        · next htext => exact iff_of_true List.mem_cons_self ⟨_, rfl, htext, hhere⟩
        · next htext =>
          apply iff_of_false hzero
          rintro ⟨row, hrow, hhostile, -⟩
          cases hrow
          exact htext hhostile
      | succ i =>
        rw [List.getElem?_cons_succ, hnext, ← ih, ← hsucc]
        split
        · rw [List.mem_cons]
          exact or_iff_right (Nat.succ_ne_zero i)
        · exact Iff.rfl

/-- What may follow the columns in the output of DESCRIBE. -/
def DescribeTail (tail : List (String × String)) : Prop :=
  tail = [] ∨ ∃ row metadata, tail = row :: metadata ∧ EndsColumns row.1

/-- The scan overlooks no column with a VARIANT or INTERVAL, and returns columns only, in their order
and with their own texts. -/
def FindsHostile (schema : Schema) (tail : List (String × String)) : Prop :=
  let rows := describeRows schema ++ tail
  (hostileColumnsFromDescribe rows).map some =
      (hostilePositions rows).map ((describeRows schema)[·]?) ∧
    (hostilePositions rows).Pairwise (· < ·) ∧
    ∀ (i : Nat) (f : String × SparkType), schema[i]? = some f → ContainsHostile f.2 →
      i ∈ hostilePositions rows

theorem hostilePositions_lt {tail : List (String × String)} (htail : DescribeTail tail)
    (h : i ∈ hostilePositions (describeRows schema ++ tail)) : i < (describeRows schema).length := by
  by_contra hge
  obtain ⟨row, hrow, -, hno⟩ := mem_hostilePositions.mp h
  rcases htail with rfl | ⟨mark, metadata, rfl, hend⟩
  · rw [List.append_nil, List.getElem?_eq_none (Nat.le_of_not_lt hge)] at hrow
    cases hrow
  · refine hno _ (Nat.le_of_not_lt hge) mark ?_ hend
    rw [List.getElem?_append_right le_rfl, Nat.sub_self]
    rfl

theorem describeRows_get (schema : Schema) (i : Nat) :
    (describeRows schema)[i]? = schema[i]?.map fun f => (f.1, f.2.simpleString) :=
  List.getElem?_map

/-- The scan finds what it should exactly if no column up to one with a VARIANT or INTERVAL has a
name that looks like the end of the columns. -/
theorem finds_hostile_iff (schema : Schema) {tail : List (String × String)}
    (htail : DescribeTail tail) : FindsHostile schema tail ↔
      ∀ (i : Nat) (f : String × SparkType), schema[i]? = some f → ContainsHostile f.2 →
        ∀ j ≤ i, ∀ g, schema[j]? = some g → ¬EndsColumns g.1 := by
  have hat {i : Nat} {f : String × SparkType} (hi : schema[i]? = some f) :
      (describeRows schema ++ tail)[i]? = some (f.1, f.2.simpleString) := by
    have hrow : (describeRows schema)[i]? = some (f.1, f.2.simpleString) := by
      rw [describeRows_get, hi]
      rfl
    rw [List.getElem?_append_left (List.getElem?_eq_some_iff.mp hrow).1, hrow]
  constructor
  · rintro ⟨-, -, hall⟩ i f hi hf j hj g hg
    obtain ⟨-, -, -, hno⟩ := mem_hostilePositions.mp (hall i f hi hf)
    exact hno j hj _ (hat hg)
  · intro h
    refine ⟨?_, hostilePositions_sorted _, ?_⟩
    · rw [hostileColumns_at_positions]
      apply List.map_congr_left
      intro i hi
      exact List.getElem?_append_left (hostilePositions_lt htail hi)
    · intro i f hi hf
      refine mem_hostilePositions.mpr ⟨_, hat hi, hf.found, fun j hj r hr => ?_⟩
      have hlt : j < schema.length := by
        have := (List.getElem?_eq_some_iff.mp hi).1
        omega
      have hg := hat (List.getElem?_eq_getElem hlt)
      rw [hg] at hr
      cases hr
      exact h i f hi hf j hj _ (List.getElem?_eq_getElem hlt)

/-- A marked column before a VARIANT hides it. -/
def markedSchema : Schema := [("#id", .atomic .bigint), ("raw", .atomic (.other "variant"))]

theorem marked_column_hides_variant : ContainsHostile (.atomic (.other "variant")) ∧
    hostileColumnsFromDescribe (describeRows markedSchema) = [] ∧ ¬FindsHostile markedSchema [] := by
  have hhostile : ContainsHostile (.atomic (.other "variant")) := ⟨.other "variant", by decide⟩
  refine ⟨hhostile, by decide, ?_⟩
  intro h
  have hmem := h.2.2 1 ("raw", .atomic (.other "variant")) rfl hhostile
  exact absurd hmem (by decide)

/-- A VARIANT within an array is found, and the metadata behind the columns is not. -/
theorem nested_variant_found :
    FindsHostile [("id", .atomic .bigint), ("tags", .array (.atomic (.other "variant")))]
      [("", ""), ("# Partition Information", ""), ("part", "variant")] := by
  have htail : DescribeTail [("", ""), ("# Partition Information", ""), ("part", "variant")] :=
    .inr ⟨("", ""), _, rfl, by decide⟩
  apply (finds_hostile_iff _ htail).mpr
  intro i f _ _ j _ g hg
  have hmem := List.mem_of_getElem? hg
  simp only [List.mem_cons, List.not_mem_nil, or_false] at hmem
  rcases hmem with rfl | rfl
  · decide
  · decide

end EsConnector
