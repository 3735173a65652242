import EsConnector.ContainerReads

namespace EsConnector
set_option autoImplicit true

variable {F : Type}

/-- A signed integer of `bits` bits. -/
def Signed (bits : Nat) (i : Int) : Prop := -2 ^ (bits - 1) ≤ i ∧ i < 2 ^ (bits - 1)

/-- A millisecond of the years 1 to 9999, in microseconds since the epoch. -/
def Millisecond (micros : Int) : Prop :=
  (datetimeMin ≤ micros ∧ micros ≤ datetimeMax) ∧ micros % 1000 = 0

/-- A Python value that is read for a column of an atomic type. The precision and the scale of a
decimal are not looked at. Of the types that are known by their names only, the variants and the
intervals are texts, `char`, `varchar` and `void` have no values, and the others, such as a collated
string, have the stored value as it is. -/
def AtomicType.Holds : AtomicType → PyValue F → Prop
  | .boolean, v => ∃ b, v = .bool b
  | .tinyint, v => ∃ i, v = .int i ∧ Signed 8 i
  | .smallint, v => ∃ i, v = .int i ∧ Signed 16 i
  | .int, v => ∃ i, v = .int i ∧ Signed 32 i
  | .bigint, v => ∃ i, v = .int i ∧ Signed 64 i
  | .float, v => ∃ x, v = .float x
  | .double, v => ∃ x, v = .float x
  | .decimal _ _, v => ∃ d, v = .decimal d
  | .string, v => ∃ s, v = .str s
  | .binary, v => ∃ bytes, v = .bytes bytes
  | .date, v => ∃ days, v = .date days ∧
    datetimeMin ≤ days * Calendar.microsPerDay ∧ days * Calendar.microsPerDay ≤ datetimeMax
  | .timestamp, v => ∃ micros, v = .datetime micros ∧ Millisecond micros
  | .timestampNtz, v => ∃ micros, v = .naive micros ∧ Millisecond micros
  | .other name, v => ¬Unsupported name ∧ (LateToken (stripLower name) →
    if TextToken (stripLower name) then ∃ s, v = .str s else ∃ j, v = .ofJson j)

mutual

/-- A Python value that a column takes: at each depth it is null or of the type declared there, and
the keys of its maps are as `keys` wants them. -/
def SparkType.Holds (keys : PyKey F → Prop) : SparkType → PyValue F → Prop
  | _, .none => True
  | .atomic t, v => t.Holds v
  | .array element, v => ∃ xs, v = .list xs ∧ ∀ x ∈ xs, element.Holds keys x
  | .map _ value, v => ∃ items, v = .dict items ∧ ∀ e ∈ items, keys e.1 ∧ value.Holds keys e.2
  | .struct fields, v => ∃ items, v = .dict items ∧ (∀ e ∈ items, FieldHolds keys fields e) ∧
    ∀ name ∈ fields.map Prod.fst, ∃ e ∈ items, e.1 = .str name

/-- The entry is the one of a field of its name, and of its type. -/
def FieldHolds (keys : PyKey F → Prop) : Schema → PyKey F × PyValue F → Prop
  | [], _ => False
  | (name, dt) :: fields, e => (e.1 = .str name ∧ dt.Holds keys e.2) ∨ FieldHolds keys fields e

end

variable {keys : PyKey F → Prop}

theorem fieldHolds_iff {fields : Schema} {e : PyKey F × PyValue F} :
    FieldHolds keys fields e ↔ ∃ f ∈ fields, e.1 = .str f.1 ∧ f.2.Holds keys e.2 := by
  induction fields with
  | nil => simp [FieldHolds]
  | cons f fields ih => simp [FieldHolds, ih]

theorem SparkType.holds_none (dt : SparkType) : dt.Holds keys .none := by
  cases dt <;> simp [SparkType.Holds]

section Atomic

variable [PyFloat F] {target : String} {v : Json F}

theorem epochMillisToDatetime_millisecond {micros : Int}
    (h : epochMillisToDatetime v = .ok micros) : Millisecond micros := by
  rw [epochMillisToDatetime] at h
  obtain ⟨millis, -, h⟩ := bind_ok h
  dsimp only at h
  split at h
  · rename_i hrange
    cases h
    exact ⟨hrange, Int.mul_emod_left ..⟩
  · cases h

theorem epochMillisToDate_range {days : Int} (h : epochMillisToDate v = .ok days) :
    datetimeMin ≤ days * Calendar.microsPerDay ∧ days * Calendar.microsPerDay ≤ datetimeMax := by
  rw [epochMillisToDate] at h
  obtain ⟨micros, hmicros, h⟩ := bind_ok h
  obtain ⟨⟨hmin, hmax⟩, -⟩ := epochMillisToDatetime_millisecond hmicros
  cases h
  rw [datetimeMin] at hmin ⊢
  rw [datetimeMax] at hmax ⊢
  rw [Calendar.microsPerDay]
  omega

theorem coerceInt_range {lo hi i : Int} (h : coerceInt lo hi target v = .ok i) :
    lo ≤ i ∧ i ≤ hi := by
  have hwidth {out : Except (PyError F) Int} (h : (do
      let i ← out
      if lo ≤ i ∧ i ≤ hi then return i
      else throw (PyError.schemaMismatch (.outOfRange i target lo hi))) = .ok i) :
      lo ≤ i ∧ i ≤ hi := by
    obtain ⟨j, -, h⟩ := bind_ok h
    split at h
    · rename_i hrange
      cases h
      exact hrange
    · cases h
  unfold coerceInt at h
  dsimp only at h
  split at h
  · split at h
    · exact hwidth h
    · cases h
  · exact hwidth h

theorem readScalar_named {t : AtomicType} {token : String} (ht : ∀ name, t ≠ .other name)
    (htoken : stripLower t.simpleString = token) (hv : v ≠ .null)
    (h : readScalar t.simpleString v = .ok r) : readPresent token t.simpleString v = .ok r := by
  rwa [readScalar_present (supported_of_named ht) hv, htoken] at h

omit [PyFloat F] in
theorem guarded_ok {out : Except (PyError F) β} {wrap : β → PyValue F}
    (h : (do rejectNonScalar v target; return wrap (← out) : Except (PyError F) (PyValue F)) = .ok r) :
    ∃ b, out = .ok b ∧ r = wrap b := by
  obtain ⟨-, -, h⟩ := bind_ok h
  obtain ⟨b, hb, h⟩ := bind_ok h
  cases h
  exact ⟨b, hb, rfl⟩

theorem width_holds (t : AtomicType) (token : String) (bits : Nat) (ht : ∀ name, t ≠ .other name)
    (htoken : stripLower t.simpleString = token)
    (hwidth : intWidthBounds.lookup token = some (-2 ^ (bits - 1), 2 ^ (bits - 1) - 1))
    (hv : v ≠ .null) (h : readScalar t.simpleString v = .ok r) : ∃ i, r = .int i ∧ Signed bits i := by
  have h := readScalar_named ht htoken hv h
  rw [readPresent_width hwidth] at h
  obtain ⟨i, hi, rfl⟩ := guarded_ok h
  have hrange := coerceInt_range hi
  exact ⟨i, rfl, hrange.1, Int.lt_of_le_sub_one hrange.2⟩

theorem readScalar_holds (t : AtomicType) (hv : v ≠ .null)
    (h : readScalar t.simpleString v = .ok r) : t.Holds r := by
  cases t with
  | boolean =>
    have h : readPresent "boolean" (AtomicType.simpleString .boolean) v = .ok r :=
      readScalar_named (by simp) rfl hv h
    rw [readPresent_boolean] at h
    obtain ⟨b, -, rfl⟩ := guarded_ok h
    exact ⟨b, rfl⟩
  | tinyint => exact width_holds .tinyint "tinyint" 8 (by simp) rfl rfl hv h
  | smallint => exact width_holds .smallint "smallint" 16 (by simp) rfl rfl hv h
  | int => exact width_holds .int "int" 32 (by simp) rfl rfl hv h
  | bigint => exact width_holds .bigint "bigint" 64 (by simp) rfl rfl hv h
  | float =>
    have h : readPresent "float" (AtomicType.simpleString .float) v = .ok r :=
      readScalar_named (by simp) rfl hv h
    rw [readPresent_float] at h
    obtain ⟨x, -, rfl⟩ := guarded_ok h
    exact ⟨x, rfl⟩
  | double =>
    have h : readPresent "double" (AtomicType.simpleString .double) v = .ok r :=
      readScalar_named (by simp) rfl hv h
    rw [readPresent_double] at h
    obtain ⟨x, -, rfl⟩ := guarded_ok h
    exact ⟨x, rfl⟩
  | decimal precision scale =>
    obtain ⟨rest, hrest⟩ := stripLower_decimal precision scale
    have h := readScalar_named (by simp) rfl hv h
    rw [readPresent_decimal ⟨rest, hrest.symm⟩] at h
    obtain ⟨d, -, rfl⟩ := guarded_ok h
    exact ⟨d, rfl⟩
  | string =>
    have h : readPresent "string" (AtomicType.simpleString .string) v = .ok r :=
      readScalar_named (by simp) rfl hv h
    rw [readPresent_string] at h
    obtain ⟨s, -, h⟩ := bind_ok h
    cases h
    exact ⟨s, rfl⟩
  | binary =>
    have h : readPresent "binary" (AtomicType.simpleString .binary) v = .ok r :=
      readScalar_named (by simp) rfl hv h
    rw [readPresent_binary] at h
    obtain ⟨bytes, -, rfl⟩ := guarded_ok h
    exact ⟨bytes, rfl⟩
  | date =>
    have h : readPresent "date" (AtomicType.simpleString .date) v = .ok r :=
      readScalar_named (by simp) rfl hv h
    rw [readPresent_date] at h
    obtain ⟨days, hdays, rfl⟩ := guarded_ok h
    exact ⟨days, rfl, epochMillisToDate_range hdays⟩
  | timestamp =>
    have h : readPresent "timestamp" (AtomicType.simpleString .timestamp) v = .ok r :=
      readScalar_named (by simp) rfl hv h
    rw [readPresent_timestamp] at h
    obtain ⟨micros, hmicros, rfl⟩ := guarded_ok h
    exact ⟨micros, rfl, epochMillisToDatetime_millisecond hmicros⟩
  | timestampNtz =>
    have h : readPresent "timestamp_ntz" (AtomicType.simpleString .timestampNtz) v = .ok r :=
      readScalar_named (by simp) rfl hv h
    rw [readPresent_timestampNtz] at h
    obtain ⟨micros, hmicros, rfl⟩ := guarded_ok h
    exact ⟨micros, rfl, epochMillisToDatetime_millisecond hmicros⟩
  | other name =>
    have hsupported : ¬Unsupported name := supported_of_readScalar h
    refine ⟨hsupported, fun hlate => ?_⟩
    rw [AtomicType.simpleString, readScalar_present hsupported hv, hlate.readPresent] at h
    split at h
    · rename_i htext
      rw [if_pos htext]
      obtain ⟨s, -, h⟩ := bind_ok h
      cases h
      exact ⟨s, rfl⟩
    · rename_i htext
      rw [if_neg htext]
      cases h
      exact ⟨v, rfl⟩

end Atomic

section Dictionaries

variable {κ : Type} [BEq κ] [LawfulBEq κ] {items pairs : List (κ × α)} {e : κ × α}

theorem mem_dictInsert (h : e ∈ dictInsert items k v) : e ∈ items ∨ e = (k, v) := by
  rw [dictInsert] at h
  split at h
  · obtain ⟨old, hold, rfl⟩ := List.mem_map.mp h
    split
    · rename_i hk
      exact .inr (by rw [eq_of_beq hk])
    · exact .inl hold
  · rcases List.mem_append.mp h with h | h
    · exact .inl h
    · exact .inr (List.mem_singleton.mp h)

theorem dictInsert_key (items : List (κ × α)) (k : κ) (v : α) :
    k ∈ (dictInsert items k v).map Prod.fst := by
  rw [dictInsert]
  split
  · rename_i hany
    obtain ⟨old, hold, hk⟩ := List.any_eq_true.mp hany
    exact List.mem_map.mpr ⟨(old.1, v), List.mem_map.mpr ⟨old, hold, if_pos hk⟩, eq_of_beq hk⟩
  · simp

omit [LawfulBEq κ] in
theorem dictInsert_keeps {k' : κ} (h : k' ∈ items.map Prod.fst) :
    k' ∈ (dictInsert items k v).map Prod.fst := by
  obtain ⟨old, hold, rfl⟩ := List.mem_map.mp h
  rw [dictInsert]
  split
  · refine List.mem_map.mpr ⟨_, List.mem_map.mpr ⟨old, hold, rfl⟩, ?_⟩
    split <;> rfl
  · rw [List.map_append]
    exact List.mem_append_left _ h

theorem foldl_dictInsert_mem
    (h : e ∈ pairs.foldl (fun items p => dictInsert items p.1 p.2) items) : e ∈ items ∨ e ∈ pairs := by
  induction pairs generalizing items with
  | nil => exact .inl h
  | cons p pairs ih =>
    rcases ih h with h | h
    · rcases mem_dictInsert h with h | rfl
      · exact .inl h
      · exact .inr List.mem_cons_self
    · exact .inr (List.mem_cons_of_mem _ h)

theorem foldl_dictInsert_key {k : κ} (h : k ∈ items.map Prod.fst ∨ k ∈ pairs.map Prod.fst) :
    k ∈ (pairs.foldl (fun items p => dictInsert items p.1 p.2) items).map Prod.fst := by
  induction pairs generalizing items with
  | nil => exact h.resolve_right List.not_mem_nil
  | cons p pairs ih =>
    apply ih
    rcases h with h | h
    · exact .inl (dictInsert_keeps h)
    · rcases List.mem_cons.mp h with rfl | h
      · exact .inl (dictInsert_key ..)
      · exact .inr h

theorem mem_of_mem_dictOf (h : e ∈ dictOf pairs) : e ∈ pairs :=
  (foldl_dictInsert_mem h).resolve_left List.not_mem_nil

theorem key_mem_dictOf {k : κ} (h : k ∈ pairs.map Prod.fst) : k ∈ (dictOf pairs).map Prod.fst :=
  foldl_dictInsert_key (.inr h)

end Dictionaries

section Values

variable [PyFloat F]

omit [PyFloat F] in
theorem schemaFieldTokens_eq_map (schema : Schema) :
    schemaFieldTokens schema = schema.map fun f => (f.1, sparkTypeToken f.2) := by
  induction schema with
  | nil => rfl
  | cons f fields ih => rw [schemaFieldTokens, ih, List.map_cons]

omit [PyFloat F] in
theorem mem_schemaFieldTokens {schema : Schema} {f : String × SparkType} (h : f ∈ schema) :
    (f.1, sparkTypeToken f.2) ∈ schemaFieldTokens schema := by
  rw [schemaFieldTokens_eq_map]
  exact List.mem_map_of_mem h

/-- The dictionaries that are read as maps have keys as `keys` wants them. -/
def MapKeys (keys : PyKey F → Prop) (token : TypeToken) (v : Json F) : Prop :=
  ∀ key sub w items, Meets token v (.map key sub) w → pyDict w = .ok items →
    ∀ e ∈ items, keys e.1

theorem mapKeys_true (token : TypeToken) (v : Json F) : MapKeys (fun _ => True) token v :=
  fun _ _ _ _ _ _ _ _ => trivial

omit [PyFloat F] in
/-- A value of each field that is of its type, under its name. -/
theorem columns_hold {fields : Schema} {read : String × TypeToken → Except (PyError F) (PyValue F)}
    {columns : List (String × PyValue F)}
    (hcolumns : ((schemaFieldTokens fields).mapM fun f => do return (f.1, ← read f)) = .ok columns)
    (hread : ∀ f ∈ fields, ∀ r, read (f.1, sparkTypeToken f.2) = .ok r → f.2.Holds keys r) :
    (∀ c ∈ columns, ∃ f ∈ fields, c.1 = f.1 ∧ f.2.Holds keys c.2) ∧
      columns.map Prod.fst = fields.map Prod.fst := by
  constructor
  · intro c hc
    obtain ⟨token, htoken, hentry⟩ := mapM_ok_mem hcolumns c hc
    obtain ⟨r, hr, hentry⟩ := bind_ok hentry
    cases hentry
    rw [schemaFieldTokens_eq_map] at htoken
    obtain ⟨f, hf, rfl⟩ := List.mem_map.mp htoken
    exact ⟨f, hf, rfl, hread f hf r hr⟩
  · rw [← schemaFieldTokens_names]
    refine mapM_ok_map (fun token _ c _ hentry => ?_) hcolumns
    obtain ⟨r, -, hentry⟩ := bind_ok hentry
    cases hentry
    rfl

/-- What is read is of the declared type. -/
theorem readCoerce_holds {dt : SparkType} {v : Json F} {r : PyValue F}
    (hkeys : MapKeys keys (sparkTypeToken dt) v) (h : readCoerce (sparkTypeToken dt) v = .ok r) :
    dt.Holds keys r := by
  induction dt generalizing v r with
  | atomic t =>
    have h : readScalar t.simpleString v = .ok r := h
    by_cases hv : v = .null
    · subst hv
      obtain ⟨-, -, h⟩ := bind_ok h
      cases h
      exact SparkType.holds_none _
    · have hholds := readScalar_holds t hv h
      cases r <;> first | exact hholds | exact SparkType.holds_none _
  | array element ih =>
    rw [sparkTypeToken] at h hkeys
    by_cases hnull : v = .null
    · subst hnull
      cases h
      exact SparkType.holds_none _
    by_cases hlist : ∃ xs, v = .list xs
    · obtain ⟨xs, rfl⟩ := hlist
      rw [readCoerce_array] at h
      obtain ⟨ys, hys, h⟩ := bind_ok h
      cases h
      refine ⟨ys, rfl, ?_⟩
      intro y hy
      obtain ⟨x, hx, hread⟩ := mapM_ok_mem hys y hy
      exact ih (fun key sub w items hm => hkeys key sub w items (.element hx hm)) hread
    · have hlist : ∀ xs, v ≠ .list xs := fun xs he => hlist ⟨xs, he⟩
      rw [readCoerce_array_single hnull hlist] at h
      obtain ⟨y, hread, h⟩ := bind_ok h
      cases h
      refine ⟨[y], rfl, ?_⟩
      intro y' hy'
      obtain rfl := List.mem_singleton.mp hy'
      exact ih (fun key sub w items hm => hkeys key sub w items (.single hnull hlist hm)) hread
  | map key value _ ih =>
    rw [sparkTypeToken] at h hkeys
    by_cases hnull : v = .null
    · subst hnull
      cases h
      exact SparkType.holds_none _
    rw [readCoerce_map hnull] at h
    obtain ⟨items, hdict, h⟩ := bind_ok h
    obtain ⟨ys, hys, h⟩ := bind_ok h
    cases h
    refine ⟨ys, rfl, ?_⟩
    intro y hy
    obtain ⟨e, he, hentry⟩ := mapM_ok_mem hys y hy
    obtain ⟨z, hread, hentry⟩ := bind_ok hentry
    cases hentry
    exact ⟨hkeys _ _ _ items .here hdict e he,
      ih (fun key sub w items hm => hkeys key sub w items (.entry hnull hdict he hm)) hread⟩
  | struct fields ih =>
    rw [sparkTypeToken] at h hkeys
    by_cases hnull : v = .null
    · subst hnull
      cases h
      exact SparkType.holds_none _
    rw [readCoerce_struct hnull] at h
    obtain ⟨src, hdict, h⟩ := bind_ok h
    obtain ⟨columns, hcolumns, h⟩ := bind_ok h
    cases h
    obtain ⟨htyped, hnames⟩ := columns_hold hcolumns fun f hf r hr =>
      ih f hf (fun key sub w items hm =>
        hkeys key sub w items (.field hnull hdict (mem_schemaFieldTokens hf) hm)) hr
    refine ⟨_, rfl, ?_, ?_⟩
    · intro e he
      obtain ⟨c, hc, rfl⟩ := List.mem_map.mp he
      obtain ⟨f, hf, hname, hholds⟩ := htyped c (mem_of_mem_dictOf hc)
      exact fieldHolds_iff.mpr ⟨f, hf, congrArg PyKey.str hname, hholds⟩
    · intro name hname
      rw [← hnames] at hname
      obtain ⟨c, hc, rfl⟩ := List.mem_map.mp (key_mem_dictOf hname)
      exact ⟨_, List.mem_map_of_mem hc, rfl⟩

/-- Structs and maps are read from objects only. -/
def ObjectsOnly (token : TypeToken) (v : Json F) : Prop :=
  ∀ inner w, Meets token v inner w → TakesObjects inner → w = .null ∨ IsObject w

def PyKey.IsText (key : PyKey F) : Prop := ∃ s, key = .str s

theorem ObjectsOnly.mapKeys {token : TypeToken} {v : Json F} (h : ObjectsOnly token v) :
    MapKeys PyKey.IsText token v := by
  intro key sub w items hm hdict e he
  rcases h _ w hm trivial with rfl | hobject
  · cases hdict
  · cases w with
    | dict entries =>
      cases hdict
      obtain ⟨entry, -, rfl⟩ := List.mem_map.mp he
      exact ⟨entry.1, rfl⟩
    | _ => exact absurd hobject id

/-- The value that is read for a column: the id where it is asked for and `_source` lacks it. -/
def columnValue (source : List (String × Json F)) (docId : Option String)
    (idField : Option String) (includeId : Bool) (name : String) : Json F :=
  if includeId ∧ idField = some name ∧ source.lookup name = none then
    (docId.map Json.str).getD .null
  else (source.lookup name).getD .null

theorem coerceColumn_eq (source : List (String × Json F)) (docId : Option String)
    (idField : Option String) (includeId : Bool) (name : String) (token : TypeToken) :
    coerceColumn source docId idField includeId name token =
      readCoerce token (columnValue source docId idField includeId name) := by
  rw [coerceColumn, columnValue]
  split <;> rfl

theorem coerceHit_holds {schema : Schema} {source : List (String × Json F)}
    {docId idField : Option String} {includeId : Bool} {row : List (String × PyValue F)}
    (hkeys : ∀ f ∈ schema, MapKeys keys (sparkTypeToken f.2)
      (columnValue source docId idField includeId f.1))
    (h : coerceHit source docId (schemaFieldTokens schema) idField includeId = .ok row) :
    (∀ e ∈ row, ∃ f ∈ schema, e.1 = f.1 ∧ f.2.Holds keys e.2) ∧
      ∀ name ∈ schema.map Prod.fst, name ∈ row.map Prod.fst := by
  rw [coerceHit] at h
  obtain ⟨columns, hcolumns, h⟩ := bind_ok h
  cases h
  obtain ⟨htyped, hnames⟩ := columns_hold hcolumns (by
    intro f hf r hr
    rw [coerceColumn_eq] at hr
    exact readCoerce_holds (hkeys f hf) hr)
  constructor
  · exact fun e he => htyped e (mem_of_mem_dictOf he)
  · exact fun name hname => key_mem_dictOf (hnames ▸ hname)

theorem coerceHit_supported {schema : Schema} {source : List (String × Json F)}
    {docId idField : Option String} {includeId : Bool} {row : List (String × PyValue F)}
    (h : coerceHit source docId (schemaFieldTokens schema) idField includeId = .ok row)
    {f : String × SparkType} (hf : f ∈ schema) (ht : f.2 = .atomic t) :
    ¬Unsupported t.simpleString := by
  rw [coerceHit] at h
  obtain ⟨columns, hcolumns, -⟩ := bind_ok h
  obtain ⟨c, -, hread⟩ := mapM_ok hcolumns _ (mem_schemaFieldTokens hf)
  obtain ⟨r, hr, -⟩ := bind_ok hread
  rw [coerceColumn_eq, ht] at hr
  exact supported_of_readScalar hr

/-- A row that is made of a hit has an entry for each declared column, and each of its values is at
every depth null or what is read for the declared type: the integers fit their width, the instants are
milliseconds of the years 1 to 9999, and, where `_source` has objects in the place of structs and maps,
the keys of the maps are texts. No column is of a type that is refused. -/
theorem hit_row_typed (schema : Schema) (source : List (String × Json F))
    (docId : Option String) (idField : Option String) (includeId : Bool)
    (row : List (String × PyValue F))
    (h : coerceHit source docId (schemaFieldTokens schema) idField includeId = .ok row) :
    (∀ e ∈ row, ∃ f ∈ schema, e.1 = f.1 ∧ f.2.Holds (fun _ => True) e.2) ∧
    ((∀ f ∈ schema, ObjectsOnly (sparkTypeToken f.2)
        (columnValue source docId idField includeId f.1)) →
      ∀ e ∈ row, ∃ f ∈ schema, e.1 = f.1 ∧ f.2.Holds PyKey.IsText e.2) ∧
    (∀ name ∈ schema.map Prod.fst, name ∈ row.map Prod.fst) ∧
    ∀ f ∈ schema, ∀ t, f.2 = .atomic t → ¬Unsupported t.simpleString := by
  obtain ⟨htyped, hnames⟩ := coerceHit_holds (fun f _ => mapKeys_true (sparkTypeToken f.2) _) h
  refine ⟨htyped, fun hobjects => ?_, hnames, fun f hf t ht => coerceHit_supported h hf ht⟩
  exact (coerceHit_holds (fun f hf => (hobjects f hf).mapKeys) h).1

end Values

def visitSchema : Schema :=
  [("n", .atomic .tinyint), ("at", .map (.atomic .string) (.array (.atomic .timestamp)))]

def visitSource : List (String × Json Empty) :=
  [("n", .int 3), ("at", .dict [("a", .list [.int 1000])])]

/-- A number and a map of lists of instants. -/
theorem hit_row_typed_visit :
    ∃ row, coerceHit visitSource none (schemaFieldTokens visitSchema) none true = .ok row ∧
      ∀ e ∈ row, ∃ f ∈ visitSchema, e.1 = f.1 ∧ f.2.Holds (fun _ => True) e.2 := by
  obtain ⟨row, hrow⟩ : ∃ row,
      coerceHit visitSource none (schemaFieldTokens visitSchema) none true = .ok row := ⟨_, rfl⟩
  exact ⟨row, hrow, (hit_row_typed visitSchema visitSource none none true row hrow).1⟩

end EsConnector
