import EsConnector.ReadRules
import EsConnector.SourceColumns
import Mathlib.Data.List.Nodup
import Mathlib.Algebra.Group.Nat.Defs

namespace EsConnector
set_option autoImplicit true

open Calendar

variable {F : Type} [PyFloat F] {r : Resolver}

/-- The atomic types that are written in a form the read can undo. -/
def comesBack : AtomicType → Bool
  | .decimal _ scale => scale == 0
  | .other _ => false
  | _ => true

/-- The values of these types; the temporal ones in the years 1 to 9999. -/
def InRange : AtomicType → SparkValue F → Prop
  | .boolean, .boolean _ => True
  | .tinyint, .integral i => -2 ^ 7 ≤ i ∧ i ≤ 2 ^ 7 - 1
  | .smallint, .integral i => -2 ^ 15 ≤ i ∧ i ≤ 2 ^ 15 - 1
  | .int, .integral i => -2 ^ 31 ≤ i ∧ i ≤ 2 ^ 31 - 1
  | .bigint, .integral i => -2 ^ 63 ≤ i ∧ i ≤ 2 ^ 63 - 1
  | .float, .floating _ => True
  | .double, .floating _ => True
  | .decimal precision 0, .decimal unscaled 0 => unscaled.natAbs < 10 ^ precision
  | .string, .string _ => True
  | .binary, .binary _ => True
  | .date, .date days =>
    datetimeMin ≤ days * microsPerDay ∧ days * microsPerDay ≤ datetimeMax
  | .timestamp, .timestamp micros => datetimeMin ≤ micros ∧ micros ≤ datetimeMax
  | .timestampNtz, .timestampNtz micros => datetimeMin ≤ micros ∧ micros ≤ datetimeMax
  | _, _ => False

/-- The JSON that `to_json` writes a scalar as, where the README says so. -/
def renderScalar : AtomicType → SparkValue F → Option (Json F)
  | .boolean, .boolean b => some (.bool b)
  | .tinyint, .integral i => some (.int i)
  | .smallint, .integral i => some (.int i)
  | .int, .integral i => some (.int i)
  | .bigint, .integral i => some (.int i)
  | .float, .floating x => if nonFinite x then none else some (.float x)
  | .double, .floating x => if nonFinite x then none else some (.float x)
  | .decimal _ 0, .decimal unscaled 0 => some (.int unscaled)
  | .string, .string s => some (.str s)
  | .binary, .binary b => some (.str (String.ofList (Base64.encode b)))
  | _, _ => none

/-- A JSON object, whose keys are distinct. -/
def renderObject (items : List (String × Json F)) : Option (Json F) :=
  if (items.map Prod.fst).Nodup then some (.dict items) else none

/-- The text of a map key, where it is a string. The README leaves the form of the other keys to
`to_json`. -/
def keyText : SparkType → SparkValue F → Option String
  | .atomic .string, .string s => some s
  | _, _ => none

mutual

/-- The JSON that `to_json` writes a value as, where the README says so. -/
def render : SparkType → SparkValue F → Option (Json F)
  | .atomic t, v => if v.isNull then some .null else renderScalar t v
  | .array element, v => match v with
    | .null => some .null
    | .array xs => (xs.mapM (render element)).map Json.list
    | _ => none
  | .map key value, v => match v with
    | .null => some .null
    | .map entries => do
      renderObject (← entries.mapM fun e => do return (← keyText key e.1, ← render value e.2))
    | _ => none
  | .struct fields, v => match v with
    | .null => some .null
    | .struct cells => do renderObject (← renderCells fields cells)
    | _ => none

def renderCells : Schema → List (SparkValue F) → Option (List (String × Json F))
  | [], [] => some []
  | (name, dt) :: fields, v :: cells => do
    return (name, ← render dt v) :: (← renderCells fields cells)
  | _, _ => none

end

/-- A scalar as Python has it. -/
def SparkValue.toPython : SparkValue F → PyValue F
  | .boolean b => .bool b
  | .integral i => .int i
  | .floating x => .float x
  | .decimal unscaled scale => .decimal (.finite (unscaled < 0) unscaled.natAbs (-scale))
  | .string s => .str s
  | .binary b => .bytes b
  | .date days => .date days
  | .timestamp micros => .datetime micros
  | .timestampNtz micros => .naive micros
  | _ => .none

/-- A map key as Python has it, where it is of a kind that JSON has. -/
def SparkValue.toKey : SparkValue F → PyKey F
  | .boolean b => .bool b
  | .integral i => .int i
  | .floating x => .float x
  | .string s => .str s
  | _ => .none

mutual

/-- The value of a Spark cell as Python has it. -/
def toPython : SparkType → SparkValue F → PyValue F
  | .atomic _, v => v.toPython
  | .array element, v => match v with
    | .array xs => .list (xs.map (toPython element))
    | _ => .none
  | .map _ value, v => match v with
    | .map entries => .dict (entries.map fun e => (e.1.toKey, toPython value e.2))
    | _ => .none
  | .struct fields, v => match v with
    | .struct cells => .dict ((toPythonCells fields cells).map fun f => (.str f.1, f.2))
    | _ => .none

def toPythonCells : Schema → List (SparkValue F) → List (String × PyValue F)
  | (name, dt) :: fields, v :: cells => (name, toPython dt v) :: toPythonCells fields cells
  | _, _ => []

end

/-- What a round trip changes: instants lose what is below the millisecond, and a float that is not
finite is lost. -/
def documentedDelta : AtomicType → SparkValue F → SparkValue F
  | .timestamp, .timestamp micros => .timestamp (micros / 1000 * 1000)
  | .timestampNtz, .timestampNtz micros => .timestampNtz (micros / 1000 * 1000)
  | .float, v => v.finiteOrNull
  | .double, v => v.finiteOrNull
  | _, v => v

/-- The type that a leaf is stored with. -/
def storedType (t : AtomicType) : AtomicType := longWhere isDateOrNtz (longWhere isTimestamp t)

/-- The leaf that is stored. -/
def storedLeaf (t : AtomicType) (v : SparkValue F) : SparkValue F :=
  sourceLeaf (longWhere isTimestamp t) (timestampLeaf t v)

section Scalars

theorem supported_of_comesBack {t : AtomicType} (ht : comesBack t = true) :
    ¬Unsupported t.simpleString :=
  supported_of_named fun name h => by
    subst h
    cases ht

theorem readScalar_of_present {t : AtomicType} (ht : comesBack t = true) {value : Json F}
    {out : PyValue F} (hvalue : value ≠ .null)
    (h : readPresent (stripLower t.simpleString) t.simpleString value = .ok out) :
    readScalar t.simpleString value = .ok out :=
  (readScalar_present (supported_of_comesBack ht) hvalue).trans h

theorem coerceInt_int {lo hi i : Int} (target : String) (h : lo ≤ i ∧ i ≤ hi) :
    coerceInt lo hi target (.int i : Json F) = .ok i := by
  simp [coerceInt, pyInt, h, pure, Except.pure]

theorem epochMillis_ok {micros : Int} (h : datetimeMin ≤ micros ∧ micros ≤ datetimeMax) :
    epochMillisToDatetime (.int (micros / 1000) : Json F) = .ok (micros / 1000 * 1000) := by
  have hrange : datetimeMin ≤ micros / 1000 * 1000 ∧ micros / 1000 * 1000 ≤ datetimeMax := by
    unfold datetimeMin datetimeMax at *
    omega
  simp [epochMillisToDatetime, pyInt, hrange, pure, Except.pure]

theorem epochMillisToDate_ok {days : Int}
    (h : datetimeMin ≤ days * microsPerDay ∧ days * microsPerDay ≤ datetimeMax) :
    epochMillisToDate (.int (days * 86400000) : Json F) = .ok days := by
  have hmillis : days * 86400000 = days * microsPerDay / 1000 := by
    rw [microsPerDay]
    omega
  have hwhole : days * microsPerDay / 1000 * 1000 / microsPerDay = days := by
    rw [microsPerDay]
    omega
  rw [epochMillisToDate, hmillis, epochMillis_ok h, ok_bind, hwhole]
  rfl

omit [PyFloat F] in
theorem b64decode_encode (b : List UInt8) :
    b64decode (.str (String.ofList (Base64.encode b)) : Json F) = .ok b := by
  have hascii : (Base64.encode b).all (fun c => c.toNat < 128) = true := by
    simpa using Base64.encode_ascii b
  simp [b64decode, hascii, Base64.decode_encode]

theorem storedLeaf_null (t : AtomicType) : storedLeaf t (.null : SparkValue F) = .null := by
  cases t <;> rfl

theorem documentedDelta_null (t : AtomicType) : documentedDelta t (.null : SparkValue F) = .null := by
  cases t <;> rfl

theorem readPresent_int {target : String} {lo hi i : Int}
    (hwidth : intWidthBounds.lookup target = some (lo, hi)) (h : lo ≤ i ∧ i ≤ hi) :
    readPresent target target (.int i : Json F) = .ok (.int i) := by
  rw [readPresent_width hwidth, coerceInt_int target h]
  rfl

/-- What is stored of a leaf is read as what the documentation says. -/
def LeafComesBack (t : AtomicType) (v : SparkValue F) : Prop :=
  ∃ j, render (.atomic (storedType t)) (storedLeaf t v) = some j ∧
    readScalar t.simpleString j = .ok (documentedDelta t v).toPython

theorem LeafComesBack.of_present {t : AtomicType} {v : SparkValue F} {value : Json F}
    (ht : comesBack t = true)
    (hrender : render (.atomic (storedType t)) (storedLeaf t v) = some value) (hsome : value ≠ .null)
    (hread : readPresent (stripLower t.simpleString) t.simpleString value =
      .ok (documentedDelta t v).toPython) : LeafComesBack t v :=
  ⟨value, hrender, readScalar_of_present ht hsome hread⟩

theorem leafComesBack_null {t : AtomicType} (ht : comesBack t = true) :
    LeafComesBack t (.null : SparkValue F) := by
  rw [LeafComesBack, storedLeaf_null, documentedDelta_null]
  exact ⟨.null, rfl, readScalar_null (supported_of_comesBack ht)⟩

theorem leafComesBack_floating {t : AtomicType} (ht : t = .float ∨ t = .double) (x : F) :
    LeafComesBack t (.floating x) := by
  have hcomes : comesBack t = true := by rcases ht with rfl | rfl <;> rfl
  have hstored : render (.atomic (storedType t)) (storedLeaf t (.floating x)) =
      render (.atomic t) (SparkValue.floating x).finiteOrNull := by
    rcases ht with rfl | rfl <;> rfl
  have hdelta : documentedDelta t (.floating x) = (SparkValue.floating x).finiteOrNull := by
    rcases ht with rfl | rfl <;> rfl
  rw [LeafComesBack, hstored, hdelta, SparkValue.finiteOrNull]
  by_cases hx : nonFinite x = true
  · rw [if_pos hx]
    exact ⟨.null, rfl, readScalar_null (supported_of_comesBack hcomes)⟩
  · rw [if_neg hx]
    refine ⟨.float x, ?_, readScalar_of_present hcomes (by simp) ?_⟩
    · rcases ht with rfl | rfl <;> exact if_neg hx
    · rcases ht with rfl | rfl <;> rfl

theorem leafComesBack_decimal (precision : Nat) (unscaled : Int) :
    LeafComesBack (F := F) (.decimal precision 0) (.decimal unscaled 0) := by
  obtain ⟨rest, hrest⟩ := stripLower_decimal precision 0
  exact .of_present rfl rfl nofun (readPresent_decimal ⟨rest, hrest.symm⟩)

theorem leafComesBack_binary (b : List UInt8) : LeafComesBack (F := F) .binary (.binary b) := by
  refine .of_present rfl rfl nofun (readPresent_binary.trans ?_)
  rw [b64decode_encode]
  rfl

theorem leafComesBack_date {days : Int} (h : InRange (F := F) .date (.date days)) :
    LeafComesBack (F := F) .date (.date days) := by
  refine .of_present rfl rfl nofun (readPresent_date.trans ?_)
  rw [epochMillisToDate_ok h]
  rfl

theorem leafComesBack_timestamp {micros : Int} (h : InRange (F := F) .timestamp (.timestamp micros)) :
    LeafComesBack (F := F) .timestamp (.timestamp micros) := by
  refine .of_present rfl rfl nofun (readPresent_timestamp.trans ?_)
  rw [epochMillis_ok h]
  rfl

theorem leafComesBack_timestampNtz {micros : Int}
    (h : InRange (F := F) .timestampNtz (.timestampNtz micros)) :
    LeafComesBack (F := F) .timestampNtz (.timestampNtz micros) := by
  refine .of_present rfl rfl nofun (readPresent_timestampNtz.trans ?_)
  rw [epochMillisToNaiveDatetime, epochMillis_ok h]
  rfl

/-- A leaf is read back as it was, up to the documented deltas. -/
theorem leafComesBack_of_inRange {t : AtomicType} (ht : comesBack t = true) {v : SparkValue F}
    (hv : InRange t v) : LeafComesBack t v := by
  cases t with
  | boolean =>
    cases v with
    | boolean b => exact .of_present rfl rfl nofun readPresent_boolean
    | _ => cases hv
  | tinyint | smallint | int | bigint =>
    cases v with
    | integral i => exact .of_present rfl rfl nofun (readPresent_int rfl hv)
    | _ => cases hv
  | float =>
    cases v with
    | floating x => exact leafComesBack_floating (.inl rfl) x
    | _ => cases hv
  | double =>
    cases v with
    | floating x => exact leafComesBack_floating (.inr rfl) x
    | _ => cases hv
  | decimal precision scale =>
    obtain rfl : scale = 0 := by simpa [comesBack] using ht
    cases v with
    | decimal unscaled scale =>
      cases scale with
      | zero => exact leafComesBack_decimal precision unscaled
      | succ scale => cases hv
    | _ => cases hv
  | string =>
    cases v with
    | string s => exact .of_present rfl rfl nofun readPresent_string
    | _ => cases hv
  | binary =>
    cases v with
    | binary b => exact leafComesBack_binary b
    | _ => cases hv
  | date =>
    cases v with
    | date days => exact leafComesBack_date hv
    | _ => cases hv
  | timestamp =>
    cases v with
    | timestamp micros => exact leafComesBack_timestamp hv
    | _ => cases hv
  | timestampNtz =>
    cases v with
    | timestampNtz micros => exact leafComesBack_timestampNtz hv
    | _ => cases hv
  | other name => cases ht

end Scalars

/-- A type whose values come back. -/
def ComesBack (dt : SparkType) : Prop := typeHas (fun t => !comesBack t) true dt = false

instance (dt : SparkType) : Decidable (ComesBack dt) := inferInstanceAs (Decidable (_ = false))

theorem mapM_round_trip {α β γ ε δ : Type} {p : β → Option γ} {r : γ → Except ε δ}
    {f : α → β} {g : α → δ} {l : List α}
    (h : ∀ x ∈ l, ∃ j, p (f x) = some j ∧ r j = .ok (g x)) :
    ∃ js, (l.map f).mapM p = some js ∧ js.mapM r = .ok (l.map g) := by
  induction l with
  | nil => exact ⟨[], rfl, rfl⟩
  | cons x l ih =>
    obtain ⟨j, hj, hread⟩ := h x List.mem_cons_self
    obtain ⟨js, hjs, hreads⟩ := ih fun x hx => h x (List.mem_cons_of_mem _ hx)
    refine ⟨j :: js, ?_, ?_⟩
    · rw [List.map_cons, List.mapM_cons, hj, hjs]
      rfl
    · rw [List.mapM_cons, hread, hreads]
      rfl

theorem lookup_str (items : List (String × Json F)) (name : String) :
    (items.map fun (k, v) => ((.str k : PyKey F), v)).lookup (.str name) = items.lookup name := by
  induction items with
  | nil => rfl
  | cons e items ih =>
    rw [List.map_cons, List.lookup_cons, List.lookup_cons, PyKey.str_beq, ih]

theorem lookup_of_mem {items : List (String × α)} (hnodup : (items.map Prod.fst).Nodup)
    {e : String × α} (he : e ∈ items) : items.lookup e.1 = some e.2 := by
  obtain ⟨before, after, rfl⟩ := List.append_of_mem he
  refine List.lookup_eq_some_iff.mpr ⟨before, after, rfl, fun p hp => bne_iff_ne.mpr fun hsame => ?_⟩
  rw [List.map_append, List.map_cons] at hnodup
  exact (List.nodup_append.mp hnodup).2.2 p.1 (List.mem_map_of_mem hp) e.1 List.mem_cons_self
    hsame.symm

theorem readCoerce_map_dict (key value : TypeToken) (items : List (String × Json F)) :
    readCoerce (.map key value) (.dict items) = (do
      let items ← items.mapM fun e => do
        return ((.str e.1 : PyKey F), ← readCoerce value e.2)
      return .dict items) := by
  rw [readCoerce_map (show Json.dict items ≠ .null from nofun), pyDict, ok_bind, List.mapM_map]
  rfl

theorem readCoerce_struct_dict (fields : List (String × TypeToken)) (items : List (String × Json F)) :
    readCoerce (.struct fields) (.dict items) = (do
      let columns ← fields.mapM fun f => do
        return (f.1, ← readCoerce f.2 ((items.lookup f.1).getD .null))
      return .dict ((dictOf columns).map fun f => (.str f.1, f.2))) := by
  rw [readCoerce_struct (show Json.dict items ≠ .null from nofun), pyDict, ok_bind]
  simp only [lookup_str]

/-- A value is written as JSON that is read back as the value, up to the documented deltas. -/
def ComesBackFrom (dt : SparkType) (v : SparkValue F) : Prop :=
  ∃ j, render (mapTypes storedType dt) (mapLeaves storedLeaf dt v) = some j ∧
    readCoerce (sparkTypeToken dt) j = .ok (toPython dt (mapLeaves documentedDelta dt v))

theorem cells_come_back {fields : Schema} {cells : List (SparkValue F)}
    (htyped : CellsTyped InRange fields cells)
    (h : ∀ f ∈ fields, ∀ v : SparkValue F, Typed InRange f.2 v → ComesBackFrom f.2 v) :
    ∃ items, renderCells (mapFields storedType fields) (mapCells storedLeaf fields cells) =
        some items ∧
      items.map Prod.fst = fields.map Prod.fst ∧
      ∀ column : String → TypeToken → Except (PyError F) (PyValue F),
        (∀ e ∈ items, ∀ token, column e.1 token = readCoerce token e.2) →
        ((schemaFieldTokens fields).mapM fun f => do return (f.1, ← column f.1 f.2)) =
          .ok (toPythonCells fields (mapCells documentedDelta fields cells)) := by
  induction fields generalizing cells with
  | nil =>
    obtain rfl : cells = [] := htyped
    exact ⟨[], rfl, rfl, fun column _ => rfl⟩
  | cons f fields ih =>
    obtain ⟨v, rest, rfl, hv, hrest⟩ := htyped
    obtain ⟨j, hj, hread⟩ := h f List.mem_cons_self v hv
    obtain ⟨items, hitems, hnames, hreads⟩ := ih hrest fun f hf => h f (List.mem_cons_of_mem _ hf)
    refine ⟨(f.1, j) :: items, ?_, ?_, ?_⟩
    · rw [mapFields, mapCells, renderCells, hj, hitems]
      rfl
    · rw [List.map_cons, hnames, List.map_cons]
    · intro column hcolumn
      have hfirst := hcolumn (f.1, j) List.mem_cons_self (sparkTypeToken f.2)
      rw [schemaFieldTokens, List.mapM_cons, hfirst, hread,
        hreads column fun e he => hcolumn e (List.mem_cons_of_mem _ he)]
      rfl

omit [PyFloat F] in
theorem keyText_some {key : SparkType} {v : SparkValue F} {s : String} (h : keyText key v = some s) :
    v = .string s := by
  unfold keyText at h
  split at h
  · cases h
    rfl
  · cases h

omit [PyFloat F] in
theorem keys_of_mapM {β : Type} {key : SparkType} {value : SparkValue F → Option β}
    {entries : List (SparkValue F × SparkValue F)} {items : List (String × β)}
    (h : entries.mapM (fun e => do return (← keyText key e.1, ← value e.2)) = some items) :
    (items.map Prod.fst).map SparkValue.string = entries.map Prod.fst := by
  induction entries generalizing items with
  | nil =>
    cases h
    rfl
  | cons e entries ih =>
    rw [List.mapM_cons] at h
    obtain ⟨item, hitem, h⟩ := Option.bind_eq_some_iff.mp h
    obtain ⟨rest, hrest, h⟩ := Option.bind_eq_some_iff.mp h
    obtain ⟨text, htext, hitem⟩ := Option.bind_eq_some_iff.mp hitem
    obtain ⟨y, -, hitem⟩ := Option.bind_eq_some_iff.mp hitem
    cases hitem
    cases h
    rw [List.map_cons, List.map_cons, List.map_cons, ih hrest, keyText_some htext]

omit [PyFloat F] in
theorem string_of_typed {v : SparkValue F} (hnull : v ≠ .null)
    (h : Typed InRange (.atomic .string) v) : ∃ s, v = .string s := by
  have hrange : InRange .string v := h.resolve_left hnull
  cases v with
  | string s => exact ⟨s, rfl⟩
  | _ => cases hrange

omit [PyFloat F] in
theorem toPythonCells_names {fields : Schema} {cells : List (SparkValue F)}
    (h : CellsTyped P fields cells) (f : AtomicType → SparkValue F → SparkValue F) :
    (toPythonCells fields (mapCells f fields cells)).map Prod.fst = fields.map Prod.fst := by
  induction fields generalizing cells with
  | nil => rfl
  | cons fd fields ih =>
    obtain ⟨v, rest, rfl, -, hrest⟩ := h
    rw [mapCells, toPythonCells, List.map_cons, ih hrest, List.map_cons]

/-- Write then read is the identity up to the documented deltas, at every depth. -/
theorem value_comes_back {dt : SparkType} (hplain : Plain r dt) (hback : ComesBack dt)
    {v : SparkValue F} (hv : Typed InRange dt v) : ComesBackFrom dt v := by
  induction dt generalizing v with
  | atomic t =>
    have ht : comesBack t = true := by simpa [ComesBack, typeHas] using hback
    obtain ⟨j, hj, hread⟩ : LeafComesBack t v := by
      rcases hv with rfl | hv
      · exact leafComesBack_null ht
      · exact leafComesBack_of_inRange ht hv
    exact ⟨j, hj, by rw [sparkTypeToken, readCoerce, hread, mapLeaves, toPython]⟩
  | array element ih =>
    rcases hv with rfl | ⟨xs, rfl, hxs⟩
    · exact ⟨.null, rfl, rfl⟩
    · obtain ⟨js, hjs, hreads⟩ := mapM_round_trip (f := mapLeaves storedLeaf element)
        (g := fun x => toPython element (mapLeaves documentedDelta element x))
        fun x hx => ih hplain hback (hxs x hx)
      refine ⟨.list js, ?_, ?_⟩
      · rw [mapTypes, mapLeaves, SparkValue.mapArray_array, render]
        simp only [hjs, Option.map_some]
      · rw [sparkTypeToken, readCoerce_array, hreads, mapLeaves, SparkValue.mapArray_array, toPython,
          List.map_map]
        rfl
  | map key value _ ih =>
    obtain ⟨rfl, hvalue⟩ := hplain
    rcases hv with rfl | ⟨entries, rfl, hnodup, hentries⟩
    · exact ⟨.null, rfl, rfl⟩
    · obtain ⟨items, hitems, hreads⟩ := mapM_round_trip
        (f := fun e => (e.1, mapLeaves storedLeaf value e.2))
        (p := fun e => do
          return (← keyText (.atomic .string) e.1, ← render (mapTypes storedType value) e.2))
        (r := fun e : String × Json F => do
          return ((.str e.1 : PyKey F), ← readCoerce (sparkTypeToken value) e.2))
        (g := fun e => (e.1.toKey, toPython value (mapLeaves documentedDelta value e.2)))
        (l := entries) fun e he => by
          obtain ⟨hnull, hkey, hv⟩ := hentries e he
          obtain ⟨s, hs⟩ := string_of_typed hnull hkey
          obtain ⟨j, hj, hread⟩ := ih hvalue hback hv
          exact ⟨(s, j), by rw [hs, hj]; rfl, by rw [hs, hread]; rfl⟩
      have hkeys : (items.map Prod.fst).Nodup := by
        apply List.Nodup.of_map SparkValue.string
        rw [keys_of_mapM hitems, List.map_map]
        exact hnodup
      refine ⟨.dict items, ?_, ?_⟩
      · rw [mapTypes, mapLeaves, SparkValue.mapValues_map, render]
        exact Option.bind_eq_some_iff.mpr ⟨items, hitems, if_pos hkeys⟩
      · rw [sparkTypeToken, readCoerce_map_dict, hreads, mapLeaves, SparkValue.mapValues_map, toPython,
          List.map_map]
        rfl
  | struct fields ih =>
    obtain ⟨hapart, hfields⟩ := hplain
    rcases hv with rfl | ⟨cells, rfl, hcells⟩
    · exact ⟨.null, rfl, rfl⟩
    · have hbacks := fieldsHave_eq_false.mp hback
      obtain ⟨items, hitems, hnames, hreads⟩ := cells_come_back hcells fun f hf v hv =>
        ih f hf (plainFields_iff.mp hfields f hf) (hbacks f hf) hv
      have hnodup : (items.map Prod.fst).Nodup := hnames ▸ hapart.nodup
      have hread := hreads (fun name token => readCoerce token ((items.lookup name).getD .null))
        fun e he token => by rw [lookup_of_mem hnodup he]; rfl
      refine ⟨.dict items, ?_, ?_⟩
      · rw [mapTypes, mapLeaves, render]
        simp only [hitems, Option.bind_eq_bind, Option.bind_some, renderObject, if_pos hnodup]
      · have hsame := dictOf_eq_self ((toPythonCells_names hcells documentedDelta).symm ▸ hapart.nodup)
        rw [sparkTypeToken, readCoerce_struct_dict, hread, ok_bind, mapLeaves, toPython, hsame]
        rfl

/-- `to_json` writes a struct as the README has it, where the README says how, and the JSON parser
restores what was written. -/
def RestoresJson (J : SparkFunctions F) (parse : String → Option (Json F)) : Prop :=
  ∀ fields cells j, render (.struct fields) (.struct cells) = some j →
    parse (J.toJson (.struct fields) (.struct cells)) = some j

/-- The expression that `build_ndjson` puts on the `_source` line. -/
def sourceLine (J : SparkFunctions F) (r : Resolver) (cfg : EsWriteConfig) (schema : Schema) :
    Except AnalysisException (Column F) := do
  (← sourceStruct r cfg schema).toJson J

/-- What `_coerce_hit` gives for a stored row, however the id is asked for. -/
def ReadsBackAs (parse : String → Option (Json F)) (tokens : List (String × TypeToken))
    (source : SparkValue F) (expected : List (String × PyValue F)) : Prop :=
  ∃ text items, source = .string text ∧ parse text = some (.dict items) ∧
    ∀ docId idField includeId, coerceHit items docId tokens idField includeId = .ok expected

theorem coerceColumn_present {items : List (String × Json F)} {e : String × Json F}
    (he : items.lookup e.1 = some e.2) (docId idField : Option String) (includeId : Bool)
    (token : TypeToken) :
    coerceColumn items docId idField includeId e.1 token = readCoerce token e.2 := by
  rw [coerceColumn, he, if_neg (by simp)]
  rfl

theorem row_comes_back {J : SparkFunctions F} {parse : String → Option (Json F)}
    (hjson : RestoresJson J parse) {fields : Schema} (hapart : NamesApart r fields)
    (hplain : ∀ f ∈ fields, Plain r f.2) (hback : ∀ f ∈ fields, ComesBack f.2)
    {cells : List (SparkValue F)} (hcells : CellsTyped InRange fields cells) :
    ReadsBackAs parse (schemaFieldTokens fields)
      (.string (J.toJson (.struct (mapFields storedType fields))
        (.struct (mapCells storedLeaf fields cells))))
      (toPythonCells fields (mapCells documentedDelta fields cells)) := by
  obtain ⟨items, hitems, hnames, hreads⟩ := cells_come_back hcells fun f hf v hv =>
    value_comes_back (hplain f hf) (hback f hf) hv
  have hnodup : (items.map Prod.fst).Nodup := hnames ▸ hapart.nodup
  refine ⟨_, items, rfl, hjson _ _ _ ?_, ?_⟩
  · simp only [render, hitems, Option.bind_eq_bind, Option.bind_some, renderObject, if_pos hnodup]
  · intro docId idField includeId
    have hread := hreads (coerceColumn items docId idField includeId) fun e he token =>
      coerceColumn_present (lookup_of_mem hnodup he) docId idField includeId token
    rw [coerceHit, hread, ok_bind,
      dictOf_eq_self ((toPythonCells_names hcells documentedDelta).symm ▸ hapart.nodup)]
    rfl

theorem storedCells_eq (fields : Schema) (cells : List (SparkValue F)) :
    mapCells sourceLeaf (mapFields (longWhere isTimestamp) fields)
      (mapCells timestampLeaf fields cells) = mapCells storedLeaf fields cells :=
  mapCells_mapCells _ _ _ fields cells

/-- Reading back what was written gives the rows that were written, up to the documented deltas. -/
theorem write_then_read {J : SparkFunctions F} {parse : String → Option (Json F)}
    (hjson : RestoresJson J parse) (cfg : EsWriteConfig) {schema : Schema}
    (hs : PlainSchema r schema) (hback : ∀ f ∈ schema, ComesBack f.2) {rows : List (Row F)}
    (hrows : ∀ row ∈ rows, CellsTyped InRange schema row) :
    ∃ out source, normalizeTimestampsForUtc r ⟨schema, rows⟩ = .ok out ∧
      sourceLine J r cfg out.schema = .ok source ∧
      List.Forall₂ (fun row stored => ReadsBackAs parse (schemaFieldTokens (keptFields cfg schema))
        (source.eval stored) (toPythonCells (keptFields cfg schema)
          (mapCells documentedDelta (keptFields cfg schema) (keptCells cfg schema row))))
        rows out.rows := by
  have hnormalized := normalizeTimestamps_of_plain hs fun row hrow => (hrows row hrow).shaped
  obtain ⟨source, hsource, htype, heval⟩ := sourceStruct_of_plain (F := F)
    (hs.mapFields (longWhere isTimestamp)) cfg
  obtain ⟨line, hline, -, htext⟩ := Column.toJson_struct J htype
  refine ⟨_, line, hnormalized, ?_, ?_⟩
  · rw [sourceLine, hsource]
    exact hline
  · refine List.forall₂_map_right_iff.mpr (List.forall₂_same.mpr fun row hrow => ?_)
    have hkept := (hrows row hrow).kept cfg
    have hcells := heval (mapCells timestampLeaf schema row)
      ((hrows row hrow).shaped.mapCells (longWhere isTimestamp) timestampLeaf)
    rw [keptFields_mapFields, keptCells_mapCells, storedCells_eq] at hcells
    rw [htext _ _ hcells, keptFields_mapFields, mapFields_mapFields]
    have hmem {f : String × SparkType} (hf : f ∈ keptFields cfg schema) : f ∈ schema :=
      (List.mem_filter.mp hf).1
    exact row_comes_back hjson (hs.apart.filter _) (fun f hf => hs.types f (hmem hf))
      (fun f hf => hback f (hmem hf)) hkept

section Example

/-- `to_json` as a printer of JSON. -/
def jsonFunctions (F : Type) [PyFloat F] [Json.FloatText F] : SparkFunctions F where
  toJson dt v := String.ofList (((render dt v).map Json.print).getD [])
  toJsonNoOptions dt v := String.ofList (((render dt v).map Json.print).getD [])
  castString _ v := match v with
    | .string s => s
    | .integral i => toString i
    | _ => ""
  equalsTrue _ := none

def parseJson {F : Type} [Json.FloatText F] (text : String) : Option (Json F) :=
  Json.parse text.toList

theorem restoresJson (F : Type) [PyFloat F] [Json.FloatText F] :
    RestoresJson (jsonFunctions F) parseJson := by
  intro fields cells j hj
  simp only [parseJson, jsonFunctions, hj, Option.map_some, Option.getD_some, String.toList_ofList,
    Json.parse_print]

def eventSchema : Schema :=
  [("at", .struct [("start", .atomic .timestamp), ("day", .atomic .date)]),
    ("level", .array (.atomic .double)), ("key", .atomic .binary)]

/-- One microsecond before the epoch, on the day before it. -/
def eventRow : Row FewFloats :=
  [.struct [.timestamp (-1), .date (-1)], .array [.floating .half, .floating .nan, .null],
    .binary [1, 2]]

def eventConfig : EsWriteConfig := { hosts := "https://es:9200", apiKey := some "key", index := "events" }

theorem eventSchema_plain : PlainSchema .caseSensitive eventSchema where
  names := by decide
  apart := by decide
  types := by
    simp [eventSchema, Plain, PlainFields, NamesApart, Resolver.caseSensitive]

theorem eventRow_typed : CellsTyped InRange eventSchema eventRow := by
  simp [eventSchema, eventRow, CellsTyped, Typed, InRange, datetimeMin, datetimeMax, microsPerDay]

theorem write_then_read_before_epoch :
    ∃ out source stored,
      normalizeTimestampsForUtc .caseSensitive ⟨eventSchema, [eventRow]⟩ = .ok out ∧
      sourceLine (jsonFunctions FewFloats) .caseSensitive eventConfig out.schema = .ok source ∧
      out.rows = [stored] ∧ ReadsBackAs parseJson (schemaFieldTokens eventSchema) (source.eval stored)
        [("at", .dict [(.str "start", .datetime (-1000)), (.str "day", .date (-1))]),
          ("level", .list [.float .half, .none, .none]), ("key", .bytes [1, 2])] := by
  obtain ⟨out, source, hnormalized, hsource, hrows⟩ := write_then_read (restoresJson FewFloats)
    eventConfig eventSchema_plain (by decide) (List.forall_mem_singleton.mpr eventRow_typed)
  obtain ⟨stored, rest, hread, hrest, hout⟩ := List.forall₂_cons_left_iff.mp hrows
  obtain rfl := List.forall₂_nil_left_iff.mp hrest
  exact ⟨out, source, stored, hnormalized, hsource, hout, hread⟩

end Example

end EsConnector
