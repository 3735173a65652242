import EsConnector.Calendar
import EsConnector.PyValue

namespace EsConnector
set_option autoImplicit true

open Calendar

/-- A value of a Spark type. Dates are in days and timestamps in microseconds since the epoch; the
cells of a struct are in the order of its fields. -/
inductive SparkValue (F : Type) where
  | null
  | boolean (b : Bool)
  | integral (i : Int)
  | floating (x : F)
  | decimal (unscaled : Int) (scale : Nat)
  | string (s : String)
  | binary (b : List UInt8)
  | date (days : Int)
  | timestamp (micros : Int)
  | timestampNtz (micros : Int)
  | other (text : String)
  | array (xs : List (SparkValue F))
  | map (entries : List (SparkValue F × SparkValue F))
  | struct (cells : List (SparkValue F))

/-- The cells of a row, in the order of its columns. -/
abbrev Row (F : Type) : Type := List (SparkValue F)

structure DataFrame (F : Type) where
  schema : Schema
  rows : List (Row F)

def DataFrame.columns (df : DataFrame F) : List String := df.schema.map Prod.fst

def tick : Char := Char.ofNat 96

/-- A name that `F.col` does not split. -/
def Unmarked (name : String) : Prop := ∀ c ∈ name.toList, c ≠ '.' ∧ c ≠ tick

instance (name : String) : Decidable (Unmarked name) :=
  inferInstanceAs (Decidable (∀ c ∈ name.toList, _))

/-- Spark's comparison of names, which compares character by character and usually ignores case. A
dot and a backtick are like themselves only. -/
structure Resolver where
  same : String → String → Bool
  refl : ∀ a, same a a = true
  length_eq : ∀ a b, same a b = true → a.length = b.length
  unmarked : ∀ a b, same a b = true → (Unmarked a ↔ Unmarked b)

/-- `spark.sql.caseSensitive`. -/
def Resolver.caseSensitive : Resolver where
  same a b := a = b
  refl a := decide_eq_true rfl
  length_eq a b h := by rw [of_decide_eq_true h]
  unmarked a b h := by rw [of_decide_eq_true h]

/-- What Spark's analyzer rejects. -/
inductive AnalysisException where
  | attributeNameSyntax (name : String)
  | invalidStar (name : String)
  | unresolvedColumn (name : String)
  | ambiguousReference (name : String)
  | fieldNotFound (name : String)
  | ambiguousField (name : String)
  | dataTypeMismatch (function : String) (found : SparkType)
  | incompatibleBranches (value other : SparkType)

/-- What is left to Spark: the text of a value as JSON (with `ignoreNullFields` off, and without
options) and as a string, and the comparison of a value that is not boolean with `true`, where there
is one. -/
structure SparkFunctions (F : Type) where
  toJson : SparkType → SparkValue F → String
  toJsonNoOptions : SparkType → SparkValue F → String
  castString : SparkType → SparkValue F → String
  equalsTrue : SparkType → Option (SparkValue F → Option Bool)

/-- A Spark `Column`: its type, and its value in a row. -/
structure Column (F : Type) where
  dataType : SparkType
  eval : Row F → SparkValue F

/-- `UnresolvedAttribute.parseAttributeName`: a name is split at the dots outside backticks. -/
def attributeParts (part : List Char) (quoted : Bool) : List Char → Option (List String)
  | [] => if quoted then none else some [String.ofList part]
  | c :: rest =>
    if quoted then
      if c = tick then
        match rest with
        | [] => some [String.ofList part]
        | d :: rest =>
          if d = tick then attributeParts (part ++ [tick]) true rest
          else if d = '.' ∧ rest ≠ [] then
            (attributeParts [] false rest).map (String.ofList part :: ·)
          else none
      else attributeParts (part ++ [c]) true rest
    else if c = tick then
      if part = [] then attributeParts [] true rest else none
    else if c = '.' then
      if part = [] ∨ rest = [] then none
      else (attributeParts [] false rest).map (String.ofList part :: ·)
    else attributeParts (part ++ [c]) false rest

/-- The fields that a name may mean, with their positions. -/
def Resolver.candidates (r : Resolver) (fields : Schema) (name : String) :
    List ((String × SparkType) × Nat) :=
  fields.zipIdx.filter fun f => r.same f.1.1 name

def SparkValue.cell (i : Nat) : SparkValue F → SparkValue F
  | .struct cells => cells.getD i .null
  | _ => .null

def SparkValue.mapArray (f : SparkValue F → SparkValue F) : SparkValue F → SparkValue F
  | .array xs => .array (xs.map f)
  | _ => .null

def SparkValue.mapValues (f : SparkValue F → SparkValue F) : SparkValue F → SparkValue F
  | .map entries => .map (entries.map fun e => (e.1, f e.2))
  | _ => .null

@[simp] theorem SparkValue.mapArray_null (f : SparkValue F → SparkValue F) :
    mapArray f .null = .null := rfl

@[simp] theorem SparkValue.mapArray_array (f : SparkValue F → SparkValue F) (xs : List (SparkValue F)) :
    mapArray f (.array xs) = .array (xs.map f) := rfl

@[simp] theorem SparkValue.mapValues_null (f : SparkValue F → SparkValue F) :
    mapValues f .null = .null := rfl

@[simp] theorem SparkValue.mapValues_map (f : SparkValue F → SparkValue F)
    (entries : List (SparkValue F × SparkValue F)) :
    mapValues f (.map entries) = .map (entries.map fun e => (e.1, f e.2)) := rfl

/-- The value at a string key. -/
def SparkValue.valueAt (name : String) : SparkValue F → SparkValue F
  | .map entries =>
    ((entries.find? fun e => match e.1 with
      | .string key => key = name
      | _ => false).map Prod.snd).getD .null
  | _ => .null

/-- The milliseconds of a timestamp since the epoch, rounded down. -/
def SparkValue.unixMillis : SparkValue F → SparkValue F
  | .timestamp micros => .integral (micros / 1000)
  | _ => .null

def SparkValue.unixDate : SparkValue F → SparkValue F
  | .date days => .integral days
  | _ => .null

def SparkValue.mulLong : SparkValue F → SparkValue F → SparkValue F
  | .integral i, .integral j => .integral (i * j)
  | _, _ => .null

/-- A field of a wall clock. -/
def SparkValue.clockField (field : WallClock → Int) : SparkValue F → SparkValue F
  | .timestampNtz micros => .integral (field (.ofMicros micros))
  | _ => .null

/-- The timestamp that shows a wall clock in UTC; null for a clock that does not exist. -/
def makeTimestampUtc (w : WallClock) : SparkValue F :=
  if WallClock.ofMicros w.toMicros = w then .timestamp w.toMicros else .null

def nonFinite [PyFloat F] (x : F) : Bool :=
  PyFloat.isNan x || PyFloat.isPosInf x || PyFloat.isNegInf x

def SparkValue.isNonFinite [PyFloat F] : SparkValue F → SparkValue F
  | .floating x => .boolean (nonFinite x)
  | _ => .null

def SparkValue.isNull : SparkValue F → Bool
  | .null => true
  | _ => false

def SparkValue.isTrue : SparkValue F → Bool
  | .boolean b => b
  | _ => false

namespace Column

variable (r : Resolver)

/-- The field of a struct type that a name means. -/
def fieldOf (fields : Schema) (name : String) : Except AnalysisException (Nat × SparkType) :=
  match r.candidates fields name with
  | [] => .error (.fieldNotFound name)
  | [(f, i)] => .ok (i, f.2)
  | _ => .error (.ambiguousField name)

/-- `col[name]`. -/
def getItem (c : Column F) (name : String) : Except AnalysisException (Column F) :=
  match c.dataType with
  | .struct fields => do
    let (i, dt) ← fieldOf r fields name
    return ⟨dt, fun row => (c.eval row).cell i⟩
  | .array (.struct fields) => do
    let (i, dt) ← fieldOf r fields name
    return ⟨.array dt, fun row => (c.eval row).mapArray (SparkValue.cell i)⟩
  | .map (.atomic .string) value => .ok ⟨value, fun row => (c.eval row).valueAt name⟩
  | dt => .error (.dataTypeMismatch "getItem" dt)

/-- The column that the first part of a name means. -/
def topLevel (schema : Schema) (name part : String) : Except AnalysisException (Column F) :=
  match r.candidates schema part with
  | [] => .error (.unresolvedColumn name)
  | [(f, i)] => .ok ⟨f.2, fun row => row.getD i .null⟩
  | _ => .error (.ambiguousReference name)

/-- `F.col(name)`, in a frame that has no alias. -/
def col (schema : Schema) (name : String) : Except AnalysisException (Column F) :=
  if name.toList = ['*'] ∨ ['.', '*'] <:+ name.toList then .error (.invalidStar name)
  else match attributeParts [] false name.toList with
  | some (part :: nested) => do nested.foldlM (getItem r) (← topLevel r schema name part)
  | _ => .error (.attributeNameSyntax name)

/-- `F.lit`. -/
def litString (s : String) : Column F := ⟨.atomic .string, fun _ => .string s⟩

def litInt (i : Int) : Column F := ⟨.atomic .int, fun _ => .integral i⟩

/-- `F.lit(None).cast(dt)`. -/
def litNull (dt : SparkType) : Column F := ⟨dt, fun _ => .null⟩

def isNull (c : Column F) : Column F := ⟨.atomic .boolean, fun row => .boolean (c.eval row).isNull⟩

/-- `F.when(condition, value).otherwise(other)`. -/
def whenOtherwise (condition value other : Column F) : Except AnalysisException (Column F) :=
  if value.dataType = other.dataType then
    .ok ⟨value.dataType, fun row =>
      if (condition.eval row).isTrue then value.eval row else other.eval row⟩
  else .error (.incompatibleBranches value.dataType other.dataType)

/-- `F.struct`. -/
def struct (columns : List (String × Column F)) : Column F where
  dataType := .struct (columns.map fun c => (c.1, c.2.dataType))
  eval row := .struct (columns.map fun c => c.2.eval row)

/-- What a lambda makes of one value. -/
def applyLambda (f : Column F → Except AnalysisException (Column F)) (dt : SparkType) (row : Row F)
    (x : SparkValue F) : SparkValue F :=
  match f ⟨dt, fun _ => x⟩ with
  | .ok c => c.eval row
  | .error _ => .null

/-- `F.transform`. -/
def transform (c : Column F) (f : Column F → Except AnalysisException (Column F)) :
    Except AnalysisException (Column F) :=
  match c.dataType with
  | .array element => do
    let body ← f ⟨element, fun _ => .null⟩
    return ⟨.array body.dataType, fun row => (c.eval row).mapArray (applyLambda f element row)⟩
  | dt => .error (.dataTypeMismatch "transform" dt)

/-- `F.transform_values`, with a lambda that only looks at the value. -/
def transformValues (c : Column F) (f : Column F → Except AnalysisException (Column F)) :
    Except AnalysisException (Column F) :=
  match c.dataType with
  | .map key value => do
    let body ← f ⟨value, fun _ => .null⟩
    return ⟨.map key body.dataType, fun row => (c.eval row).mapValues (applyLambda f value row)⟩
  | dt => .error (.dataTypeMismatch "transform_values" dt)

theorem whenOtherwise_ok {condition value other d : Column F}
    (h : condition.whenOtherwise value other = .ok d) :
    d.dataType = value.dataType ∧ value.dataType = other.dataType ∧
      ∀ row, d.eval row = bif (condition.eval row).isTrue then value.eval row else other.eval row := by
  rw [whenOtherwise] at h
  split at h
  · rename_i hsame
    cases h
    exact ⟨rfl, hsame, fun row => (Bool.cond_eq_ite _ _ _).symm⟩
  · cases h

theorem transform_ok {c d : Column F} {f : Column F → Except AnalysisException (Column F)}
    (h : c.transform f = .ok d) : ∃ element body, c.dataType = .array element ∧
      f ⟨element, fun _ => .null⟩ = .ok body ∧ d = ⟨.array body.dataType, fun row =>
        (c.eval row).mapArray (applyLambda f element row)⟩ := by
  rw [transform] at h
  split at h
  · rename_i element htype
    obtain ⟨body, hbody, h⟩ := bind_ok h
    exact ⟨element, body, htype, hbody, (Except.ok.inj h).symm⟩
  · cases h

theorem transformValues_ok {c d : Column F} {f : Column F → Except AnalysisException (Column F)}
    (h : c.transformValues f = .ok d) : ∃ key value body, c.dataType = .map key value ∧
      f ⟨value, fun _ => .null⟩ = .ok body ∧ d = ⟨.map key body.dataType, fun row =>
        (c.eval row).mapValues (applyLambda f value row)⟩ := by
  rw [transformValues] at h
  split at h
  · rename_i key value htype
    obtain ⟨body, hbody, h⟩ := bind_ok h
    exact ⟨key, value, body, htype, hbody, (Except.ok.inj h).symm⟩
  · cases h

/-- A function of one argument of a certain type, which maps null to null. -/
def function (name : String) (accepts : SparkType → Bool) (result : SparkType)
    (f : SparkValue F → SparkValue F) (c : Column F) : Except AnalysisException (Column F) :=
  if accepts c.dataType then .ok ⟨result, fun row => f (c.eval row)⟩
  else .error (.dataTypeMismatch name c.dataType)

theorem function_ok {accepts : SparkType → Bool} {c : Column F} (h : accepts c.dataType = true) :
    c.function name accepts result f = .ok ⟨result, fun row => f (c.eval row)⟩ :=
  if_pos h

/-- `F.unix_millis`. -/
def unixMillis (c : Column F) : Except AnalysisException (Column F) :=
  c.function "unix_millis" (· = .atomic .timestamp) (.atomic .bigint) SparkValue.unixMillis

/-- `F.unix_date`. -/
def unixDate (c : Column F) : Except AnalysisException (Column F) :=
  c.function "unix_date" (· = .atomic .date) (.atomic .int) SparkValue.unixDate

def isIntegral (dt : SparkType) : Bool :=
  dt = .atomic .tinyint || dt = .atomic .smallint || dt = .atomic .int || dt = .atomic .bigint

/-- `.cast("long")` of an integer. -/
def castLong (c : Column F) : Except AnalysisException (Column F) :=
  c.function "cast" isIntegral (.atomic .bigint) id

/-- The product of two longs. -/
def mul (a b : Column F) : Except AnalysisException (Column F) :=
  if a.dataType = .atomic .bigint ∧ b.dataType = .atomic .bigint then
    .ok ⟨.atomic .bigint, fun row => (a.eval row).mulLong (b.eval row)⟩
  else .error (.dataTypeMismatch "*" a.dataType)

/-- A field of a `timestamp_ntz`: `F.year`, `F.month` and so on. The seconds of `F.date_part` carry
their fraction, so they are in microseconds. -/
def clockField (name : String) (field : WallClock → Int) (c : Column F) :
    Except AnalysisException (Column F) :=
  c.function name (· = .atomic .timestampNtz) (.atomic .int) (SparkValue.clockField field)

/-- `F.make_timestamp` with the zone `'UTC'`. -/
def makeTimestamp (year month day hour minute second : Column F) : Column F where
  dataType := .atomic .timestamp
  eval row := match year.eval row, month.eval row, day.eval row, hour.eval row, minute.eval row,
      second.eval row with
    | .integral year, .integral month, .integral day, .integral hour, .integral minute,
        .integral second => makeTimestampUtc ⟨⟨year, month, day⟩, hour, minute, second⟩
    | _, _, _, _, _, _ => .null

section Floats

variable [PyFloat F]

def isFloating (dt : SparkType) : Bool := dt = .atomic .float || dt = .atomic .double

/-- `F.isnan(c) | (c == inf) | (c == -inf)`, which is not true of null. -/
def isNonFinite (c : Column F) : Except AnalysisException (Column F) :=
  c.function "isnan" isFloating (.atomic .boolean) SparkValue.isNonFinite

end Floats

variable (J : SparkFunctions F)

/-- `F.to_json`, which takes a variant and no other scalar. -/
def toJsonBy (text : SparkType → SparkValue F → String) (c : Column F) :
    Except AnalysisException (Column F) :=
  c.function "to_json" (fun
      | .atomic t => t = .other "variant"
      | _ => true) (.atomic .string) fun
    | .null => .null
    | v => .string (text c.dataType v)

/-- `F.to_json(c, {"ignoreNullFields": "false"})`. -/
def toJson (c : Column F) : Except AnalysisException (Column F) := c.toJsonBy J.toJson

/-- `F.to_json(c)`. -/
def toJsonNoOptions (c : Column F) : Except AnalysisException (Column F) :=
  c.toJsonBy J.toJsonNoOptions

theorem toJson_struct {c : Column F} (hc : c.dataType = .struct fields) :
    ∃ out, c.toJson J = .ok out ∧ out.dataType = .atomic .string ∧
      ∀ row cells, c.eval row = .struct cells →
        out.eval row = .string (J.toJson (.struct fields) (.struct cells)) := by
  rw [toJson, toJsonBy]
  refine ⟨_, function_ok (by rw [hc]), rfl, ?_⟩
  intro row cells hrow
  dsimp only
  rw [hrow, hc]

/-- `.cast("string")`. -/
def castString (c : Column F) : Column F where
  dataType := .atomic .string
  eval row := match c.eval row with
    | .null => .null
    | v => .string (J.castString c.dataType v)

/-- `F.concat` of three strings. -/
def concat (a b c : Column F) : Column F where
  dataType := .atomic .string
  eval row := match a.eval row, b.eval row, c.eval row with
    | .string s, .string t, .string u => .string (s ++ t ++ u)
    | _, _, _ => .null

/-- `c == F.lit(True)`. -/
def equalsTrue (c : Column F) : Except AnalysisException (Column F) :=
  if c.dataType = .atomic .boolean then .ok ⟨.atomic .boolean, c.eval⟩
  else match J.equalsTrue c.dataType with
  | some f => .ok ⟨.atomic .boolean, fun row => match f (c.eval row) with
    | some b => .boolean b
    | none => .null⟩
  | none => .error (.dataTypeMismatch "=" c.dataType)

end Column

/-- `df.withColumn(name, c)`. -/
def DataFrame.withColumn (r : Resolver) (df : DataFrame F) (name : String) (c : Column F) :
    DataFrame F :=
  if df.schema.any fun f => r.same f.1 name then
    { schema := df.schema.map fun f => if r.same f.1 name then (name, c.dataType) else f
      rows := df.rows.map fun row =>
        List.zipWith (fun f v => if r.same f.1 name then c.eval row else v) df.schema row }
  else
    { schema := df.schema ++ [(name, c.dataType)]
      rows := df.rows.map fun row => row ++ [c.eval row] }

end EsConnector
