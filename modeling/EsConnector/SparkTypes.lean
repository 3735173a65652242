import Mathlib.Data.List.Basic

namespace EsConnector
set_option autoImplicit true

/-- The Spark types that are not containers. Those the connector treats alike (intervals, variants,
`char`, `varchar`, `void`, collated strings) are known by their `simpleString()` only. -/
inductive AtomicType where
  | boolean | tinyint | smallint | int | bigint | float | double
  | decimal (precision scale : Nat)
  | string | binary | date | timestamp | timestampNtz
  | other (name : String)
deriving DecidableEq, Repr

def AtomicType.simpleString : AtomicType → String
  | .boolean => "boolean"
  | .tinyint => "tinyint"
  | .smallint => "smallint"
  | .int => "int"
  | .bigint => "bigint"
  | .float => "float"
  | .double => "double"
  | .decimal precision scale => s!"decimal({precision},{scale})"
  | .string => "string"
  | .binary => "binary"
  | .date => "date"
  | .timestamp => "timestamp"
  | .timestampNtz => "timestamp_ntz"
  | .other name => name

/-- A Spark `DataType`. Nullability is not kept. -/
inductive SparkType where
  | atomic (t : AtomicType)
  | array (element : SparkType)
  | map (key value : SparkType)
  | struct (fields : List (String × SparkType))
deriving Repr

/-- A schema: the fields of a `StructType`. -/
abbrev Schema : Type := List (String × SparkType)

mutual

/-- `DataType.simpleString()`, in full. -/
def SparkType.simpleString : SparkType → String
  | .atomic t => t.simpleString
  | .array element => "array<" ++ element.simpleString ++ ">"
  | .map key value => "map<" ++ key.simpleString ++ "," ++ value.simpleString ++ ">"
  | .struct fields => "struct<" ++ ",".intercalate (fieldStrings fields) ++ ">"

def fieldStrings : Schema → List String
  | [] => []
  | (name, dt) :: fields => (name ++ ":" ++ dt.simpleString) :: fieldStrings fields

end

/-- What `read_coerce` knows a declared type by. -/
inductive TypeToken where
  | scalar (name : String)
  | array (element : TypeToken)
  | map (key value : TypeToken)
  | struct (fields : List (String × TypeToken))
deriving Repr

mutual

/-- `_spark_type_token`. -/
def sparkTypeToken : SparkType → TypeToken
  | .struct fields => .struct (schemaFieldTokens fields)
  | .array element => .array (sparkTypeToken element)
  | .map key value => .map (sparkTypeToken key) (sparkTypeToken value)
  | .atomic t => .scalar t.simpleString

/-- `_schema_field_tokens`. -/
def schemaFieldTokens : Schema → List (String × TypeToken)
  | [] => []
  | (name, dataType) :: fields => (name, sparkTypeToken dataType) :: schemaFieldTokens fields

end

@[simp] theorem schemaFieldTokens_names (schema : Schema) :
    (schemaFieldTokens schema).map Prod.fst = schema.map Prod.fst := by
  induction schema with
  | nil => rfl
  | cons f fields ih => simp [schemaFieldTokens, ih]

/-- Induction on a type, where a struct has the hypothesis for each of its fields. -/
@[elab_as_elim, induction_eliminator]
theorem SparkType.induct {P : SparkType → Prop} (atomic : ∀ t, P (.atomic t))
    (array : ∀ element, P element → P (.array element))
    (map : ∀ key value, P key → P value → P (.map key value))
    (struct : ∀ fields, (∀ f ∈ fields, P f.2) → P (.struct fields)) (dt : SparkType) : P dt :=
  @SparkType.rec P (fun fields => ∀ f ∈ fields, P f.2) (fun f => P f.2) atomic array map struct
    (fun _ h => nomatch h) (fun _ _ hf hfs => List.forall_mem_cons.mpr ⟨hf, hfs⟩)
    (fun _ _ h => h) dt

mutual

def SparkType.same : SparkType → SparkType → Bool
  | .atomic t, .atomic u => t = u
  | .array a, .array b => a.same b
  | .map k v, .map k' v' => k.same k' && v.same v'
  | .struct fields, .struct fields' => sameFields fields fields'
  | _, _ => false

def sameFields : Schema → Schema → Bool
  | [], [] => true
  | (name, dt) :: fields, (name', dt') :: fields' =>
    name = name' && dt.same dt' && sameFields fields fields'
  | _, _ => false

end

theorem sameFields_iff {fields fields' : Schema}
    (h : ∀ f ∈ fields, ∀ dt, f.2.same dt = true ↔ f.2 = dt) :
    sameFields fields fields' = true ↔ fields = fields' := by
  induction fields generalizing fields' with
  | nil => cases fields' <;> simp [sameFields]
  | cons f fields ih =>
    obtain ⟨name, dt⟩ := f
    cases fields' with
    | nil => simp [sameFields]
    | cons f' fields' =>
      have hdt := h (name, dt) List.mem_cons_self f'.2
      have hfields : sameFields fields fields' = true ↔ fields = fields' :=
        ih fun f hf => h f (List.mem_cons_of_mem _ hf)
      simp [sameFields, hdt, hfields, Prod.ext_iff]

theorem SparkType.same_iff (a b : SparkType) : a.same b = true ↔ a = b := by
  induction a generalizing b with
  | atomic t => cases b <;> simp [same]
  | array e ih => cases b <;> simp [same, ih]
  | map k v ihk ihv => cases b <;> simp [same, ihk, ihv]
  | struct fields ih =>
    cases b with
    | struct fields' => simp [same, sameFields_iff ih]
    | _ => simp [same]

instance : DecidableEq SparkType := fun a b => decidable_of_iff _ (SparkType.same_iff a b)

end EsConnector
