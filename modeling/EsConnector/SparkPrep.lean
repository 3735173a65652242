import EsConnector.Catalyst

namespace EsConnector
set_option autoImplicit true

variable {F : Type}

mutual

/-- A type is, or contains at any depth, one of certain atomic types. Map keys may be left out. -/
def typeHas (p : AtomicType → Bool) (keys : Bool) : SparkType → Bool
  | .atomic t => p t
  | .array element => typeHas p keys element
  | .map key value => (keys && typeHas p keys key) || typeHas p keys value
  | .struct fields => fieldsHave p keys fields

def fieldsHave (p : AtomicType → Bool) (keys : Bool) : Schema → Bool
  | [] => false
  | (_, dt) :: fields => typeHas p keys dt || fieldsHave p keys fields

end

mutual

/-- A type with certain atomic types made longs at any depth. Map keys may be left as they are. -/
def epochTypeOf (p : AtomicType → Bool) (keys : Bool) : SparkType → SparkType
  | .atomic t => .atomic (if p t then .bigint else t)
  | .array element => .array (epochTypeOf p keys element)
  | .map key value =>
    .map (if keys then epochTypeOf p keys key else key) (epochTypeOf p keys value)
  | .struct fields => .struct (epochFieldsOf p keys fields)

def epochFieldsOf (p : AtomicType → Bool) (keys : Bool) : Schema → Schema
  | [] => []
  | (name, dt) :: fields => (name, epochTypeOf p keys dt) :: epochFieldsOf p keys fields

end

/-- A rewrite of the leaves of a column: what becomes of a leaf, which subtrees have one, and what a
null struct is written as. -/
structure Rewrite (F : Type) where
  leaf : AtomicType → Column F → Except AnalysisException (Column F)
  has : SparkType → Bool
  nullStruct : SparkType → Column F → Column F

mutual

/-- The walk that the rewrites have in common. Structs are rebuilt field by field. -/
def Rewrite.apply (w : Rewrite F) (r : Resolver) :
    SparkType → Column F → Except AnalysisException (Column F)
  | .atomic t, c => w.leaf t c
  | .struct fields, c => do
    let rebuilt := Column.struct (← w.applyFields r fields c)
    c.isNull.whenOtherwise (w.nullStruct (.struct fields) c) rebuilt
  | .array element, c => c.transform fun e => w.apply r element e
  | .map _ value, c => c.transformValues fun v => w.apply r value v

def Rewrite.applyFields (w : Rewrite F) (r : Resolver) :
    Schema → Column F → Except AnalysisException (List (String × Column F))
  | [], _ => .ok []
  | (name, dt) :: fields, c => do
    let field ← c.getItem r name
    let field ← (if w.has dt then w.apply r dt field else .ok field)
    return (name, field) :: (← w.applyFields r fields c)

end

section Walk

variable {w : Rewrite F} {r : Resolver} {c d : Column F}

theorem Rewrite.apply_array_ok {element : SparkType} (h : w.apply r (.array element) c = .ok d) :
    ∃ element' body, c.dataType = .array element' ∧
      w.apply r element ⟨element', fun _ => .null⟩ = .ok body ∧
      d = ⟨.array body.dataType, fun row =>
        (c.eval row).mapArray (Column.applyLambda (w.apply r element) element' row)⟩ := by
  rw [Rewrite.apply] at h
  exact Column.transform_ok h

theorem Rewrite.apply_map_ok {key value : SparkType} (h : w.apply r (.map key value) c = .ok d) :
    ∃ key' value' body, c.dataType = .map key' value' ∧
      w.apply r value ⟨value', fun _ => .null⟩ = .ok body ∧
      d = ⟨.map key' body.dataType, fun row =>
        (c.eval row).mapValues (Column.applyLambda (w.apply r value) value' row)⟩ := by
  rw [Rewrite.apply] at h
  exact Column.transformValues_ok h

theorem Rewrite.apply_struct_ok {fields : Schema} (h : w.apply r (.struct fields) c = .ok d) :
    ∃ cols, w.applyFields r fields c = .ok cols ∧
      d.dataType = (Column.struct cols).dataType ∧
      (w.nullStruct (.struct fields) c).dataType = (Column.struct cols).dataType ∧
      ∀ row, d.eval row = bif (c.eval row).isNull then (w.nullStruct (.struct fields) c).eval row
        else (Column.struct cols).eval row := by
  rw [Rewrite.apply] at h
  obtain ⟨cols, hcols, h⟩ := bind_ok h
  obtain ⟨htype, hbranches, heval⟩ := Column.whenOtherwise_ok h
  exact ⟨cols, hcols, htype.trans hbranches, hbranches, heval⟩

theorem Rewrite.applyFields_cons_ok {fd : String × SparkType} {fields : Schema}
    {cols : List (String × Column F)} (h : w.applyFields r (fd :: fields) c = .ok cols) :
    ∃ x field rest, c.getItem r fd.1 = .ok x ∧
      (if w.has fd.2 then w.apply r fd.2 x else .ok x) = .ok field ∧
      w.applyFields r fields c = .ok rest ∧ cols = (fd.1, field) :: rest := by
  rw [Rewrite.applyFields] at h
  obtain ⟨x, hx, h⟩ := bind_ok h
  obtain ⟨field, hfield, h⟩ := bind_ok h
  obtain ⟨rest, hrest, h⟩ := bind_ok h
  exact ⟨x, field, rest, hx, hfield, hrest, (Except.ok.inj h).symm⟩

end Walk

def isTimestamp (t : AtomicType) : Bool := t = .timestamp

def typeHasTimestamp : SparkType → Bool := typeHas isTimestamp true

def epochStructType : SparkType → SparkType := epochTypeOf isTimestamp true

def timestampRewrite : Rewrite F where
  leaf t c := if isTimestamp t then c.unixMillis else .ok c
  has := typeHasTimestamp
  nullStruct dt _ := .litNull (epochStructType dt)

/-- `_rewrite_timestamps`. -/
def rewriteTimestamps (r : Resolver) (c : Column F) (dt : SparkType) :
    Except AnalysisException (Column F) :=
  timestampRewrite.apply r dt c

/-- `normalize_timestamps_for_utc`. -/
def normalizeTimestampsForUtc (r : Resolver) (df : DataFrame F) :
    Except AnalysisException (DataFrame F) :=
  df.schema.foldlM (fun out f =>
    if typeHasTimestamp f.2 then do
      let c ← Column.col r out.schema f.1
      return out.withColumn r f.1 (← rewriteTimestamps r c f.2)
    else return out) df

end EsConnector
