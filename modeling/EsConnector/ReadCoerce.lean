import EsConnector.Base64
import EsConnector.Calendar
import EsConnector.PyValue

namespace EsConnector
set_option autoImplicit true

variable {F : Type}

def rejectNonScalar (value : Json F) (target : String) : Except (PyError F) Unit :=
  match value with
  | .list _ => .error (.schemaMismatch (.multipleValues value target))
  | .dict _ => .error (.schemaMismatch (.object value target))
  | _ => .ok ()

def boolTrueStrings : List String := ["true", "t", "1", "yes", "y"]

def boolFalseStrings : List String := ["false", "f", "0", "no", "n"]

/-- `_UNSUPPORTED_SCALAR_TOKENS`. -/
def unsupportedScalarTokens : List (String × String) :=
  [("char", "CharType is not supported by read_index; declare StringType instead"),
    ("varchar", "VarcharType is not supported by read_index; declare StringType instead"),
    ("void", "NullType is not supported by read_index; declare the column's real type")]

/-- `t.split("(", 1)[0].strip()`. -/
def tokenBase (t : String) : String :=
  String.ofList (pyStrip (t.toList.takeWhile (· ≠ '(')))

def rejectUnsupportedToken (t target : String) : Except (PyError F) Unit :=
  match unsupportedScalarTokens.lookup (tokenBase t) with
  | some fix => .error (.schemaMismatch (.unsupported target fix))
  | none => .ok ()

/-- `_INT_WIDTH_BOUNDS`. -/
def intWidthBounds : List (String × Int × Int) :=
  [("tinyint", -2 ^ 7, 2 ^ 7 - 1),
    ("byte", -2 ^ 7, 2 ^ 7 - 1),
    ("smallint", -2 ^ 15, 2 ^ 15 - 1),
    ("short", -2 ^ 15, 2 ^ 15 - 1),
    ("int", -2 ^ 31, 2 ^ 31 - 1),
    ("integer", -2 ^ 31, 2 ^ 31 - 1),
    ("long", -2 ^ 63, 2 ^ 63 - 1),
    ("bigint", -2 ^ 63, 2 ^ 63 - 1)]

/-- `datetime.min` and `datetime.max` in UTC: the years 1 to 9999. -/
def datetimeMin : Int := -62135596800 * 1000000

def datetimeMax : Int := 253402300800 * 1000000 - 1


section Coerce

variable [PyFloat F]

/-- `_epoch_millis_to_datetime`. -/
def epochMillisToDatetime (v : Json F) : Except (PyError F) Int := do
  let micros := (← pyInt v) * 1000
  if datetimeMin ≤ micros ∧ micros ≤ datetimeMax then return micros else throw .overflowError

/-- `_epoch_millis_to_naive_datetime`. -/
def epochMillisToNaiveDatetime (v : Json F) : Except (PyError F) Int := epochMillisToDatetime v

/-- `_epoch_millis_to_date`. -/
def epochMillisToDate (v : Json F) : Except (PyError F) Int := do
  return (← epochMillisToDatetime v) / Calendar.microsPerDay

/-- `base64.b64decode`. -/
def b64decode : Json F → Except (PyError F) (List UInt8)
  | .str s =>
    if s.toList.all fun c => c.toNat < 128 then
      match Base64.decode s.toList with
      | some bytes => .ok bytes
      | none => .error .valueError
    else .error .valueError
  | _ => .error .typeError

/-- The branch of the integer widths. -/
def coerceInt (lo hi : Int) (target : String) (value : Json F) : Except (PyError F) Int := do
  let i ← match value with
    | .float x =>
      if PyFloat.isInteger x then PyFloat.toInt x
      else throw (.schemaMismatch (.notIntegral x target))
    | value => pyInt value
  if lo ≤ i ∧ i ≤ hi then return i
  else throw (.schemaMismatch (.outOfRange i target lo hi))

/-- The branch of `boolean`. -/
def coerceBoolean (target : String) (value : Json F) : Except (PyError F) Bool :=
  match value with
  | .str s =>
    if stripLower s ∈ boolTrueStrings then .ok true
    else if stripLower s ∈ boolFalseStrings then .ok false
    else .error (.schemaMismatch (.notBoolean s target))
  | value => .ok (pyBool value)

/-- The branch of the string family. -/
def coerceString (target : String) (value : Json F) : Except (PyError F) String := do
  if let .str s := value then return s
  rejectNonScalar value target
  strOf value

/-- `read_coerce` of a value that is not null, for the scalar token `t`. -/
def readPresent (t target : String) (value : Json F) : Except (PyError F) (PyValue F) :=
  if t = "timestamp" then do
    rejectNonScalar value target
    return .datetime (← epochMillisToDatetime value)
  else if t = "timestamp_ntz" then do
    rejectNonScalar value target
    return .naive (← epochMillisToNaiveDatetime value)
  else if t = "date" then do
    rejectNonScalar value target
    return .date (← epochMillisToDate value)
  else if t = "binary" then do
    rejectNonScalar value target
    return .bytes (← b64decode value)
  else if "decimal".toList <+: t.toList then do
    rejectNonScalar value target
    return .decimal (← pyDecimal value)
  else match intWidthBounds.lookup t with
  | some (lo, hi) => do
    rejectNonScalar value target
    return .int (← coerceInt lo hi target value)
  | none =>
    if t = "float" ∨ t = "double" then do
      rejectNonScalar value target
      return .float (← pyFloat value)
    else if t = "boolean" then do
      rejectNonScalar value target
      return .bool (← coerceBoolean target value)
    else if t = "string" ∨ t = "variant" ∨ "interval".toList <+: t.toList then do
      return .str (← coerceString target value)
    else return .ofJson value

/-- `read_coerce` for a scalar token. The type is checked before the value is looked at. -/
def readScalar (target : String) (value : Json F) : Except (PyError F) (PyValue F) := do
  let t := stripLower target
  rejectUnsupportedToken t target
  match value with
  | .null => return .none
  | value => readPresent t target value

mutual

/-- `read_coerce`. -/
def readCoerce : TypeToken → Json F → Except (PyError F) (PyValue F)
  | .scalar target, value => readScalar target value
  | _, .null => .ok .none
  | .array element, .list xs => do return .list (← xs.mapM (readCoerce element))
  | .array element, value => do return .list [← readCoerce element value]
  | .map _ valueToken, value => do
    let items ← pyDict value
    return .dict (← items.mapM fun e => do return (e.1, ← readCoerce valueToken e.2))
  | .struct fields, value => do
    let src ← pyDict value
    return .dict ((dictOf (← readFields fields src)).map fun f => (.str f.1, f.2))

def readFields : List (String × TypeToken) → List (PyKey F × Json F) →
    Except (PyError F) (List (String × PyValue F))
  | [], _ => .ok []
  | (name, sub) :: fields, src => do
    let value ← readCoerce sub ((src.lookup (.str name)).getD .null)
    return (name, value) :: (← readFields fields src)

end

/-- One column of a row: the id where it is asked for and `_source` lacks it. -/
def coerceColumn (source : List (String × Json F)) (docId : Option String)
    (idField : Option String) (includeId : Bool) (name : String) (token : TypeToken) :
    Except (PyError F) (PyValue F) :=
  if includeId ∧ idField = some name ∧ source.lookup name = none then
    readCoerce token ((docId.map Json.str).getD .null)
  else readCoerce token ((source.lookup name).getD .null)

/-- `_coerce_hit`. -/
def coerceHit (source : List (String × Json F)) (docId : Option String)
    (fieldTokens : List (String × TypeToken)) (idField : Option String) (includeId : Bool) :
    Except (PyError F) (List (String × PyValue F)) := do
  let columns ← fieldTokens.mapM fun f => do
    return (f.1, ← coerceColumn source docId idField includeId f.1 f.2)
  return dictOf columns

end Coerce

end EsConnector
