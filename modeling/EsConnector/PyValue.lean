import EsConnector.Json
import EsConnector.SparkTypes
import Mathlib.Data.List.DropRight

namespace EsConnector
set_option autoImplicit true

/-- `decimal.Decimal`. -/
inductive PyDecimal where
  | finite (negative : Bool) (digits : Nat) (exponent : Int)
  | infinite (negative : Bool)
  | nan (negative signaling : Bool) (payload : Nat)
deriving DecidableEq, Repr

/-- A key of a Python dictionary that comes from JSON. -/
inductive PyKey (F : Type) where
  | none
  | bool (b : Bool)
  | int (i : Int)
  | float (x : F)
  | str (s : String)

/-- The value of a Spark cell, as Python has it: a `date` in days since the epoch, a `datetime` in
microseconds since it, with or without the zone UTC. -/
inductive PyValue (F : Type) where
  | none
  | bool (b : Bool)
  | int (i : Int)
  | float (x : F)
  | str (s : String)
  | bytes (b : List UInt8)
  | decimal (d : PyDecimal)
  | date (days : Int)
  | datetime (micros : Int)
  | naive (micros : Int)
  | list (xs : List (PyValue F))
  | dict (items : List (PyKey F × PyValue F))

/-- `ReadSchemaMismatch`, with the data its message is made of. -/
inductive ReadSchemaMismatch (F : Type) where
  | multipleValues (value : Json F) (target : String)
  | object (value : Json F) (target : String)
  | unsupported (target fix : String)
  | notIntegral (value : F) (target : String)
  | outOfRange (value : Int) (target : String) (lo hi : Int)
  | notBoolean (value : String) (target : String)
  | mapKey (path : String) (key : TypeToken)

/-- What a coercion may raise. -/
inductive PyError (F : Type) where
  | schemaMismatch (e : ReadSchemaMismatch F)
  | typeError
  | valueError
  | overflowError
  | invalidOperation

/-- What the connector asks of Python's floats. The values of an ES `_source` are those of `Json F`. -/
class PyFloat (F : Type) where
  isNan : F → Bool
  isPosInf : F → Bool
  isNegInf : F → Bool
  isZero : F → Bool
  isInteger : F → Bool
  /-- `x == y`. -/
  eq : F → F → Bool
  /-- `x == i`. -/
  eqInt : F → Int → Bool
  /-- `int(x)`. -/
  toInt : F → Except (PyError F) Int
  /-- `float(i)`. -/
  ofInt : Int → Except (PyError F) F
  /-- `float(s)`. -/
  ofString : String → Except (PyError F) F
  /-- `str(x)`. -/
  repr : F → String
  /-- `Decimal(str(x))`. -/
  toDecimal : F → PyDecimal

variable {F : Type}

@[simp] theorem ok_bind (a : α) (f : α → Except ε β) : (Except.ok a >>= f) = f a := rfl

theorem bind_ok {x : Except ε α} {f : α → Except ε β} {b : β} (h : (x >>= f) = .ok b) :
    ∃ a, x = .ok a ∧ f a = .ok b := by
  cases x with
  | error e => cases h
  | ok a => exact ⟨a, rfl, h⟩

theorem bind_error {x : Except ε α} {f : α → Except ε β} {e : ε} (h : (x >>= f) = .error e) :
    x = .error e ∨ ∃ a, x = .ok a ∧ f a = .error e := by
  cases x with
  | error e' =>
    cases h
    exact .inl rfl
  | ok a => exact .inr ⟨a, rfl, h⟩

theorem map_ok {x : Except ε α} {f : α → β} {b : β} (h : x.map f = .ok b) :
    ∃ a, x = .ok a ∧ f a = b := by
  cases x with
  | error e => cases h
  | ok a => exact ⟨a, rfl, Except.ok.inj h⟩

theorem mapError_ok {x : Except ε α} {f : ε → ε'} {a : α} (h : x.mapError f = .ok a) : x = .ok a := by
  cases x with
  | error e => cases h
  | ok a => exact congrArg Except.ok (Except.ok.inj h)

theorem mapM_ok {f : α → Except ε β} {xs : List α} {ys : List β} (h : xs.mapM f = .ok ys) :
    ∀ x ∈ xs, ∃ y ∈ ys, f x = .ok y := by
  induction xs generalizing ys with
  | nil => exact nofun
  | cons x xs ih =>
    rw [List.mapM_cons] at h
    obtain ⟨y, hy, h⟩ := bind_ok h
    obtain ⟨rest, hrest, h⟩ := bind_ok h
    cases h
    refine List.forall_mem_cons.mpr ⟨⟨y, List.mem_cons_self, hy⟩, fun z hz => ?_⟩
    obtain ⟨y', hy', hz⟩ := ih hrest z hz
    exact ⟨y', List.mem_cons_of_mem _ hy', hz⟩

theorem mapM_ok_mem {f : α → Except ε β} {xs : List α} {ys : List β} (h : xs.mapM f = .ok ys) :
    ∀ y ∈ ys, ∃ x ∈ xs, f x = .ok y := by
  induction xs generalizing ys with
  | nil =>
    cases h
    exact nofun
  | cons x xs ih =>
    rw [List.mapM_cons] at h
    obtain ⟨y, hy, h⟩ := bind_ok h
    obtain ⟨rest, hrest, h⟩ := bind_ok h
    cases h
    refine List.forall_mem_cons.mpr ⟨⟨x, List.mem_cons_self, hy⟩, fun z hz => ?_⟩
    obtain ⟨x', hx', hz⟩ := ih hrest z hz
    exact ⟨x', List.mem_cons_of_mem _ hx', hz⟩

theorem mapM_ok_of_forall {f : α → Except ε β} {xs : List α} (h : ∀ x ∈ xs, ∃ y, f x = .ok y) :
    ∃ ys, xs.mapM f = .ok ys := by
  induction xs with
  | nil => exact ⟨[], rfl⟩
  | cons x xs ih =>
    obtain ⟨y, hy⟩ := h x List.mem_cons_self
    obtain ⟨ys, hys⟩ := ih fun x hx => h x (List.mem_cons_of_mem _ hx)
    exact ⟨y :: ys, by rw [List.mapM_cons, hy, hys]; rfl⟩

/-- What the results have in common with what they are made of. -/
theorem mapM_ok_map {f : α → Except ε β} {g : α → γ} {g' : β → γ} {xs : List α} {ys : List β}
    (hf : ∀ x ∈ xs, ∀ y ∈ ys, f x = .ok y → g' y = g x) (h : xs.mapM f = .ok ys) :
    ys.map g' = xs.map g := by
  induction xs generalizing ys with
  | nil =>
    cases h
    rfl
  | cons x xs ih =>
    rw [List.mapM_cons] at h
    obtain ⟨y, hy, h⟩ := bind_ok h
    obtain ⟨rest, hrest, h⟩ := bind_ok h
    cases h
    have hrest := ih (fun x hx y hy => hf x (List.mem_cons_of_mem _ hx) y (List.mem_cons_of_mem _ hy))
      hrest
    rw [List.map_cons, List.map_cons, hf x List.mem_cons_self y List.mem_cons_self hy, hrest]

theorem mapM_ok_length {f : α → Except ε β} {xs : List α} {ys : List β} (h : xs.mapM f = .ok ys) :
    ys.length = xs.length := by
  have hunit : ys.map (fun _ => ()) = xs.map fun _ => () := mapM_ok_map (fun _ _ _ _ _ => rfl) h
  simpa using congrArg List.length hunit

theorem lookup_of_unique {α β : Type} [BEq α] [LawfulBEq α] {l : List (α × β)} {k : α} {v : β}
    (hmem : (k, v) ∈ l) (honly : ∀ v', (k, v') ∈ l → v' = v) : l.lookup k = some v := by
  cases hfound : l.lookup k with
  | none => exact absurd (List.lookup_eq_none_iff.mp hfound (k, v) hmem) (by simp)
  | some v' =>
    obtain ⟨_, _, rfl, -⟩ := List.lookup_eq_some_iff.mp hfound
    rw [honly v' (by simp)]

mutual

/-- A JSON value left as it is. -/
def PyValue.ofJson : Json F → PyValue F
  | .null => .none
  | .bool b => .bool b
  | .int i => .int i
  | .float x => .float x
  | .str s => .str s
  | .list xs => .list (PyValue.ofJsonList xs)
  | .dict items => .dict (PyValue.ofJsonItems items)

def PyValue.ofJsonList : List (Json F) → List (PyValue F)
  | [] => []
  | x :: xs => PyValue.ofJson x :: PyValue.ofJsonList xs

def PyValue.ofJsonItems : List (String × Json F) → List (PyKey F × PyValue F)
  | [] => []
  | (k, v) :: items => (.str k, PyValue.ofJson v) :: PyValue.ofJsonItems items

end

/-- `str.isspace` of a character. -/
def pyIsSpace (c : Char) : Bool :=
  let n := c.toNat
  (9 ≤ n && n ≤ 13) || (28 ≤ n && n ≤ 32) || n == 0x85 || n == 0xa0 || n == 0x1680 ||
    (0x2000 ≤ n && n ≤ 0x200a) || n == 0x2028 || n == 0x2029 || n == 0x202f || n == 0x205f ||
    n == 0x3000

/-- `str.strip`. -/
def pyStrip (cs : List Char) : List Char :=
  (cs.dropWhile pyIsSpace).rdropWhile pyIsSpace

theorem isAlphanum_not_space {c : Char} (h : c.isAlphanum = true) : pyIsSpace c = false := by
  have hval : c.toNat = c.val.toNat := rfl
  have hrange : (decide (65 ≤ c.val ∧ c.val ≤ 90) || (decide (97 ≤ c.val) && decide (c.val ≤ 122)) ||
      (decide (48 ≤ c.val) && decide (c.val ≤ 57))) = true := h
  simp only [Bool.or_eq_true, Bool.and_eq_true, decide_eq_true_eq, UInt32.le_iff_toNat_le,
    UInt32.reduceToNat] at hrange
  simp only [pyIsSpace, Bool.or_eq_false_iff, Bool.and_eq_false_iff, decide_eq_false_iff_not,
    beq_eq_false_iff_ne]
  omega

theorem pyStrip_of_ends {cs : List Char} (hfirst : ∀ c ∈ cs.head?, pyIsSpace c = false)
    (hlast : ∀ c ∈ cs.getLast?, pyIsSpace c = false) : pyStrip cs = cs := by
  have hfront : cs.dropWhile pyIsSpace = cs := by
    cases cs with
    | nil => rfl
    | cons c cs => exact List.dropWhile_cons_of_neg (by simp [hfirst c rfl])
  rw [pyStrip, hfront]
  apply List.rdropWhile_eq_self_iff.mpr
  intro hne
  simp [hlast _ (List.getLast?_eq_some_getLast hne)]

/-- `s.strip().lower()`, on the letters of ASCII. -/
def stripLower (s : String) : String :=
  String.ofList ((pyStrip s.toList).map Char.toLower)

/-- The zeros of Unicode's decimal digits. -/
def decimalZeros : List Nat :=
  [0x30, 0x660, 0x6f0, 0x7c0, 0x966, 0x9e6, 0xa66, 0xae6, 0xb66, 0xbe6, 0xc66, 0xce6, 0xd66,
    0xde6, 0xe50, 0xed0, 0xf20, 0x1040, 0x1090, 0x17e0, 0x1810, 0x1946, 0x19d0, 0x1a80, 0x1a90,
    0x1b50, 0x1bb0, 0x1c40, 0x1c50, 0xa620, 0xa8d0, 0xa900, 0xa9d0, 0xa9f0, 0xaa50, 0xabf0,
    0xff10, 0x104a0, 0x10d30, 0x11066, 0x110f0, 0x11136, 0x111d0, 0x112f0, 0x11450, 0x114d0,
    0x11650, 0x116c0, 0x11730, 0x118e0, 0x11950, 0x11c50, 0x11d50, 0x11da0, 0x11f50, 0x16a60,
    0x16ac0, 0x16b50, 0x1d7ce, 0x1d7d8, 0x1d7e2, 0x1d7ec, 0x1d7f6, 0x1e140, 0x1e2f0, 0x1e4f0,
    0x1e950, 0x1fbf0]

/-- `unicodedata.decimal(c, None)`. -/
def decimalDigit (c : Char) : Option Nat :=
  (decimalZeros.find? fun z => z ≤ c.toNat && c.toNat < z + 10).map (c.toNat - ·)

def isDecimalDigit (c : Char) : Bool := (decimalDigit c).isSome

/-- The digits of a number literal; single underscores may stand between them. -/
def pyDigits (acc : Nat) (afterDigit : Bool) : List Char → Option Nat
  | [] => if afterDigit then some acc else none
  | c :: rest =>
    if c = '_' then
      if afterDigit then pyDigits acc false rest else none
    else match decimalDigit c with
      | some d => pyDigits (acc * 10 + d) true rest
      | none => none

def pySign : List Char → Bool × List Char
  | '-' :: rest => (true, rest)
  | '+' :: rest => (false, rest)
  | cs => (false, cs)

def applySign (negative : Bool) (n : Nat) : Int := if negative then -(n : Int) else n

/-- `int(s)`. -/
def pyIntOfString (s : String) : Except (PyError F) Int :=
  let (negative, digits) := pySign (pyStrip s.toList)
  match pyDigits 0 false digits with
  | some n => .ok (applySign negative n)
  | none => .error .valueError

/-- `int(value)`. -/
def pyInt [PyFloat F] : Json F → Except (PyError F) Int
  | .bool b => .ok b.toInt
  | .int i => .ok i
  | .float x => PyFloat.toInt x
  | .str s => pyIntOfString s
  | _ => .error .typeError

/-- `float(value)`. -/
def pyFloat [PyFloat F] : Json F → Except (PyError F) F
  | .bool b => PyFloat.ofInt b.toInt
  | .int i => PyFloat.ofInt i
  | .float x => .ok x
  | .str s => PyFloat.ofString s
  | _ => .error .typeError

/-- `bool(value)`. -/
def pyBool [PyFloat F] : Json F → Bool
  | .null => false
  | .bool b => b
  | .int i => i != 0
  | .float x => !PyFloat.isZero x
  | .str s => s != ""
  | .list xs => !xs.isEmpty
  | .dict items => !items.isEmpty

/-- The exponent part of a decimal literal, which may be missing. -/
def decimalExponent : List Char → Option Int
  | [] => some 0
  | c :: rest =>
    if c = 'e' then
      let (negative, digits) := pySign rest
      (pyDigits 0 false digits).map (applySign negative)
    else none

/-- The part of a decimal literal after its sign. -/
def unsignedDecimal (negative : Bool) (cs : List Char) : Option PyDecimal :=
  let whole := cs.takeWhile isDecimalDigit
  let rest := cs.dropWhile isDecimalDigit
  let (fraction, rest) := match rest with
    | '.' :: rest => (rest.takeWhile isDecimalDigit, rest.dropWhile isDecimalDigit)
    | rest => ([], rest)
  match pyDigits 0 false (whole ++ fraction), decimalExponent rest with
  | some digits, some exponent => some (.finite negative digits (exponent - fraction.length))
  | _, _ => none

/-- The payload of a NaN, which may be missing. -/
def nanPayload (cs : List Char) : Option Nat :=
  if cs = [] then some 0 else pyDigits 0 false cs

/-- `Decimal(s)`. -/
def pyDecimalOfString (s : String) : Except (PyError F) PyDecimal :=
  let cs := (pyStrip s.toList).filter (· ≠ '_') |>.map Char.toLower
  let (negative, cs) := pySign cs
  let parsed :=
    if cs = "inf".toList ∨ cs = "infinity".toList then some (.infinite negative)
    else if "nan".toList <+: cs then (nanPayload (cs.drop 3)).map (.nan negative false)
    else if "snan".toList <+: cs then (nanPayload (cs.drop 4)).map (.nan negative true)
    else unsignedDecimal negative cs
  match parsed with
  | some d => .ok d
  | none => .error .invalidOperation

/-- `Decimal(str(value))` of a scalar. -/
def pyDecimal [PyFloat F] : Json F → Except (PyError F) PyDecimal
  | .int i => .ok (.finite (i < 0) i.natAbs 0)
  | .float x => .ok (PyFloat.toDecimal x)
  | .str s => pyDecimalOfString s
  | _ => .error .invalidOperation

/-- `str(value)` of a scalar. -/
def strOf [PyFloat F] : Json F → Except (PyError F) String
  | .bool b => .ok (if b then "True" else "False")
  | .int i => .ok (toString i)
  | .float x => .ok (PyFloat.repr x)
  | .str s => .ok s
  | _ => .error .typeError

def PyKey.toInt? : PyKey F → Option Int
  | .bool b => some b.toInt
  | .int i => some i
  | _ => Option.none

/-- Whether two keys are the same one: numbers are compared by value. -/
def PyKey.same [PyFloat F] : PyKey F → PyKey F → Bool
  | .str s, .str t => s == t
  | .none, .none => true
  | .float x, .float y => PyFloat.eq x y
  | .float x, k => k.toInt?.any (PyFloat.eqInt x)
  | k, .float x => k.toInt?.any (PyFloat.eqInt x)
  | k, l => k.toInt?.isSome && k.toInt? == l.toInt?

instance [PyFloat F] : BEq (PyKey F) := ⟨PyKey.same⟩

@[simp] theorem PyKey.str_beq [PyFloat F] (s t : String) : (PyKey.str s == (.str t : PyKey F)) = (s == t) :=
  rfl

def pyKey : Json F → Except (PyError F) (PyKey F)
  | .null => .ok .none
  | .bool b => .ok (.bool b)
  | .int i => .ok (.int i)
  | .float x => .ok (.float x)
  | .str s => .ok (.str s)
  | _ => .error .typeError

/-- An element of a sequence that `dict` takes for a key with its value. -/
def pyPair : Json F → Except (PyError F) (PyKey F × Json F)
  | .list [k, v] => do return (← pyKey k, v)
  | .list _ => .error .valueError
  | .str s => match s.toList with
    | [a, b] => .ok (.str (String.ofList [a]), .str (String.ofList [b]))
    | _ => .error .valueError
  | .dict [(a, _), (b, _)] => .ok (.str a, .str b)
  | .dict _ => .error .valueError
  | _ => .error .typeError

/-- `items[k] = v`. -/
def dictInsert [BEq κ] (items : List (κ × α)) (k : κ) (v : α) : List (κ × α) :=
  if items.any fun e => e.1 == k then items.map fun e => if e.1 == k then (e.1, v) else e
  else items ++ [(k, v)]

/-- The dictionary that key-value pairs make one after the other. -/
def dictOf [BEq κ] (pairs : List (κ × α)) : List (κ × α) :=
  pairs.foldl (fun items p => dictInsert items p.1 p.2) []

theorem foldl_dictInsert [BEq κ] [LawfulBEq κ] (items pairs : List (κ × α))
    (h : (items ++ pairs).Pairwise fun p q => p.1 ≠ q.1) :
    pairs.foldl (fun items p => dictInsert items p.1 p.2) items = items ++ pairs := by
  induction pairs generalizing items with
  | nil => simp
  | cons p rest ih =>
    have hnew : ¬(items.any fun e => e.1 == p.1) := by
      simp only [List.any_eq_true, beq_iff_eq, not_exists, not_and]
      exact fun e he => (List.pairwise_append.mp h).2.2 e he p List.mem_cons_self
    rw [List.foldl_cons, dictInsert, if_neg hnew, ih _ (by simpa using h)]
    simp

theorem dictOf_eq_self [BEq κ] [LawfulBEq κ] {pairs : List (κ × α)}
    (h : (pairs.map Prod.fst).Nodup) : dictOf pairs = pairs :=
  foldl_dictInsert [] pairs (List.pairwise_map.mp h)

/-- `dict(value)`. -/
def pyDict [PyFloat F] : Json F → Except (PyError F) (List (PyKey F × Json F))
  | .dict items => .ok (items.map fun (k, v) => (.str k, v))
  | .list xs => do
    let pairs ← xs.mapM pyPair
    return dictOf pairs
  | .str s => if s = "" then .ok [] else .error .valueError
  | _ => .error .typeError

/-- A world without floats. -/
instance : PyFloat Empty where
  isNan := nofun
  isPosInf := nofun
  isNegInf := nofun
  isZero := nofun
  isInteger := nofun
  eq := nofun
  eqInt := nofun
  toInt := nofun
  ofInt _ := .error .overflowError
  ofString _ := .error .valueError
  repr := nofun
  toDecimal := nofun

/-- A few floats: a fraction, an integral number and one that is no number. -/
inductive FewFloats where
  | half
  | two
  | nan

instance : PyFloat FewFloats where
  isNan
    | .nan => true
    | _ => false
  isPosInf _ := false
  isNegInf _ := false
  isZero _ := false
  isInteger
    | .two => true
    | _ => false
  eq
    | .half, .half => true
    | .two, .two => true
    | _, _ => false
  eqInt
    | .two, i => i = 2
    | _, _ => false
  toInt
    | .half => .ok 0
    | .two => .ok 2
    | .nan => .error .valueError
  ofInt i := if i = 2 then .ok .two else .error .overflowError
  ofString _ := .error .valueError
  repr
    | .half => "0.5"
    | .two => "2.0"
    | .nan => "nan"
  toDecimal
    | .half => .finite false 5 (-1)
    | .two => .finite false 20 (-1)
    | .nan => .nan false false 0

instance : Json.FloatText FewFloats where
  print
    | .half => "0.5".toList
    | .two => "2.0".toList
    | .nan => "NaN".toList
  parse cs :=
    if cs = "0.5".toList then some .half
    else if cs = "2.0".toList then some .two
    else if cs = "NaN".toList then some .nan
    else none
  parse_print x := by cases x <;> rfl
  wordChars x := by cases x <;> decide
  not_word x := by cases x <;> decide
  not_int x := by cases x <;> rfl

end EsConnector
