import Mathlib.Data.List.Dedup
import EsConnector.PyValue

namespace EsConnector.TierGate
set_option autoImplicit true

/-- What the gate may raise. -/
inductive GateError where
  | attributeError
  | typeError
  | keyError
deriving DecidableEq, Repr

/-- `ast.Constant`. An imaginary number is known by its imaginary part. -/
inductive Constant (F : Type) where
  | none
  | ellipsis
  | bool (b : Bool)
  | int (i : Int)
  | float (x : F)
  | imaginary (x : F)
  | str (s : String)
  | bytes (b : List UInt8)

/-- The value of a literal expression. -/
inductive Literal (F : Type) where
  | constant (c : Constant F)
  | negated (c : Constant F)
  | complex (real : Literal F) (minus : Bool) (imaginary : F)
  | tuple (xs : List (Literal F))
  | list (xs : List (Literal F))
  | set (xs : List (Literal F))
  | dict (items : List (Literal F × Literal F))

/-- The expressions that the gate looks into. A key of a dictionary may be missing, where another
dictionary is spread into it. -/
inductive PyExpr (F : Type) where
  | constant (c : Constant F)
  | name (id : String)
  | attribute (value : PyExpr F) (attr : String)
  | call (func : PyExpr F) (args : List (PyExpr F)) (keywords : List (Option String × PyExpr F))
  | tuple (elts : List (PyExpr F))
  | list (elts : List (PyExpr F))
  | set (elts : List (PyExpr F))
  | dict (items : List (Option (PyExpr F) × PyExpr F))
  | unary (minus : Bool) (operand : PyExpr F)
  | binary (minus : Bool) (left right : PyExpr F)
  | other

/-- `ast.FunctionDef` or `ast.AsyncFunctionDef`. -/
structure TestMethod (F : Type) where
  name : String
  decorators : List (PyExpr F)

/-- What stands in the body of a class. -/
inductive ClassItem (F : Type) where
  | method (m : TestMethod F)
  | other

/-- What stands at the top level of a fixture. -/
inductive Statement (F : Type) where
  | classDef (body : List (ClassItem F))
  | other

/-- The fixtures `test_*.py`, by stem, in the order of their paths. -/
structure Fixtures (F : Type) where
  files : List (String × List (Statement F))
  nodup : (files.map Prod.fst).Nodup

/-- What is left to Python: `repr`, the elements of an `ids` that is neither a list nor a tuple nor a
string, and `str.isalnum` of a character outside ASCII. -/
structure Python (F : Type) where
  repr : Literal F → String
  item : Literal F → Nat → Except GateError (Option (Literal F))
  isAlnum : Char → Bool

variable {F : Type}

def Constant.isNumber : Constant F → Bool
  | .int _ | .float _ | .imaginary _ => true
  | _ => false

/-- A number that may have a sign. -/
def signedNumber : PyExpr F → Option (Literal F)
  | .constant c => if c.isNumber then some (.constant c) else none
  | .unary minus (.constant c) =>
    if c.isNumber then some (if minus then .negated c else .constant c) else none
  | _ => none

def Literal.isReal : Literal F → Bool
  | .constant (.imaginary _) | .negated (.imaginary _) => false
  | _ => true

mutual

def Literal.hashable : Literal F → Bool
  | .constant _ | .negated _ | .complex .. => true
  | .tuple xs => Literal.allHashable xs
  | .list _ | .set _ | .dict _ => false

def Literal.allHashable : List (Literal F) → Bool
  | [] => true
  | x :: xs => x.hashable && Literal.allHashable xs

end

mutual

/-- `ast.literal_eval`, where it raises nothing. -/
def literalEval : PyExpr F → Option (Literal F)
  | .constant c => some (.constant c)
  | .tuple elts => (literalEvals elts).map .tuple
  | .list elts => (literalEvals elts).map .list
  | .set elts => do
    let xs ← literalEvals elts
    if Literal.allHashable xs then some (.set xs) else none
  | .call (.name "set") [] [] => some (.set [])
  | .dict items => do
    let items ← literalItems items
    if Literal.allHashable (items.map Prod.fst) then some (.dict items) else none
  | .unary minus operand => signedNumber (.unary minus operand)
  | .binary minus left (.constant (.imaginary y)) => do
    let real ← signedNumber left
    if real.isReal then some (.complex real minus y) else none
  | _ => none

def literalEvals : List (PyExpr F) → Option (List (Literal F))
  | [] => some []
  | e :: elts => do return (← literalEval e) :: (← literalEvals elts)

def literalItems : List (Option (PyExpr F) × PyExpr F) → Option (List (Literal F × Literal F))
  | [] => some []
  | (none, _) :: _ => none
  | (some key, value) :: items => do
    return (← literalEval key, ← literalEval value) :: (← literalItems items)

end

/-- `_is_discoverable_test`. -/
def isDiscoverableTest (name : String) : Bool :=
  "test_".toList.isPrefixOf name.toList && !"test__".toList.isPrefixOf name.toList

/-- The last part of the name of a decorator that is called. -/
def decoratorTail : PyExpr F → Option String
  | .attribute _ attr => some attr
  | .name id => some id
  | _ => none

/-- The parameter list and the keywords of a `parametrize` mark. -/
def parametrizeMark : PyExpr F → Option (PyExpr F × List (Option String × PyExpr F))
  | .call func (_ :: argvalues :: _) keywords =>
    if decoratorTail func = some "parametrize" then some (argvalues, keywords) else none
  | _ => none

def PyExpr.isCall : PyExpr F → Bool
  | .call .. => true
  | _ => false

/-- Some `pytest.param(...)` is among the parameters. -/
def holdsCall : PyExpr F → Bool
  | .list elts | .tuple elts => elts.any PyExpr.isCall
  | _ => false

/-- The parameter sets of a mark and its `ids`, where they are literals. -/
def readParameters (argvalues : PyExpr F) (keywords : List (Option String × PyExpr F)) :
    Option (List (Literal F) × Option (Literal F)) :=
  if holdsCall argvalues then none
  else do
    let values ← literalEval argvalues
    let ids ← keywords.foldlM (fun ids kw =>
      if kw.1 = some "ids" then (literalEval kw.2).map some else some ids) none
    match values with
    | .list (v :: vs) | .tuple (v :: vs) => some (v :: vs, ids)
    | _ => none

variable (P : Python F)

/-- `str(v)`. -/
def Python.str : Literal F → String
  | .constant (.str s) => s
  | v => P.repr v

/-- `ids[i]`, where there are `ids` and that many. -/
def Python.idAt (ids : Option (Literal F)) (i : Nat) : Except GateError (Option (Literal F)) :=
  match ids with
  | none | some (.constant .none) => .ok none
  | some (.list xs) | some (.tuple xs) => .ok xs[i]?
  | some (.constant (.str s)) =>
    .ok (s.toList[i]?.map fun c => .constant (.str (String.singleton c)))
  | some v => P.item v i

/-- The id of a parameter set. -/
def Python.paramId (ids : Option (Literal F)) (i : Nat) (values : Literal F) :
    Except GateError String := do
  match ← P.idAt ids i with
  | some pid => return P.str pid
  | none =>
    match values with
    | .list xs | .tuple xs => return "-".intercalate (xs.map P.str)
    | v => return P.str v

/-- `f"{method}[{pid}]"`. -/
def caseName (method pid : String) : String := method ++ "[" ++ pid ++ "]"

/-- `_expansion_names`: the last `parametrize` mark counts. -/
def expansionNames (m : TestMethod F) : Except GateError (Option (List String)) :=
  match m.decorators.reverse.findSome? parametrizeMark with
  | none => .ok (some [m.name])
  | some (argvalues, keywords) =>
    match readParameters argvalues keywords with
    | none => .ok none
    | some (values, ids) => do
      let pids ← values.zipIdx.mapM fun v => P.paramId ids v.2 v.1
      return some (pids.map (caseName m.name))

/-- The methods of the classes at the top level that are tests. -/
def testMethods (tree : List (Statement F)) : List (TestMethod F) :=
  tree.flatMap fun
    | .classDef body => body.filterMap fun
      | .method m => if isDiscoverableTest m.name then some m else none
      | .other => none
    | .other => []

/-- The names that one fixture declares. -/
def fixtureTestNames (tree : List (Statement F)) : Except GateError (List String) :=
  (testMethods tree).foldlM (fun found m => do
    let expansions ← expansionNames P m
    return (found ∪ expansions.getD [m.name]).dedup) []

/-- `source_test_names`. -/
def sourceTestNames (fixtures : Fixtures F) : Except GateError (List (String × List String)) :=
  fixtures.files.mapM fun file => do return (file.1, ← fixtureTestNames P file.2)

/-- A name that a fixture declares: a test, or a case of one whose parameters are known. -/
def Declares (tree : List (Statement F)) (name : String) : Prop :=
  ∃ m ∈ testMethods tree, ∃ expansions, expansionNames P m = .ok expansions ∧
    name ∈ expansions.getD [m.name]

/-- A test whose parameters cannot be read off the source. -/
def Unreadable (tree : List (Statement F)) (name : String) : Prop :=
  ∃ m ∈ testMethods tree, m.name = name ∧ expansionNames P m = .ok none

theorem Unreadable.declares {tree : List (Statement F)} {name : String}
    (h : Unreadable P tree name) : Declares P tree name := by
  obtain ⟨m, hm, rfl, hnone⟩ := h
  exact ⟨m, hm, none, hnone, List.mem_singleton.mpr rfl⟩

end EsConnector.TierGate
