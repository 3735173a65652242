import EsConnector.ArrowSanitizer
import EsConnector.FixtureSource
import EsConnector.Grouping
import Mathlib.Data.List.Sort

namespace EsConnector.TierGate
set_option autoImplicit true

variable {F : Type} (P : Python F)

/-- `\w`. -/
def Python.isWord (c : Char) : Bool :=
  c.isAlphanum || c = '_' || (128 ≤ c.toNat && P.isAlnum c)

/-- `[A-Za-z_]\w*`. -/
def Python.isIdentifier : List Char → Bool
  | [] => false
  | c :: cs => (c.isAlpha || c = '_') && cs.all P.isWord

/-- `_strip_class`: the classes before a method go, where identifiers and dots are all there is up to
the bracket. -/
def stripClass (reported : String) : String :=
  let cs := pyStrip reported.toList
  let parts := (cs.takeWhile (· ≠ '[')).splitOn '.'
  if parts.all P.isIdentifier then
    String.ofList (parts.getLastD [] ++ cs.dropWhile (· ≠ '['))
  else String.ofList cs

def newline : Char := Char.ofNat 10

/-- What follows each dot of the first line. -/
def afterDots : List Char → List (List Char)
  | [] => []
  | c :: cs =>
    if c = newline then [] else if c = '.' then cs :: afterDots cs else afterDots cs

/-- `\[.*\]`. -/
def isBracketed (cs : List Char) : Bool :=
  cs.head? = some '[' && cs.getLast? = some ']' && newline ∉ cs

/-- The method of `_REPORTED_NAME_RE`, where it starts a text. -/
def Python.leadingMethod (cs : List Char) : Option (List Char) :=
  let method := cs.takeWhile P.isWord
  let rest := cs.dropWhile P.isWord
  if P.isIdentifier method && (rest.isEmpty || isBracketed rest) then some method else none

/-- `_source_method`: the method is looked for after the last dot first. -/
def sourceMethod (reported : String) : String :=
  let cs := pyStrip reported.toList
  match ((afterDots cs).reverse ++ [cs]).findSome? P.leadingMethod with
  | some method => String.ofList method
  | none => reported

/-- `_credit`: a name that is not declared falls back on its method. -/
def credit (want : List String) (reported : String) : String :=
  if reported ∈ want then reported else sourceMethod P reported

abbrev Fields (F : Type) : Type := List (String × Json F)

section Results

variable [PyFloat F]

/-- `entry.get(key) or ""`, which is then used as a text. -/
def textOf (entry : Fields F) (key : String) : Except GateError String :=
  match entry.lookup key with
  | none => .ok ""
  | some (.str s) => .ok s
  | some v => if pyBool v then .error .attributeError else .ok ""

/-- `re.sub(r"\.py$", "", s)`. -/
def dropPySuffix (cs : List Char) : List Char :=
  if ".py".toList <:+ cs then cs.rdrop 3
  else if ".py".toList ++ [newline] <:+ cs then cs.rdrop 4 ++ [newline]
  else cs

/-- The name of the fixture at a workspace path. -/
def fixtureStem (notebook : String) : String :=
  String.ofList (dropPySuffix
    ((notebook.toList.rdropWhile (· = '/')).rtakeWhile (· ≠ '/')))

def asDict : Json F → Except GateError (Fields F)
  | .dict fields => .ok fields
  | _ => .error .attributeError

/-- The entries under `tests`. -/
def testEntries : Json F → Except GateError (List (Fields F))
  | .dict results =>
    match results.lookup "tests" with
    | none => .ok []
    | some (.list entries) => entries.mapM asDict
    | some (.dict items) => if items.isEmpty then .ok [] else .error .attributeError
    | some (.str s) => if s = "" then .ok [] else .error .attributeError
    | some _ => .error .typeError
  | _ => .error .attributeError

/-- `reported_by_fixture`. -/
def reportedByFixture (results : Json F) : Except GateError (List (String × List (Fields F))) := do
  let entries ← testEntries results
  let keyed ← entries.mapM fun entry => do return (fixtureStem (← textOf entry "notebook"), entry)
  return Grouping.group keyed

/-- A problem, with the data its message is made of. -/
inductive Problem where
  | noEntries (results : String)
  | noFixtures (directory : String)
  | zeroTests (stem : String)
  | allTests (stem : String) (want : Nat)
  | unknownFixture (stem : String) (entries : Nat)
  | noDiscoverable (stem : String) (entries : Nat)
  | duplicate (stem method name : String)
  | notCovering (stem name status : String)
  | missing (stem name : String)
  | orphan (stem name : String)
  | absent (stem : String) (want : Nat)
deriving DecidableEq, Repr

structure Warning where
  stem : String
  name : String
  status : String
deriving DecidableEq, Repr

/-- What `check` returns. -/
structure Report where
  problems : List Problem
  warnings : List Warning
  counted : Nat
deriving DecidableEq, Repr

/-- What the loop over the entries of a fixture has found. -/
structure Coverage where
  covered : List String
  seen : List String
  problems : List Problem
  warnings : List Warning
  counted : Nat

def Coverage.empty : Coverage := ⟨[], [], [], [], 0⟩

/-- `_COVERING`. -/
def covering : List String := ["passed"]

/-- `_ALLOWED_WITH_WARNING`. -/
def allowedWithWarning : List String := ["xfailed"]

/-- One entry. Only a name that is declared as it stands may not be credited twice. -/
def Coverage.add (want : List String) (stem : String) (c : Coverage) (entry : String × String) :
    Coverage :=
  let (name, status) := entry
  let bare := stripClass P name
  let method := credit P want bare
  let exact := (status ∈ covering ∨ status ∈ allowedWithWarning) ∧ bare ∈ want
  if exact ∧ method ∈ c.seen then
    { c with problems := c.problems ++ [.duplicate stem method name] }
  else
    let c := if exact then { c with seen := c.seen.insert method } else c
    if status ∈ covering then
      { c with covered := c.covered.insert method, counted := c.counted + 1 }
    else if status ∈ allowedWithWarning then
      { c with
        covered := c.covered.insert method
        warnings := c.warnings ++ [⟨stem, name, status⟩]
        counted := c.counted + 1 }
    else { c with problems := c.problems ++ [.notCovering stem name status] }

/-- The name of an entry, and its status in lower case. -/
def readEntry (entry : Fields F) : Except GateError (String × String) := do
  let name ← textOf entry "test_name"
  let status ← textOf entry "status"
  return (name, String.ofList (status.toList.flatMap pyLower))

def isOpaque : List (Fields F) → Bool
  | [entry] =>
    match entry.lookup "test_name" with
    | some (.str name) => name = "all_tests"
    | _ => false
  | _ => false

def sortedNames (names : List String) : List String := names.insertionSort (· ≤ ·)

/-- The entries of one fixture against its source. -/
def checkFixture (expected : List (String × List String)) (stem : String)
    (entries : List (Fields F)) : Except GateError Report :=
  if entries.isEmpty then .ok ⟨[.zeroTests stem], [], 0⟩
  else if isOpaque entries then
    .ok ⟨[.allTests stem ((expected.lookup stem).getD []).length], [], 0⟩
  else match expected.lookup stem with
  | none => .ok ⟨[.unknownFixture stem entries.length], [], 0⟩
  | some [] => .ok ⟨[.noDiscoverable stem entries.length], [], 0⟩
  | some want => do
    let c ← entries.foldlM (fun c entry => do return c.add P want stem (← readEntry entry))
      Coverage.empty
    let missing := sortedNames (want.filter (· ∉ c.covered))
    let orphans := sortedNames (c.covered.filter (· ∉ want))
    return ⟨c.problems ++ missing.map (.missing stem) ++ orphans.map (.orphan stem),
      c.warnings, c.counted⟩

/-- `sorted(d.items())`. -/
def sortedItems {α : Type} (items : List (String × α)) : List (String × α) :=
  items.insertionSort (·.1 ≤ ·.1)

/-- A fixture with tests that no entry is about. -/
def absentProblem (reported : List String) (fixture : String × List String) : Option Problem :=
  if fixture.2 ≠ [] ∧ fixture.1 ∉ reported then some (.absent fixture.1 fixture.2.length) else none

/-- `check`, of results and a directory that are shown under these names. -/
def check (shown directory : String) (fixtures : Fixtures F) (results : Json F) :
    Except GateError Report := do
  let reported ← reportedByFixture results
  let expected ← sourceTestNames P fixtures
  if reported.isEmpty then return ⟨[.noEntries shown], [], 0⟩
  if expected.isEmpty then return ⟨[.noFixtures directory], [], 0⟩
  let reports ← (sortedItems reported).mapM fun item => checkFixture P expected item.1 item.2
  let absent := (sortedItems expected).filterMap (absentProblem (reported.map Prod.fst))
  return ⟨reports.flatMap Report.problems ++ absent, reports.flatMap Report.warnings,
    (reports.map Report.counted).sum⟩

end Results

end EsConnector.TierGate
