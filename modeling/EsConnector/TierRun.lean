import EsConnector.GateComplete
import EsConnector.ReportedNames
import Mathlib.Data.List.Dedup

namespace EsConnector.TierGate
set_option autoImplicit true

variable {F : Type} {N : NameChars}

section Ids

variable [PyFloat F]

def Constant.truthy : Constant F → Bool
  | .none => false
  | .ellipsis => true
  | .bool b => b
  | .int i => i != 0
  | .float x | .imaginary x => !PyFloat.isZero x
  | .str s => s != ""
  | .bytes b => !b.isEmpty

/-- `bool(v)`. -/
def Literal.truthy : Literal F → Bool
  | .constant c | .negated c => c.truthy
  | .complex real _ imaginary => real.truthy || !PyFloat.isZero imaginary
  | .tuple xs | .list xs | .set xs => !xs.isEmpty
  | .dict items => !items.isEmpty

/-- The values of a parameter set, of which there is one where it is not a sequence. -/
def parameterValues : Literal F → List (Literal F)
  | .list xs | .tuple xs => xs
  | v => [v]

variable (P : Python F)

/-- `"-".join(str(v) for v in values)`. -/
def joinedValues (values : List (Literal F)) : String := "-".intercalate (values.map P.str)

/-- `param_set["id"] or "-".join(str(v) for v in values)`. -/
def frameworkId (pid : Option (Literal F)) (values : List (Literal F)) : String :=
  match pid with
  | some v => if v.truthy then P.str v else joinedValues P values
  | none => joinedValues P values

/-- The elements of a list or a tuple that is a literal. -/
def literalSequence (e : PyExpr F) : Option (List (Literal F)) :=
  match literalEval e with
  | some (.list xs) | some (.tuple xs) => some xs
  | _ => none

/-- The ids that a mark gives, if they are literals. There may be more in a dictionary that is spread
into the keywords. -/
def givenIds (keywords : List (Option String × PyExpr F)) : Option (List (Literal F)) :=
  match keywords.filter fun kw => kw.1 = none ∨ kw.1 = some "ids" with
  | [] => some []
  | [(some _, given)] =>
    match literalEval given with
    | some (.constant .none) => some []
    | _ => literalSequence given
  | _ => none

/-- The parameter sets and the ids of a mark whose lists are literals. -/
def literalLists (argvalues : PyExpr F) (keywords : List (Option String × PyExpr F)) :
    Option (List (Literal F) × List (Literal F)) := do
  return (← literalSequence argvalues, ← givenIds keywords)

/-- The ids of the cases that lists of literals make. -/
def literalIds (sets ids : List (Literal F)) : List String :=
  sets.zipIdx.map fun s => frameworkId P ids[s.2]? (parameterValues s.1)

end Ids

/-- The decorators of a method are applied from the bottom, so this is the first of its marks. -/
def bottomMark (m : TestMethod F) : Option (PyExpr F × List (Option String × PyExpr F)) :=
  (m.decorators.filterMap parametrizeMark).getLast?

def bodyMethods (body : List (ClassItem F)) : List (TestMethod F) :=
  body.filterMap fun
    | .method m => some m
    | .other => none

/-- A fixture module with one concrete fixture class, the bases that its methods are looked up in
behind it, and the ids that its tests have at run time where their lists are not literals. -/
structure TierFixture (F : Type) (N : NameChars) where
  stem : PyName N
  tree : List (Statement F)
  className : PyName N
  body : List (ClassItem F)
  bases : List (List (ClassItem F))
  runtimeIds : String → List String
  /-- The class is at the top level of the module. -/
  top : .classDef body ∈ tree
  /-- Methods are named as Python names them. -/
  sourceNames : ∀ m ∈ testMethods tree, N.isName m.name.toList
  baseNames : ∀ base ∈ bases, ∀ m ∈ bodyMethods base, N.isName m.name.toList

/-- `getattr` of a method: the first class that has it, and the last definition there. -/
def TierFixture.attribute (fx : TierFixture F N) (name : String) : Option (TestMethod F) :=
  (fx.body :: fx.bases).findSome? fun body => (bodyMethods body).reverse.find? (·.name = name)

/-- `_get_test_methods`: the names in `dir(self)` that the framework takes for tests, and what they
stand for. -/
def TierFixture.visibleTests (fx : TierFixture F N) : List (TestMethod F) :=
  let names := ((fx.body :: fx.bases).flatMap bodyMethods).map (·.name)
  (names.dedup.filter isDiscoverableTest).filterMap fx.attribute

theorem mem_testMethods {tree : List (Statement F)} {m : TestMethod F} :
    m ∈ testMethods tree ↔
      ∃ body, .classDef body ∈ tree ∧ m ∈ bodyMethods body ∧ isDiscoverableTest m.name = true := by
  rw [testMethods, List.mem_flatMap]
  constructor
  · rintro ⟨statement, hstatement, hm⟩
    cases statement with
    | classDef body =>
      obtain ⟨item, hitem, hm⟩ := List.mem_filterMap.mp hm
      cases item with
      | method m' =>
        obtain ⟨htest, hm⟩ := Option.ite_none_right_eq_some.mp hm
        obtain rfl := Option.some.inj hm
        exact ⟨body, hstatement, List.mem_filterMap.mpr ⟨_, hitem, rfl⟩, htest⟩
      | other => cases hm
    | other => cases hm
  · rintro ⟨body, hbody, hm, htest⟩
    obtain ⟨item, hitem, hm⟩ := List.mem_filterMap.mp hm
    refine ⟨_, hbody, List.mem_filterMap.mpr ⟨item, hitem, ?_⟩⟩
    cases item with
    | method m' =>
      obtain rfl := Option.some.inj hm
      exact if_pos htest
    | other => cases hm

variable {fx : TierFixture F N}

theorem attribute_some {name : String} {m : TestMethod F} (h : fx.attribute name = some m) :
    m.name = name ∧ ∃ body ∈ fx.body :: fx.bases, m ∈ bodyMethods body := by
  obtain ⟨body, hbody, hfind⟩ := List.exists_of_findSome?_eq_some h
  refine ⟨by simpa using List.find?_some hfind, body, hbody, ?_⟩
  exact List.mem_reverse.mp (List.mem_of_find?_eq_some hfind)

theorem mem_visibleTests {m : TestMethod F} :
    m ∈ fx.visibleTests ↔ isDiscoverableTest m.name = true ∧ fx.attribute m.name = some m := by
  simp only [TierFixture.visibleTests, List.mem_filterMap, List.mem_filter, List.mem_dedup]
  constructor
  · rintro ⟨name, ⟨-, htest⟩, hattr⟩
    obtain ⟨rfl, -⟩ := attribute_some hattr
    exact ⟨htest, hattr⟩
  · rintro ⟨htest, hattr⟩
    obtain ⟨-, body, hbody, hmem⟩ := attribute_some hattr
    exact ⟨m.name, ⟨List.mem_map_of_mem (List.mem_flatMap_of_mem hbody hmem), htest⟩, hattr⟩

/-- A name is looked up once, so two visible tests differ in their names. -/
theorem visibleTests_pairwise : fx.visibleTests.Pairwise fun m m' => m.name ≠ m'.name := by
  apply List.Pairwise.filterMap
  · intro name name' hne m hm m' hm'
    rw [(attribute_some hm).1, (attribute_some hm').1]
    exact hne
  · exact (List.nodup_dedup _).filter _

theorem eq_of_visible {m m' : TestMethod F} (hm : m ∈ fx.visibleTests) (hm' : m' ∈ fx.visibleTests)
    (hname : m.name = m'.name) : m = m' := by
  have hattr := (mem_visibleTests.mp hm).2
  rw [hname, (mem_visibleTests.mp hm').2] at hattr
  exact (Option.some.inj hattr).symm

/-- The names of tests are names of Python. -/
theorem visible_isName {m : TestMethod F} (hm : m ∈ fx.visibleTests) :
    N.isName m.name.toList = true := by
  obtain ⟨htest, hattr⟩ := mem_visibleTests.mp hm
  obtain ⟨-, body, hbody, hmem⟩ := attribute_some hattr
  rcases List.mem_cons.mp hbody with rfl | hbody
  · exact fx.sourceNames m (mem_testMethods.mpr ⟨fx.body, fx.top, hmem, htest⟩)
  · exact fx.baseNames body hbody m hmem

variable [PyFloat F]

/-- The ids of the cases of a test, if it is parametrized. -/
def TierFixture.caseIds (P : Python F) (fx : TierFixture F N) (m : TestMethod F) :
    Option (List String) :=
  (bottomMark m).map fun mark =>
    match literalLists mark.1 mark.2 with
    | some (sets, ids) => literalIds P sets ids
    | none => fx.runtimeIds m.name

/-- The tests that come of a method. -/
def TierFixture.testNames (P : Python F) (fx : TierFixture F N) (m : TestMethod F) : List String :=
  match fx.caseIds P m with
  | none => [m.name]
  | some pids => pids.map (caseName m.name)

/-- What the framework reports of a fixture, as `Class.m` or `Class.m[pid]`. -/
def TierFixture.reportedNames (P : Python F) (fx : TierFixture F N) : List String :=
  (fx.visibleTests.flatMap (fx.testNames P)).map fun test => reportedName [fx.className.text] test

/-- The fixtures of a tier run. -/
structure Tier (F : Type) (N : NameChars) where
  fixtures : List (TierFixture F N)
  nodup : (fixtures.map fun fx => fx.stem.text).Nodup

/-- What the gate finds in the directory of the fixtures. -/
def Tier.sources (tier : Tier F N) : Fixtures F where
  files := tier.fixtures.map fun fx => (fx.stem.text, fx.tree)
  nodup := by
    rw [List.map_map]
    exact tier.nodup

/-- The entries of a run, each with its fixture. -/
def Tier.entries (P : Python F) (tier : Tier F N) : List (String × String) :=
  tier.fixtures.flatMap fun fx => (fx.reportedNames P).map fun name => (fx.stem.text, name)

/-- A row of the results that reports a test of a fixture as passed. -/
structure PassedRow (row : Fields F) (entry : String × String) : Prop where
  notebook : ∃ front suffix, (front = "" ∨ ∃ directory, front = directory ++ "/") ∧
    (suffix = "" ∨ suffix = ".py") ∧
    row.lookup "notebook" = some (.str (front ++ entry.1 ++ suffix))
  testName : row.lookup "test_name" = some (.str entry.2)
  status : row.lookup "status" = some (.str "passed")

/-- The results of a healthy run: they are just the entries of the framework, all of them passed. -/
structure HealthyResults (P : Python F) (tier : Tier F N) (results : Json F) : Prop where
  rows : ∃ fields rows entries, results = .dict fields ∧
    fields.lookup "tests" = some (.list (rows.map .dict)) ∧
    List.Forall₂ PassedRow rows entries ∧ entries.Perm (tier.entries P)

section Rows

theorem PyName.ne_slash (n : PyName N) : ∀ c ∈ n.text.toList, c ≠ '/' := by
  intro c hc rfl
  cases n.isInside _ hc

theorem PyName.dotless (n : PyName N) : '.' ∉ n.text.toList :=
  fun hmem => (NameChars.isInside_ne (n.isInside _ hmem)).1 rfl

theorem last_segment {front segment : List Char} (hfront : ∀ c ∈ front.getLast?, c = '/')
    (hne : segment ≠ []) (hsegment : ∀ c ∈ segment, c ≠ '/') :
    ((front ++ segment).rdropWhile (· = '/')).rtakeWhile (· ≠ '/') = segment := by
  have hlast : (front ++ segment).rdropWhile (· = '/') = front ++ segment := by
    rw [List.rdropWhile_eq_self_iff]
    intro hsome
    rw [List.getLast_append_of_ne_nil _ hne]
    simpa using hsegment _ (List.getLast_mem hne)
  have hall : ∀ c ∈ segment.reverse, decide (c ≠ '/') = true := by
    intro c hc
    exact decide_eq_true (hsegment c (List.mem_reverse.mp hc))
  have hstop : front.reverse.takeWhile (· ≠ '/') = [] := by
    cases hreverse : front.reverse with
    | nil => rfl
    | cons c rest =>
      have hc : front.getLast? = some c := by rw [List.getLast?_eq_head?_reverse, hreverse]; rfl
      exact List.takeWhile_cons_of_neg (by simp [hfront c hc])
  rw [hlast, List.rtakeWhile, List.reverse_append, List.takeWhile_append_of_pos hall, hstop,
    List.append_nil, List.reverse_reverse]

theorem dropPySuffix_stem (stem : PyName N) {suffix : String}
    (h : suffix = "" ∨ suffix = ".py") :
    dropPySuffix (stem.text.toList ++ suffix.toList) = stem.text.toList := by
  rcases h with rfl | rfl
  · have hplain : ¬".py".toList <:+ stem.text.toList :=
      fun hsuffix => stem.dotless (hsuffix.subset (by decide))
    have hline : ¬".py".toList ++ [newline] <:+ stem.text.toList :=
      fun hsuffix => stem.dotless (hsuffix.subset (by decide))
    rw [String.toList_empty, List.append_nil, dropPySuffix, if_neg hplain, if_neg hline]
  · rw [dropPySuffix, if_pos (List.suffix_append _ _)]
    have hthree : ".py".toList.length = 3 := by decide
    rw [List.rdrop, List.length_append, hthree, Nat.add_sub_cancel, List.take_left]

theorem fixtureStem_notebook (stem : PyName N) {front suffix : String}
    (hfront : front = "" ∨ ∃ directory, front = directory ++ "/")
    (hsuffix : suffix = "" ∨ suffix = ".py") :
    fixtureStem (front ++ stem.text ++ suffix) = stem.text := by
  have hlast : ∀ c ∈ front.toList.getLast?, c = '/' := by
    intro c hc
    rcases hfront with rfl | ⟨directory, rfl⟩
    · cases hc
    · have hslash : "/".toList = ['/'] := rfl
      rw [String.toList_append, hslash, List.getLast?_concat] at hc
      exact (Option.some.inj hc).symm
  have hsegment : ∀ c ∈ stem.text.toList ++ suffix.toList, c ≠ '/' := by
    intro c hc
    rcases List.mem_append.mp hc with hc | hc
    · exact stem.ne_slash c hc
    · rcases hsuffix with rfl | rfl
      · cases hc
      · intro rfl
        exact absurd hc (by decide)
  have hne : stem.text.toList ++ suffix.toList ≠ [] := List.append_ne_nil_of_left_ne_nil stem.ne_nil _
  rw [fixtureStem, String.toList_append, String.toList_append, List.append_assoc,
    last_segment hlast hne hsegment, dropPySuffix_stem stem hsuffix, String.ofList_toList]

/-- A row is read as the entry that it reports. -/
theorem PassedRow.read {row : Fields F} {stem : PyName N} {name : String}
    (h : PassedRow row (stem.text, name)) :
    readResult row = .ok ⟨stem.text, name, "passed"⟩ := by
  obtain ⟨front, suffix, hfront, hsuffix, hnotebook⟩ := h.notebook
  have hlower : String.ofList ("passed".toList.flatMap pyLower) = "passed" := by decide
  have hentry : readEntry row = .ok (name, "passed") := by
    rw [readEntry, textOf, h.testName, textOf, h.status]
    exact congrArg (fun status => Except.ok (name, status)) hlower
  rw [readResult, textOf, hnotebook, ok_bind, fixtureStem_notebook stem hfront hsuffix, hentry]
  rfl

omit [PyFloat F] in
theorem testEntries_rows {fields : Fields F} {rows : List (Fields F)}
    (h : fields.lookup "tests" = some (.list (rows.map .dict))) :
    testEntries (.dict fields) = .ok rows := by
  rw [testEntries, h]
  apply mapM_of_forall₂
  rw [List.forall₂_map_left_iff, List.forall₂_same]
  exact fun row _ => rfl

/-- The entry of a passed test. -/
def passed (entry : String × String) : Result := ⟨entry.1, entry.2, "passed"⟩

theorem HealthyResults.read {P : Python F} {tier : Tier F N} {results : Json F}
    (h : HealthyResults P tier results) :
    ∃ entries : List (String × String), entries.Perm (tier.entries P) ∧
      resultsIn results = .ok (entries.map passed) := by
  obtain ⟨fields, rows, entries, rfl, htests, hrows, hperm⟩ := h.rows
  refine ⟨entries, hperm, ?_⟩
  rw [resultsIn, testEntries_rows htests, ok_bind]
  apply mapM_of_forall₂
  rw [List.forall₂_map_right_iff]
  have hstems : ∀ entry ∈ entries, ∃ stem : PyName N, stem.text = entry.1 := by
    intro entry hentry
    obtain ⟨fx, -, hfx⟩ := List.mem_flatMap.mp (hperm.mem_iff.mp hentry)
    obtain ⟨name, -, rfl⟩ := List.mem_map.mp hfx
    exact ⟨fx.stem, rfl⟩
  clear hperm htests
  induction hrows with
  | nil => exact .nil
  | @cons row entry rows entries hrow hrest ih =>
    obtain ⟨hentry, hentries⟩ := List.forall_mem_cons.mp hstems
    obtain ⟨stem, hstem⟩ := hentry
    obtain ⟨stemText, name⟩ := entry
    obtain rfl : stem.text = stemText := hstem
    exact .cons hrow.read (ih hentries)

end Rows

end EsConnector.TierGate
