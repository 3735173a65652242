import EsConnector.GateVerdict

namespace EsConnector.TierGate
set_option autoImplicit true

variable {F : Type} (P : Python F)

/-- An entry of the results: its fixture, its name as reported, and its status in lower case. -/
structure Result where
  stem : String
  name : String
  status : String

/-- The name of a result without its classes. -/
def Result.bare (r : Result) : String := stripClass P r.name

/-- The entries that are about one fixture. -/
def about (rs : List Result) (stem : String) : List (String × String) :=
  (rs.filter fun r => r.stem = stem).map fun r => (r.name, r.status)

/-- A name is that of a test or, where the cases of the test cannot be read off the source, that of
one of its cases. -/
def Reports (tree : List (Statement F)) (d name : String) : Prop :=
  name = d ∨ (Unreadable P tree d ∧ ∃ pid, name = caseName d pid)

/-- What a clean verdict is to say of the results. -/
structure Vouched (fixtures : Fixtures F) (rs : List Result) (counted : Nat) : Prop where
  covered : ∀ file ∈ fixtures.files, ∀ d, Declares P file.2 d →
    ∃ r ∈ rs, r.stem = file.1 ∧ Ran r.status ∧ Reports P file.2 d (r.bare P)
  ran : ∀ r ∈ rs, Ran r.status
  declared : ∀ r ∈ rs, ∃ file ∈ fixtures.files, file.1 = r.stem ∧
    ∃ d, Declares P file.2 d ∧ Reports P file.2 d (r.bare P)
  once : ∀ file ∈ fixtures.files, ∀ d, Declares P file.2 d →
    rs.countP (fun r => r.stem = file.1 ∧ r.bare P = d) ≤ 1
  present : ∀ file ∈ fixtures.files, (∃ d, Declares P file.2 d) → ∃ r ∈ rs, r.stem = file.1
  counted : counted = rs.length

/-- A result that is not declared is a case of a test whose parameters cannot be read, and the test
that it falls back on has a result of its own. -/
def NoStandIn (fixtures : Fixtures F) (rs : List Result) : Prop :=
  ∀ r ∈ rs, ∀ file ∈ fixtures.files, file.1 = r.stem → ¬Declares P file.2 (r.bare P) →
    (∃ u pid, Unreadable P file.2 u ∧ r.bare P = caseName u pid) ∧
      ∃ own ∈ rs, own.stem = r.stem ∧ Reports P file.2 (sourceMethod P (r.bare P)) (own.bare P)

variable {P}

theorem about_eq_nil {rs : List Result} {stem : String} :
    about rs stem = [] ↔ ∀ r ∈ rs, r.stem ≠ stem := by
  rw [about, List.map_eq_nil_iff, List.filter_eq_nil_iff]
  simp

/-- A fixture that entries are about is one whose names are expected, and its entries match them. -/
def AllMatch (P : Python F) (expected : List (String × List String)) (rs : List Result) : Prop :=
  ∀ r ∈ rs, ∃ want, expected.lookup r.stem = some want ∧ Matches P want (about rs r.stem)

theorem mem_about {rs : List Result} {r : Result} (hr : r ∈ rs) :
    (r.name, r.status) ∈ about rs r.stem :=
  List.mem_map.mpr ⟨r, List.mem_filter.mpr ⟨hr, decide_eq_true rfl⟩, rfl⟩

theorem of_mem_about {rs : List Result} {stem : String} {e : String × String}
    (he : e ∈ about rs stem) : ∃ r ∈ rs, r.stem = stem ∧ r.name = e.1 ∧ r.status = e.2 := by
  obtain ⟨r, hr, rfl⟩ := List.mem_map.mp he
  obtain ⟨hr, hstem⟩ := List.mem_filter.mp hr
  exact ⟨r, hr, of_decide_eq_true hstem, rfl, rfl⟩

theorem Matches.countP_le_one {want : List String} {rs : List Result} {stem d : String}
    (h : Matches P want (about rs stem)) (hd : d ∈ want) :
    rs.countP (fun r => r.stem = stem ∧ r.bare P = d) ≤ 1 := by
  have hcount := List.nodup_iff_count_le_one.mp h.once d
  rw [List.count_filter (by simpa using hd), about, List.map_map, List.count_eq_countP,
    List.countP_map, List.countP_filter] at hcount
  refine (List.countP_mono_left fun r _ hr => ?_).trans hcount
  obtain ⟨hstem, hbare⟩ := of_decide_eq_true hr
  simp [hstem, ← hbare, Result.bare]

variable {fixtures : Fixtures F} {expected : List (String × List String)} {rs : List Result}

/-- The entries about a fixture match what it declares, if there are any. -/
theorem AllMatch.of_file (h : AllMatch P expected rs)
    (hexpected : sourceTestNames P fixtures = .ok expected) {file : String × List (Statement F)}
    (hfile : file ∈ fixtures.files) {r : Result} (hr : r ∈ rs) (hstem : r.stem = file.1) :
    ∃ want, (∀ d, d ∈ want ↔ Declares P file.2 d) ∧ Matches P want (about rs file.1) := by
  obtain ⟨want, hlookup, -, hwant⟩ := sourceTestNames_of_file hexpected hfile
  obtain ⟨want', hlookup', hmatches⟩ := h r hr
  rw [hstem] at hlookup' hmatches
  cases hlookup.symm.trans hlookup'
  exact ⟨want, hwant, hmatches⟩

theorem Fixtures.eq_of_stem {file file' : String × List (Statement F)}
    (hfile : file ∈ fixtures.files) (hfile' : file' ∈ fixtures.files) (hstem : file.1 = file'.1) :
    file = file' :=
  List.inj_on_of_nodup_map fixtures.nodup hfile hfile' hstem

theorem Matches.credited_method {want : List String} {stem : String} {r : Result}
    (h : Matches P want (about rs stem)) (hr : r ∈ rs) (hstem : r.stem = stem)
    (hbare : r.bare P ∉ want) : sourceMethod P (r.bare P) ∈ want := by
  have hcredit := h.credited _ (hstem ▸ mem_about hr)
  rwa [← Result.bare, credit, if_neg hbare] at hcredit

theorem Vouched.noStandIn (hexpected : sourceTestNames P fixtures = .ok expected)
    (hmatch : AllMatch P expected rs) {counted : Nat} (h : Vouched P fixtures rs counted) :
    NoStandIn P fixtures rs := by
  intro r hr file hfile hstem hundeclared
  obtain ⟨want, hwant, hmatches⟩ := hmatch.of_file hexpected hfile hr hstem.symm
  constructor
  · obtain ⟨file', hfile', hstem', d, hd, hreports⟩ := h.declared r hr
    obtain rfl := Fixtures.eq_of_stem hfile' hfile (hstem'.trans hstem.symm)
    rcases hreports with hsame | ⟨hunreadable, pid, hcase⟩
    · exact absurd (hsame ▸ hd) hundeclared
    · exact ⟨d, pid, hunreadable, hcase⟩
  · have hmethod := hmatches.credited_method hr hstem.symm fun hmem =>
      hundeclared ((hwant _).mp hmem)
    obtain ⟨own, hown, hownStem, -, hreports⟩ := h.covered file hfile _ ((hwant _).mp hmethod)
    exact ⟨own, hown, hownStem.trans hstem, hreports⟩

theorem NoStandIn.vouched (hexpected : sourceTestNames P fixtures = .ok expected)
    (hmatch : AllMatch P expected rs)
    (hpresent : ∀ fixture ∈ expected, fixture.2 ≠ [] → ∃ r ∈ rs, r.stem = fixture.1)
    (h : NoStandIn P fixtures rs) : Vouched P fixtures rs rs.length := by
  have hran (r) (hr : r ∈ rs) : Ran r.status := by
    obtain ⟨want, -, hmatches⟩ := hmatch r hr
    exact hmatches.ran _ (mem_about hr)
  have hthere (file) (hfile : file ∈ fixtures.files) (hsome : ∃ d, Declares P file.2 d) :
      ∃ r ∈ rs, r.stem = file.1 := by
    obtain ⟨want, -, hmem, hwant⟩ := sourceTestNames_of_file hexpected hfile
    obtain ⟨d, hd⟩ := hsome
    exact hpresent _ hmem (List.ne_nil_of_mem ((hwant d).mpr hd))
  refine ⟨?_, hran, ?_, ?_, hthere, rfl⟩
  · intro file hfile d hd
    obtain ⟨r, hr, hstem⟩ := hthere file hfile ⟨d, hd⟩
    obtain ⟨want, hwant, hmatches⟩ := hmatch.of_file hexpected hfile hr hstem
    obtain ⟨e, he, hcredit⟩ := hmatches.covered d ((hwant d).mpr hd)
    obtain ⟨r, hr, hstem, hname, -⟩ := of_mem_about he
    rw [← hname, ← Result.bare] at hcredit
    by_cases hbare : r.bare P ∈ want
    · rw [credit, if_pos hbare] at hcredit
      exact ⟨r, hr, hstem, hran r hr, .inl hcredit⟩
    · -- the name falls back on a test that has a result of its own
      rw [credit, if_neg hbare] at hcredit
      obtain ⟨-, own, hown, hownStem, hreports⟩ :=
        h r hr file hfile hstem.symm fun hdeclared => hbare ((hwant _).mpr hdeclared)
      exact ⟨own, hown, hownStem.trans hstem, hran own hown, hcredit ▸ hreports⟩
  · intro r hr
    obtain ⟨want, hlookup, hmatches⟩ := hmatch r hr
    obtain ⟨file, hfile, hstem, hwant⟩ := sourceTestNames_lookup hexpected hlookup
    refine ⟨file, hfile, hstem, ?_⟩
    by_cases hdeclared : Declares P file.2 (r.bare P)
    · exact ⟨_, hdeclared, .inl rfl⟩
    · obtain ⟨⟨u, pid, hunreadable, hcase⟩, -⟩ := h r hr file hfile hstem hdeclared
      exact ⟨u, hunreadable.declares, .inr ⟨hunreadable, pid, hcase⟩⟩
  · intro file hfile d hd
    obtain ⟨r, hr, hstem⟩ := hthere file hfile ⟨d, hd⟩
    obtain ⟨want, hwant, hmatches⟩ := hmatch.of_file hexpected hfile hr hstem
    exact hmatches.countP_le_one ((hwant d).mpr hd)

section Reads

variable [PyFloat F]

def readResult (entry : Fields F) : Except GateError Result := do
  let stem := fixtureStem (← textOf entry "notebook")
  let read ← readEntry entry
  return ⟨stem, read.1, read.2⟩

/-- The entries of a results file. -/
def resultsIn (results : Json F) : Except GateError (List Result) := do
  (← testEntries results).mapM readResult

def keyed (entry : Fields F) : Except GateError (String × Fields F) := do
  return (fixtureStem (← textOf entry "notebook"), entry)

theorem readEntry_values {entries : List (Fields F)} {pairs : List (String × Fields F)}
    (hpairs : entries.mapM keyed = .ok pairs) {rs : List Result}
    (hrs : entries.mapM readResult = .ok rs) (stem : String) :
    (Grouping.valuesAt pairs stem).mapM readEntry = .ok (about rs stem) := by
  induction entries generalizing pairs rs with
  | nil =>
    cases hpairs
    cases hrs
    rfl
  | cons entry entries ih =>
    rw [List.mapM_cons] at hpairs hrs
    obtain ⟨pair, hpair, hpairs⟩ := bind_ok hpairs
    obtain ⟨pairs, hrest, hpairs⟩ := bind_ok hpairs
    cases hpairs
    obtain ⟨r, hr, hrs⟩ := bind_ok hrs
    obtain ⟨rs, hrest', hrs⟩ := bind_ok hrs
    cases hrs
    obtain ⟨notebook, hnotebook, hpair⟩ := bind_ok hpair
    obtain rfl : (fixtureStem notebook, entry) = pair := Except.ok.inj hpair
    obtain ⟨notebook', hnotebook', hr⟩ := bind_ok hr
    obtain rfl := Except.ok.inj (hnotebook.symm.trans hnotebook')
    obtain ⟨read, hread, hr⟩ := bind_ok hr
    obtain rfl : ⟨fixtureStem notebook, read.1, read.2⟩ = r := Except.ok.inj hr
    have ih := ih hrest hrest'
    rw [Grouping.valuesAt] at ih ⊢
    by_cases hstem : fixtureStem notebook = stem
    · rw [List.filter_cons_of_pos (by simpa using hstem), List.map_cons, List.mapM_cons, hread,
        ok_bind, ih, about, about, List.filter_cons_of_pos (by simpa using hstem)]
      rfl
    · rw [List.filter_cons_of_neg (by simpa using hstem), ih, about, about,
        List.filter_cons_of_neg (by simpa using hstem)]

theorem readResults_of_groups {entries : List (Fields F)} {pairs : List (String × Fields F)}
    (hpairs : entries.mapM keyed = .ok pairs)
    (hgroups : ∀ stem, Grouping.valuesAt pairs stem ≠ [] →
      ∃ read, (Grouping.valuesAt pairs stem).mapM readEntry = .ok read) :
    ∃ rs, entries.mapM readResult = .ok rs := by
  apply mapM_ok_of_forall
  intro entry hentry
  obtain ⟨pair, hmem, hpair⟩ := mapM_ok hpairs entry hentry
  obtain ⟨notebook, hnotebook, hpair⟩ := bind_ok hpair
  obtain rfl : (fixtureStem notebook, entry) = pair := Except.ok.inj hpair
  have hvalue : entry ∈ Grouping.valuesAt pairs (fixtureStem notebook) :=
    List.mem_map.mpr ⟨_, List.mem_filter.mpr ⟨hmem, decide_eq_true rfl⟩, rfl⟩
  obtain ⟨read, hread⟩ := hgroups _ (List.ne_nil_of_mem hvalue)
  obtain ⟨e, -, he⟩ := mapM_ok hread entry hvalue
  refine ⟨⟨fixtureStem notebook, e.1, e.2⟩, ?_⟩
  rw [readResult, hnotebook, ok_bind, he]
  rfl

theorem sortedItems_mem {α : Type} {items : List (String × α)} {item : String × α} :
    item ∈ sortedItems items ↔ item ∈ items := List.mem_insertionSort _

theorem check_groups {expected : List (String × List String)}
    {groups : List (String × List (Fields F))} {reports : List Report}
    (hreports : (sortedItems groups).mapM (fun item => checkFixture P expected item.1 item.2) =
      .ok reports) (hnone : reports.flatMap Report.problems = []) :
    (∀ g ∈ groups, ∃ want read, expected.lookup g.1 = some want ∧ g.2.mapM readEntry = .ok read ∧
      Matches P want read) ∧
    (reports.map Report.counted).sum = (groups.map fun g => g.2.length).sum := by
  have hnone := List.flatMap_eq_nil_iff.mp hnone
  constructor
  · intro g hg
    obtain ⟨report, hmem, hreport⟩ := mapM_ok hreports g (sortedItems_mem.mpr hg)
    obtain ⟨want, read, hlookup, hread, hmatches, -⟩ := checkFixture_ok hreport (hnone report hmem)
    exact ⟨want, read, hlookup, hread, hmatches⟩
  · have hcounted : reports.map Report.counted = (sortedItems groups).map fun g => g.2.length := by
      refine mapM_ok_map (fun g _ report hmem hreport => ?_) hreports
      obtain ⟨want, read, -, hread, -, hcounted⟩ := checkFixture_ok hreport (hnone report hmem)
      rw [hcounted, mapM_ok_length hread]
    rw [hcounted]
    exact ((List.perm_insertionSort _ groups).map _).sum_nat

/-- What a verdict without problems has compared: all entries, with what all fixtures declare. -/
theorem check_ok {shown directory : String} {fixtures : Fixtures F} {results : Json F}
    {report : Report} (h : check P shown directory fixtures results = .ok report)
    (hnone : report.problems = []) :
    ∃ expected rs, sourceTestNames P fixtures = .ok expected ∧ resultsIn results = .ok rs ∧
      AllMatch P expected rs ∧ report.counted = rs.length ∧
      ∀ fixture ∈ expected, fixture.2 ≠ [] → ∃ r ∈ rs, r.stem = fixture.1 := by
  rw [check] at h
  obtain ⟨groups, hgroups, h⟩ := bind_ok h
  obtain ⟨expected, hexpected, h⟩ := bind_ok h
  rw [reportedByFixture] at hgroups
  obtain ⟨entries, hentries, hgroups⟩ := bind_ok hgroups
  obtain ⟨pairs, hpairs, hgroups⟩ := bind_ok hgroups
  obtain rfl : Grouping.group pairs = groups := Except.ok.inj hgroups
  have hgroup := Grouping.grouped_group pairs
  dsimp only at h
  split at h
  · cases h
    cases hnone
  split at h
  · cases h
    cases hnone
  obtain ⟨reports, hreports, h⟩ := bind_ok h
  obtain rfl := Except.ok.inj h
  obtain ⟨hproblems, habsent⟩ := List.append_eq_nil_iff.mp hnone
  obtain ⟨hmatch, hcounted⟩ := check_groups hreports hproblems
  have hvalues (stem) (hne : Grouping.valuesAt pairs stem ≠ []) :=
    hmatch (stem, Grouping.valuesAt pairs stem) ((hgroup.mem _ _).mpr ⟨hne, rfl⟩)
  obtain ⟨rs, hrs⟩ := readResults_of_groups hpairs fun stem hne => by
    obtain ⟨want, read, -, hread, -⟩ := hvalues stem hne
    exact ⟨read, hread⟩
  have habout (stem) : Grouping.valuesAt pairs stem = [] ↔ about rs stem = [] := by
    have hlength := mapM_ok_length (readEntry_values hpairs hrs stem)
    rw [← List.length_eq_zero_iff, ← List.length_eq_zero_iff, hlength]
  refine ⟨expected, rs, hexpected, ?_, ?_, ?_, ?_⟩
  · rw [resultsIn, hentries, ok_bind, hrs]
  · intro r hr
    have hne : Grouping.valuesAt pairs r.stem ≠ [] := fun hnil =>
      about_eq_nil.mp ((habout r.stem).mp hnil) r hr rfl
    obtain ⟨want, read, hlookup, hread, hmatches⟩ := hvalues r.stem hne
    obtain rfl := Except.ok.inj (hread.symm.trans (readEntry_values hpairs hrs r.stem))
    exact ⟨want, hlookup, hmatches⟩
  · rw [hcounted, hgroup.total, mapM_ok_length hpairs, mapM_ok_length hrs]
  · intro fixture hfixture hne
    by_contra hnone
    have hnil := (habout fixture.1).mpr (about_eq_nil.mpr fun r hr hstem => hnone ⟨r, hr, hstem⟩)
    have hreported : fixture.1 ∉ (Grouping.group pairs).map Prod.fst := fun hmem =>
      (hgroup.key_iff _).mp hmem hnil
    have hfound := List.filterMap_eq_nil_iff.mp habsent fixture (sortedItems_mem.mpr hfixture)
    rw [absentProblem, if_pos ⟨hne, hreported⟩] at hfound
    cases hfound

/-- A verdict without problems is right just where no result stands in for a test that it is not a
case of. -/
theorem gate_sound_iff (P : Python F) (shown directory : String) (fixtures : Fixtures F)
    (results : Json F) (warnings : List Warning) (counted : Nat)
    (h : check P shown directory fixtures results = .ok ⟨[], warnings, counted⟩) :
    ∃ rs, resultsIn results = .ok rs ∧ (Vouched P fixtures rs counted ↔ NoStandIn P fixtures rs) := by
  obtain ⟨expected, rs, hexpected, hrs, hmatch, hcounted, hpresent⟩ := check_ok h rfl
  obtain rfl : counted = rs.length := hcounted
  exact ⟨rs, hrs, fun hvouched => hvouched.noStandIn hexpected hmatch,
    fun hnone => hnone.vouched hexpected hmatch hpresent⟩

/-- Python, of the values that are integers. -/
def plainPython : Python Empty where
  repr
    | .constant (.int i) => toString i
    | _ => ""
  item _ _ := .error .typeError
  isAlnum _ := false

/-- A fixture with one class. -/
def oneClass (stem : String) (methods : List (TestMethod Empty)) : Fixtures Empty where
  files := [(stem, [.classDef (methods.map .method)])]
  nodup := List.nodup_singleton _

def entryOf (notebook : String) (e : String × String) : Json Empty :=
  .dict [("notebook", .str notebook), ("test_name", .str e.1), ("status", .str e.2)]

/-- The results of one fixture. -/
def resultsOf (notebook : String) (entries : List (String × String)) : Json Empty :=
  .dict [("tests", .list (entries.map (entryOf notebook)))]

/-- A test that is parametrized over a list that has a name. -/
def overNamedList : TestMethod Empty where
  name := "test_b"
  decorators := [.call (.attribute (.name "mark") "parametrize")
    [.constant (.str "x"), .name "PARAMS"] []]

def twoTests : Fixtures Empty := oneClass "test_thing" [⟨"test_a", []⟩, overNamedList]

theorem two_tests_vouched : ∃ rs,
    resultsIn (resultsOf "/Workspace/test_thing"
      [("TestThing.test_a", "passed"), ("TestThing.test_b[1]", "xfailed")]) = .ok rs ∧
    Vouched plainPython twoTests rs 2 := by
  obtain ⟨rs, hrs, hvouched⟩ := gate_sound_iff plainPython "results.json" "integration_tests" twoTests
    (resultsOf "/Workspace/test_thing"
      [("TestThing.test_a", "passed"), ("TestThing.test_b[1]", "xfailed")])
    [⟨"test_thing", "TestThing.test_b[1]", "xfailed"⟩] 2 rfl
  refine ⟨rs, hrs, hvouched.mpr ?_⟩
  obtain rfl : [⟨"test_thing", "TestThing.test_a", "passed"⟩,
      ⟨"test_thing", "TestThing.test_b[1]", "xfailed"⟩] = rs := Except.ok.inj hrs
  have hfirst : Result.bare plainPython ⟨"test_thing", "TestThing.test_a", "passed"⟩ = "test_a" := by
    decide
  have hsecond : Result.bare plainPython ⟨"test_thing", "TestThing.test_b[1]", "xfailed"⟩ =
      caseName "test_b" "1" := by
    decide
  intro r hr file hfile hstem hundeclared
  obtain rfl := List.mem_singleton.mp hfile
  rcases List.mem_pair.mp hr with rfl | rfl
  · refine absurd ?_ hundeclared
    exact ⟨⟨"test_a", []⟩, List.mem_cons_self, some ["test_a"], rfl, List.mem_singleton.mpr hfirst⟩
  · have hunreadable : Unreadable plainPython
        [.classDef ([⟨"test_a", []⟩, overNamedList].map .method)] "test_b" :=
      ⟨overNamedList, List.mem_cons_of_mem _ List.mem_cons_self, rfl, rfl⟩
    refine ⟨⟨"test_b", "1", hunreadable, hsecond⟩, _, hr, rfl, .inr ?_⟩
    have hmethod : sourceMethod plainPython (caseName "test_b" "1") = "test_b" := by
      decide
    rw [hsecond, hmethod]
    exact ⟨hunreadable, "1", rfl⟩

/-- The results of a parametrized `test_a` pass for a `test_a` that is not. -/
theorem case_stands_in : ∃ rs,
    check plainPython "results.json" "integration_tests" (oneClass "test_thing" [⟨"test_a", []⟩])
      (resultsOf "/Workspace/test_thing" [("TestThing.test_a[1]", "passed")]) =
      .ok ⟨[], [], 1⟩ ∧
    resultsIn (resultsOf "/Workspace/test_thing" [("TestThing.test_a[1]", "passed")]) = .ok rs ∧
    ¬Vouched plainPython (oneClass "test_thing" [⟨"test_a", []⟩]) rs 1 := by
  refine ⟨[⟨"test_thing", "TestThing.test_a[1]", "passed"⟩], rfl, rfl, ?_⟩
  intro h
  obtain ⟨file, hfile, -, d, ⟨m, hm, expansions, hexpansions, hd⟩, hreports⟩ :=
    h.declared _ List.mem_cons_self
  obtain rfl := List.mem_singleton.mp hfile
  obtain rfl : m = ⟨"test_a", []⟩ := List.mem_singleton.mp hm
  obtain rfl : some ["test_a"] = expansions := Except.ok.inj hexpansions
  obtain rfl : d = "test_a" := List.mem_singleton.mp hd
  rcases hreports with hname | ⟨⟨m, hm, -, hnone⟩, -⟩
  · exact absurd hname (by decide)
  · obtain rfl : m = ⟨"test_a", []⟩ := List.mem_singleton.mp hm
    cases hnone

end Reads

end EsConnector.TierGate
