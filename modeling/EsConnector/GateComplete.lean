import EsConnector.GateSound

namespace EsConnector.TierGate
set_option autoImplicit true

variable {F : Type} {P : Python F} {want : List String} {stem : String}

theorem mapM_of_forall₂ {α β ε : Type} {f : α → Except ε β} {xs : List α} {ys : List β}
    (h : List.Forall₂ (fun x y => f x = .ok y) xs ys) : xs.mapM f = .ok ys := by
  induction h with
  | nil => rfl
  | cons hx hrest ih =>
    rw [List.mapM_cons, hx, ok_bind, ih]
    rfl

theorem foldlM_of_read {ε α β σ : Type} {step : σ → β → σ} {read : α → Except ε β} {xs : List α}
    {ys : List β} (h : xs.mapM read = .ok ys) (s : σ) :
    xs.foldlM (fun s x => do return step s (← read x)) s = .ok (ys.foldl step s) := by
  induction xs generalizing ys s with
  | nil =>
    cases h
    rfl
  | cons x xs ih =>
    rw [List.mapM_cons] at h
    obtain ⟨y, hy, h⟩ := bind_ok h
    obtain ⟨rest, hrest, h⟩ := bind_ok h
    cases h
    rw [List.foldlM_cons, hy, List.foldl_cons]
    exact ih hrest (step s y)

theorem Coverage.problems_foldl {entries : List (String × String)} (hran : ∀ e ∈ entries, Ran e.2)
    (honce : ((entries.map fun e => stripClass P e.1).filter (· ∈ want)).Nodup) :
    (entries.foldl (Coverage.add P want stem) Coverage.empty).problems = [] := by
  induction entries using List.reverseRecOn with
  | nil => rfl
  | append_singleton entries e ih =>
    rw [List.map_append, List.filter_append, List.nodup_append] at honce
    have hnone := ih (fun e he => hran e (List.mem_append_left _ he)) honce.1
    have hholds := Coverage.holds_foldl hnone
    have hfirst (hwant : stripClass P e.1 ∈ want) :
        stripClass P e.1 ∉ (entries.foldl (Coverage.add P want stem) Coverage.empty).seen := by
      intro hseen
      obtain ⟨-, e', he', hname⟩ := (hholds.seen _).mp hseen
      have hbefore : stripClass P e.1 ∈ (entries.map fun e => stripClass P e.1).filter (· ∈ want) :=
        List.mem_filter.mpr ⟨List.mem_map.mpr ⟨e', he', hname⟩, decide_eq_true hwant⟩
      have hlast : stripClass P e.1 ∈ ([e].map fun e => stripClass P e.1).filter (· ∈ want) :=
        List.mem_filter.mpr ⟨List.mem_singleton.mpr rfl, decide_eq_true hwant⟩
      exact honce.2.2 _ hbefore _ hlast rfl
    rw [List.foldl_append, List.foldl_cons, List.foldl_nil]
    exact (Coverage.add_ran (hran e (by simp)) hfirst).1.trans hnone

/-- What a name is matched against matters as a set. -/
theorem Matches.congr {want' : List String} {entries entries' : List (String × String)}
    (hwant : ∀ d, d ∈ want ↔ d ∈ want') (hperm : entries.Perm entries')
    (h : Matches P want entries) : Matches P want' entries' := by
  have hcredit (name : String) : credit P want name = credit P want' name := by
    rw [credit, credit]
    simp only [hwant]
  constructor
  · intro e he
    exact h.ran e (hperm.mem_iff.mpr he)
  · intro d hd
    obtain ⟨e, he, hname⟩ := h.covered d ((hwant d).mpr hd)
    exact ⟨e, hperm.mem_iff.mp he, (hcredit _).symm.trans hname⟩
  · intro e he
    rw [← hcredit, ← hwant]
    exact h.credited e (hperm.mem_iff.mpr he)
  · have hnodup := h.once
    simp only [hwant] at hnodup
    exact ((hperm.map _).filter _).nodup_iff.mp hnodup

variable [PyFloat F] {expected : List (String × List String)}

theorem checkFixture_of_matches {entries : List (Fields F)} {read : List (String × String)}
    (hne : entries ≠ []) (hsingle : isOpaque entries = false)
    (hlookup : expected.lookup stem = some want) (hread : entries.mapM readEntry = .ok read)
    (h : Matches P want read) :
    ∃ report, checkFixture P expected stem entries = .ok report ∧ report.problems = [] := by
  have hlength := mapM_ok_length hread
  have hsome : want ≠ [] := by
    intro rfl
    cases read with
    | nil => exact hne (List.length_eq_zero_iff.mp hlength.symm)
    | cons e read => exact List.not_mem_nil (h.credited e List.mem_cons_self)
  have hproblems := @Coverage.problems_foldl _ P want stem read h.ran h.once
  have hholds := Coverage.holds_foldl hproblems
  have hempty : entries.isEmpty = false := List.isEmpty_eq_false_iff.mpr hne
  have hmissing : want.filter (· ∉ (read.foldl (Coverage.add P want stem) .empty).covered) = [] := by
    apply List.filter_eq_nil_iff.mpr
    intro d hd
    simpa using (hholds.covered d).mpr (h.covered d hd)
  have horphans : (read.foldl (Coverage.add P want stem) .empty).covered.filter (· ∉ want) = [] := by
    apply List.filter_eq_nil_iff.mpr
    intro m hm
    obtain ⟨e, he, rfl⟩ := (hholds.covered m).mp hm
    simpa using h.credited e he
  have hcheck : checkFixture P expected stem entries = (do
      let c ← entries.foldlM (fun c entry => do return c.add P want stem (← readEntry entry))
        Coverage.empty
      let missing := sortedNames (want.filter (· ∉ c.covered))
      let orphans := sortedNames (c.covered.filter (· ∉ want))
      return ⟨c.problems ++ missing.map (.missing stem) ++ orphans.map (.orphan stem),
        c.warnings, c.counted⟩) := by
    rw [checkFixture, hempty, hsingle, hlookup]
    cases want with
    | nil => exact absurd rfl hsome
    | cons d want => rfl
  rw [hcheck, foldlM_of_read hread]
  refine ⟨_, rfl, ?_⟩
  rw [hproblems, hmissing, horphans]
  rfl

theorem isOpaque_of_names {entries : List (Fields F)} {read : List (String × String)}
    (hread : entries.mapM readEntry = .ok read) (h : ∀ e ∈ read, e.1 ≠ "all_tests") :
    isOpaque entries = false := by
  rw [Bool.eq_false_iff]
  intro hsingle
  rw [isOpaque.eq_def] at hsingle
  split at hsingle
  · rename_i entry
    obtain ⟨e, he, hentry⟩ := mapM_ok hread entry List.mem_cons_self
    split at hsingle
    · rename_i name hname
      obtain ⟨name', hname', hentry⟩ := bind_ok hentry
      obtain ⟨status, -, hentry⟩ := bind_ok hentry
      obtain rfl := Except.ok.inj hentry
      rw [textOf, hname] at hname'
      obtain rfl := Except.ok.inj hname'
      exact h _ he (of_decide_eq_true hsingle)
    · cases hsingle
  · cases hsingle

theorem keyed_of_readResult {entry : Fields F} {r : Result} (h : readResult entry = .ok r) :
    ∃ pair, keyed entry = .ok pair := by
  obtain ⟨notebook, hnotebook, -⟩ := bind_ok h
  refine ⟨(fixtureStem notebook, entry), ?_⟩
  rw [keyed, hnotebook]
  rfl

/-- Grouped by fixture, the entries are read as the results about that fixture. -/
structure Gathers (pairs : List (String × Fields F)) (rs : List Result) : Prop where
  values : ∀ stem, (Grouping.valuesAt pairs stem).mapM readEntry = .ok (about rs stem)
  length : pairs.length = rs.length

theorem gathers_of_read {results : Json F} {rs : List Result} (hrs : resultsIn results = .ok rs) :
    ∃ pairs, reportedByFixture results = .ok (Grouping.group pairs) ∧ Gathers pairs rs := by
  obtain ⟨entries, hentries, hread⟩ := bind_ok hrs
  obtain ⟨pairs, hpairs⟩ := mapM_ok_of_forall fun entry hentry => by
    obtain ⟨r, -, hr⟩ := mapM_ok hread entry hentry
    exact keyed_of_readResult hr
  refine ⟨pairs, ?_, readEntry_values hpairs hread, ?_⟩
  · rw [reportedByFixture, hentries, ok_bind]
    exact congrArg (· >>= fun pairs => Except.ok (Grouping.group pairs)) hpairs
  · exact (mapM_ok_length hpairs).trans (mapM_ok_length hread).symm

section Gathered

variable {pairs : List (String × Fields F)} {rs : List Result} {results : Json F}
  {fixtures : Fixtures F} {expected : List (String × List String)} {shown directory : String}

theorem Gathers.empty_iff (h : Gathers pairs rs) :
    Grouping.valuesAt pairs stem = [] ↔ about rs stem = [] := by
  rw [← List.length_eq_zero_iff, ← List.length_eq_zero_iff, mapM_ok_length (h.values stem)]

theorem Gathers.key (h : Gathers pairs rs) {r : Result} (hr : r ∈ rs) :
    r.stem ∈ (Grouping.group pairs).map Prod.fst := by
  rw [(Grouping.grouped_group pairs).key_iff, Ne, h.empty_iff]
  exact fun hnil => about_eq_nil.mp hnil r hr rfl

/-- A fixture with results that match has no problem. -/
theorem Gathers.checkFixture (h : Gathers pairs rs) (hnames : ∀ r ∈ rs, r.name ≠ "all_tests")
    (hmatch : AllMatch P expected rs) {g : String × List (Fields F)} (hg : g ∈ Grouping.group pairs) :
    ∃ report, checkFixture P expected g.1 g.2 = .ok report ∧ report.problems = [] := by
  obtain ⟨hne, hg⟩ := ((Grouping.grouped_group pairs).mem g.1 g.2).mp hg
  rw [hg] at hne ⊢
  obtain ⟨r, hr, hstem⟩ : ∃ r ∈ rs, r.stem = g.1 := by
    by_contra hnone
    exact hne (h.empty_iff.mpr (about_eq_nil.mpr fun r hr hstem => hnone ⟨r, hr, hstem⟩))
  obtain ⟨want, hlookup, hmatches⟩ := hmatch r hr
  rw [hstem] at hlookup hmatches
  have hsingle := isOpaque_of_names (h.values g.1) fun e he => by
    obtain ⟨r, hr, -, hname, -⟩ := of_mem_about he
    exact hname ▸ hnames r hr
  exact checkFixture_of_matches hne hsingle hlookup (h.values g.1) hmatches

/-- A fixture with results is not absent. -/
theorem Gathers.absent (h : Gathers pairs rs)
    (hpresent : ∀ fixture ∈ expected, fixture.2 ≠ [] → ∃ r ∈ rs, r.stem = fixture.1) :
    (sortedItems expected).filterMap (absentProblem ((Grouping.group pairs).map Prod.fst)) = [] := by
  apply List.filterMap_eq_nil_iff.mpr
  intro fixture hmem
  apply if_neg
  rintro ⟨hne, habsent⟩
  obtain ⟨r, hr, hstem⟩ := hpresent fixture (sortedItems_mem.mp hmem) hne
  exact habsent (hstem ▸ h.key hr)

theorem check_of_match (hrs : resultsIn results = .ok rs) (hnames : ∀ r ∈ rs, r.name ≠ "all_tests")
    (hexpected : sourceTestNames P fixtures = .ok expected) (hsome : rs ≠ [])
    (hmatch : AllMatch P expected rs)
    (hpresent : ∀ fixture ∈ expected, fixture.2 ≠ [] → ∃ r ∈ rs, r.stem = fixture.1) :
    ∃ report, check P shown directory fixtures results = .ok report ∧ report.problems = [] := by
  obtain ⟨pairs, hreported, hgathers⟩ := gathers_of_read hrs
  have hfixture {g} (hg : g ∈ Grouping.group pairs) := hgathers.checkFixture hnames hmatch hg
  obtain ⟨reports, hreports⟩ := mapM_ok_of_forall fun g hg => by
    obtain ⟨report, hreport, -⟩ := hfixture (sortedItems_mem.mp hg)
    exact ⟨report, hreport⟩
  have hproblems : reports.flatMap Report.problems = [] := by
    apply List.flatMap_eq_nil_iff.mpr
    intro report hmem
    obtain ⟨g, hg, hreport⟩ := mapM_ok_mem hreports report hmem
    obtain ⟨report', hreport', hnone⟩ := hfixture (sortedItems_mem.mp hg)
    rw [Except.ok.inj (hreport.symm.trans hreport'), hnone]
  obtain ⟨r, hr⟩ := List.exists_mem_of_ne_nil _ hsome
  obtain ⟨want, hlookup, -⟩ := hmatch r hr
  have hgroups : (Grouping.group pairs).isEmpty = false := by
    rw [List.isEmpty_eq_false_iff]
    intro hnil
    have hmem := hgathers.key hr
    rw [hnil] at hmem
    cases hmem
  have hexpectedSome : expected.isEmpty = false := by
    cases expected with
    | nil => cases hlookup
    | cons e expected => rfl
  rw [check, hreported, ok_bind, hexpected, ok_bind, hgroups, hexpectedSome]
  refine ⟨_, congrArg (· >>= _) hreports, ?_⟩
  exact List.append_eq_nil_iff.mpr ⟨hproblems, hgathers.absent hpresent⟩

theorem results_of_clean {report : Report} (hrs : resultsIn results = .ok rs)
    (hexpected : sourceTestNames P fixtures = .ok expected)
    (hcheck : check P shown directory fixtures results = .ok report) (hnone : report.problems = []) :
    rs ≠ [] := by
  obtain ⟨pairs, hreported, hgathers⟩ := gathers_of_read hrs
  intro rfl
  obtain rfl := List.length_eq_zero_iff.mp hgathers.length
  rw [check, hreported, ok_bind, hexpected, ok_bind] at hcheck
  obtain rfl := Except.ok.inj hcheck
  cases hnone

/-- Where results can be read, no problem is found just if the names of the fixtures can be read too,
there is some result, and the results of each fixture match what it declares. -/
theorem check_clean_iff (hrs : resultsIn results = .ok rs) (hnames : ∀ r ∈ rs, r.name ≠ "all_tests") :
    (∃ report, check P shown directory fixtures results = .ok report ∧ report.problems = []) ↔
      ∃ expected, sourceTestNames P fixtures = .ok expected ∧ rs ≠ [] ∧ AllMatch P expected rs ∧
        ∀ fixture ∈ expected, fixture.2 ≠ [] → ∃ r ∈ rs, r.stem = fixture.1 := by
  constructor
  · rintro ⟨report, hcheck, hnone⟩
    obtain ⟨expected, rs', hexpected, hrs', hmatch, -, hpresent⟩ := check_ok hcheck hnone
    obtain rfl := Except.ok.inj (hrs.symm.trans hrs')
    exact ⟨expected, hexpected, results_of_clean hrs hexpected hcheck hnone, hmatch, hpresent⟩
  · rintro ⟨expected, hexpected, hsome, hmatch, hpresent⟩
    exact check_of_match hrs hnames hexpected hsome hmatch hpresent

end Gathered

end EsConnector.TierGate
