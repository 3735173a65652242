import EsConnector.FixtureCredits

namespace EsConnector.TierGate
set_option autoImplicit true

variable {F : Type} {N : NameChars} [PyFloat F] (P : Python F)

/-- The source of a fixture and what runs of it agree in their tests. -/
structure TierFixture.Agrees (fx : TierFixture F N) : Prop where
  reads : IdsRead P fx.tree
  /-- A test without cases is written without lists. -/
  alone : ∀ m ∈ fx.visibleTests, fx.caseIds P m = none →
    P.isIdentifier m.name.toList = true ∧ StandsBare fx.tree m.name
  /-- An id that is written is that of one case. -/
  written : ∀ name pid, Writes P fx.tree name pid →
    P.isIdentifier fx.className.text.toList = true ∧ P.isIdentifier name.toList = true ∧
      ∃ m ∈ fx.visibleTests, m.name = name ∧ ∃ pids, fx.caseIds P m = some pids ∧
        pids.count pid = 1
  /-- Each other case falls back on a test that is written without lists. -/
  others : ∀ m ∈ fx.visibleTests, ∀ pids, fx.caseIds P m = some pids → ∀ pid ∈ pids,
    ¬Writes P fx.tree m.name pid → ∃ other, FallsOn P m.name pid other ∧ StandsBare fx.tree other
  /-- Such a test has no cases, or some case falls back on it. -/
  bare : ∀ name, StandsBare fx.tree name →
    (∃ m ∈ fx.visibleTests, m.name = name ∧ fx.caseIds P m = none) ∨
      ∃ m ∈ fx.visibleTests, ∃ pids, fx.caseIds P m = some pids ∧ ∃ pid ∈ pids,
        ¬Writes P fx.tree m.name pid ∧ FallsOn P m.name pid name

variable {P} {fx : TierFixture F N}

theorem nodup_filter_iff {α : Type} [DecidableEq α] {p : α → Bool} {xs : List α} :
    (xs.filter p).Nodup ↔ ∀ x, p x = true → xs.count x ≤ 1 := by
  rw [List.nodup_iff_count_le_one]
  apply forall_congr'
  intro x
  by_cases hx : p x = true
  · rw [List.count_filter hx]
    exact ⟨fun hcount _ => hcount, fun hcount => hcount hx⟩
  · have hmem : x ∉ xs.filter p := fun hmem => hx (List.mem_filter.mp hmem).2
    rw [List.count_eq_zero_of_not_mem hmem]
    exact iff_of_true (Nat.zero_le 1) fun h => absurd h hx

/-- The names of a test as the gate compares them. -/
def TierFixture.bareNames (P : Python F) (fx : TierFixture F N) (m : TestMethod F) : List String :=
  (fx.testNames P m).map fun test => stripClass P (reportedName [fx.className.text] test)

theorem testNames_alone {m : TestMethod F} (h : fx.caseIds P m = none) :
    fx.testNames P m = [m.name] := by
  rw [TierFixture.testNames, h]

theorem testNames_cases {m : TestMethod F} {pids : List String} (h : fx.caseIds P m = some pids) :
    fx.testNames P m = pids.map (caseName m.name) := by
  rw [TierFixture.testNames, h]

theorem mem_testNames {m : TestMethod F} {test : String} :
    test ∈ fx.testNames P m ↔ (fx.caseIds P m = none ∧ test = m.name) ∨
      ∃ pids, fx.caseIds P m = some pids ∧ ∃ pid ∈ pids, test = caseName m.name pid := by
  cases hcases : fx.caseIds P m with
  | none =>
    rw [testNames_alone hcases, List.mem_singleton]
    constructor
    · exact fun htest => .inl ⟨rfl, htest⟩
    · rintro (⟨-, htest⟩ | ⟨pids, hpids, -⟩)
      · exact htest
      · cases hpids
  | some pids =>
    rw [testNames_cases hcases, List.mem_map]
    constructor
    · rintro ⟨pid, hpid, rfl⟩
      exact .inr ⟨pids, rfl, pid, hpid, rfl⟩
    · rintro (⟨hnone, -⟩ | ⟨pids', hpids, pid, hpid, rfl⟩)
      · cases hnone
      · obtain rfl := Option.some.inj hpids
        exact ⟨pid, hpid, rfl⟩

theorem mem_testNames_alone {m : TestMethod F} (hcases : fx.caseIds P m = none) :
    m.name ∈ fx.testNames P m :=
  mem_testNames.mpr (.inl ⟨hcases, rfl⟩)

theorem mem_testNames_cases {m : TestMethod F} {pids : List String} {pid : String}
    (hcases : fx.caseIds P m = some pids) (hpid : pid ∈ pids) :
    caseName m.name pid ∈ fx.testNames P m :=
  mem_testNames.mpr (.inr ⟨pids, hcases, pid, hpid, rfl⟩)

theorem testNames_suffix {m : TestMethod F} {test : String} (h : test ∈ fx.testNames P m) :
    ∃ suffix, CaseSuffix suffix ∧ test = m.name ++ String.ofList suffix := by
  rcases mem_testNames.mp h with ⟨-, rfl⟩ | ⟨pids, -, pid, -, rfl⟩
  · exact ⟨[], caseSuffix_nil, by rw [String.ofList_nil, String.append_empty]⟩
  · exact ⟨bracketed pid, caseSuffix_bracketed pid, caseName_eq m.name pid⟩

theorem Wanted.front_bareNames {want : List String} (h : Wanted P fx want) {m : TestMethod F}
    (hm : m ∈ fx.visibleTests) {d : String} (hd : d ∈ fx.bareNames P m) (hwant : d ∈ want) :
    frontOf d = m.name.toList := by
  let name : PyName N := ⟨m.name, visible_isName hm⟩
  obtain ⟨test, htest, rfl⟩ := List.mem_map.mp hd
  obtain ⟨suffix, hsuffix, rfl⟩ := testNames_suffix htest
  by_cases hplain : Plain P [fx.className, name]
  · have hstrip := stripClass_plain fx.className name hsuffix hplain
    have hfront := frontOf_dotted [name] hsuffix
    rw [dotted_singleton, String.ofList_append, String.ofList_toList] at hfront
    exact (congrArg frontOf hstrip).trans hfront
  · have hstrip := stripClass_not_plain fx.className name hsuffix hplain
    exact absurd (hstrip ▸ hwant) (h.reported_not_mem name hsuffix)

theorem Wanted.once_iff_each {want : List String} (h : Wanted P fx want) :
    ((fx.visibleTests.flatMap (fx.bareNames P)).filter (· ∈ want)).Nodup ↔
      ∀ m ∈ fx.visibleTests, ((fx.bareNames P m).filter (· ∈ want)).Nodup := by
  rw [List.filter_flatMap, List.nodup_flatMap]
  apply and_iff_left
  apply List.Pairwise.imp_of_mem ?_ visibleTests_pairwise
  intro m m' hm hm' hne d hd hd'
  obtain ⟨hd, hwant⟩ := List.mem_filter.mp hd
  obtain ⟨hd', -⟩ := List.mem_filter.mp hd'
  have hwant := of_decide_eq_true hwant
  have hfront := (h.front_bareNames hm hd hwant).symm.trans (h.front_bareNames hm' hd' hwant)
  exact hne (String.toList_injective hfront)

/-- A declared name comes once, if it is that of one case only. -/
theorem Wanted.once_iff {want : List String} (h : Wanted P fx want) {m : TestMethod F}
    (hm : m ∈ fx.visibleTests) :
    ((fx.bareNames P m).filter (· ∈ want)).Nodup ↔
      ∀ pids, fx.caseIds P m = some pids → P.isIdentifier fx.className.text.toList = true →
        P.isIdentifier m.name.toList = true → ∀ pid, Writes P fx.tree m.name pid →
        pids.count pid ≤ 1 := by
  let name : PyName N := ⟨m.name, visible_isName hm⟩
  rw [TierFixture.bareNames]
  cases hcases : fx.caseIds P m with
  | none =>
    rw [testNames_alone hcases]
    exact iff_of_true ((List.nodup_singleton _).filter _) nofun
  | some pids =>
    rw [testNames_cases hcases, List.map_map]
    by_cases hplain : Plain P [fx.className, name]
    · have hbare : (pids.map ((fun test => stripClass P (reportedName [fx.className.text] test)) ∘
          caseName m.name)) = pids.map (caseName m.name) := by
        apply List.map_congr_left
        intro pid _
        rw [Function.comp_apply]
        exact stripClass_case_plain fx.className name pid hplain
      have hinj : Function.Injective (caseName m.name) :=
        fun pid pid' heq => (@caseName_inj _ name name _ _ heq).2
      rw [hbare, List.filter_map, List.nodup_map_iff hinj, nodup_filter_iff]
      constructor
      · intro hcount pids' hpids' _ _ pid hwrites
        obtain rfl := Option.some.inj hpids'
        exact hcount pid (decide_eq_true ((h.case name pid).mpr hwrites))
      · intro hcount pid hmem
        obtain ⟨hclass, hname⟩ := plain_pair.mp hplain
        exact hcount pids rfl hclass hname pid ((h.case name pid).mp (of_decide_eq_true hmem))
    · have hnone : (pids.map ((fun test => stripClass P (reportedName [fx.className.text] test)) ∘
          caseName m.name)).filter (· ∈ want) = [] := by
        rw [List.filter_eq_nil_iff]
        intro d hd hwant
        obtain ⟨pid, -, rfl⟩ := List.mem_map.mp hd
        have hstrip := stripClass_case_not_plain fx.className name pid hplain
        rw [Function.comp_apply, hstrip] at hwant
        exact h.case_not_mem name pid (of_decide_eq_true hwant)
      rw [hnone]
      exact iff_of_true List.nodup_nil fun _ _ hclass hname =>
        absurd (plain_pair.mpr ⟨hclass, hname⟩) hplain

theorem ran_passed : Ran "passed" := .inl (List.mem_singleton.mpr rfl)

/-- The entries of a fixture, all of them passed. -/
def TierFixture.passedEntries (P : Python F) (fx : TierFixture F N) : List (String × String) :=
  (fx.reportedNames P).map fun name => (name, "passed")

theorem mem_passedEntries {e : String × String} :
    e ∈ fx.passedEntries P ↔ ∃ m ∈ fx.visibleTests, ∃ test ∈ fx.testNames P m,
      e = (reportedName [fx.className.text] test, "passed") := by
  simp only [TierFixture.passedEntries, TierFixture.reportedNames, List.mem_map, List.mem_flatMap]
  constructor
  · rintro ⟨_, ⟨test, ⟨m, hm, htest⟩, rfl⟩, rfl⟩
    exact ⟨m, hm, test, htest, rfl⟩
  · rintro ⟨m, hm, test, htest, rfl⟩
    exact ⟨_, ⟨test, ⟨m, hm, htest⟩, rfl⟩, rfl⟩

theorem bare_passedEntries :
    (fx.passedEntries P).map (fun e => stripClass P e.1) =
      fx.visibleTests.flatMap (fx.bareNames P) := by
  rw [TierFixture.passedEntries, TierFixture.reportedNames, List.map_map, List.map_map,
    List.map_flatMap]
  rfl

theorem Wanted.matches_iff {want : List String} (h : Wanted P fx want) :
    Matches P want (fx.passedEntries P) ↔
      (∀ d ∈ want, ∃ m ∈ fx.visibleTests, ∃ test ∈ fx.testNames P m, fx.creditOf P want test = d) ∧
      (∀ m ∈ fx.visibleTests, ∀ test ∈ fx.testNames P m, fx.creditOf P want test ∈ want) ∧
      ∀ m ∈ fx.visibleTests, ((fx.bareNames P m).filter (· ∈ want)).Nodup := by
  rw [← h.once_iff_each, ← bare_passedEntries]
  constructor
  · intro hmatches
    constructor
    · intro d hd
      obtain ⟨e, he, hcredit⟩ := hmatches.covered d hd
      obtain ⟨m, hm, test, htest, rfl⟩ := mem_passedEntries.mp he
      exact ⟨m, hm, test, htest, hcredit⟩
    constructor
    · intro m hm test htest
      exact hmatches.credited (reportedName [fx.className.text] test, "passed")
        (mem_passedEntries.mpr ⟨m, hm, test, htest, rfl⟩)
    · exact hmatches.once
  · rintro ⟨hcovered, hcredited, honce⟩
    constructor
    · intro e he
      obtain ⟨m, hm, test, htest, rfl⟩ := mem_passedEntries.mp he
      exact ran_passed
    · intro d hd
      obtain ⟨m, hm, test, htest, hcredit⟩ := hcovered d hd
      exact ⟨(reportedName [fx.className.text] test, "passed"),
        mem_passedEntries.mpr ⟨m, hm, test, htest, rfl⟩, hcredit⟩
    · intro e he
      obtain ⟨m, hm, test, htest, rfl⟩ := mem_passedEntries.mp he
      exact hcredited m hm test htest
    · exact honce

section Matching

variable {want : List String}

/-- Each test that is credited has a name that the expressions know. -/
theorem Wanted.known (h : Wanted P fx want) (hmatches : Matches P want (fx.passedEntries P))
    {m : TestMethod F} (hm : m ∈ fx.visibleTests) (hcases : fx.caseIds P m = none) :
    P.isIdentifier m.name.toList = true := by
  obtain ⟨-, hcredited, -⟩ := h.matches_iff.mp hmatches
  by_contra hname
  exact h.credits.unknown m hm hname (hcredited m hm m.name (mem_testNames_alone hcases))

theorem Wanted.written_once (h : Wanted P fx want)
    (hmatches : Matches P want (fx.passedEntries P)) {name pid : String}
    (hwrites : Writes P fx.tree name pid) :
    P.isIdentifier fx.className.text.toList = true ∧ P.isIdentifier name.toList = true ∧
      ∃ m ∈ fx.visibleTests, m.name = name ∧ ∃ pids, fx.caseIds P m = some pids ∧
        pids.count pid = 1 := by
  obtain ⟨hcovered, -, honce⟩ := h.matches_iff.mp hmatches
  obtain ⟨n, rfl⟩ := hwrites.exists_name
  have hwant := (h.case n pid).mpr hwrites
  obtain ⟨m, hm, test, htest, hcredit⟩ := hcovered _ hwant
  rcases mem_testNames.mp htest with ⟨hcases, rfl⟩ | ⟨pids, hcases, pid', hpid', rfl⟩
  · rw [h.credits.alone m hm (h.known hmatches hm hcases)] at hcredit
    have hbracketless := PyName.bracketless ⟨m.name, visible_isName hm⟩
    exact absurd hcredit.symm (caseName_ne hbracketless)
  · by_cases hexact : (P.isIdentifier fx.className.text.toList = true ∧
        P.isIdentifier m.name.toList = true) ∧ Writes P fx.tree m.name pid'
    · obtain ⟨⟨hclass, hname⟩, hwrites'⟩ := hexact
      rw [h.credits.written m hm pid' hclass hname hwrites'] at hcredit
      obtain ⟨heq, rfl⟩ := @caseName_inj N ⟨m.name, visible_isName hm⟩ n _ _ hcredit
      have hsame : m.name = n.text := heq
      have hone := (h.once_iff hm).mp (honce m hm) pids hcases hclass hname pid' hwrites'
      have hsome := List.count_pos_iff.mpr hpid'
      exact ⟨hclass, hsame ▸ hname, m, hm, hsame, pids, hcases, Nat.le_antisymm hone hsome⟩
    · -- a name that is fallen on has no case
      have hfalls := (h.credits.other m hm pid' _ hwant hexact).mp hcredit
      exact absurd rfl (caseName_ne hfalls.bracketless)

/-- Where the entries match, the source and the run agree. -/
theorem Wanted.agrees (h : Wanted P fx want) (hids : IdsRead P fx.tree)
    (hmatches : Matches P want (fx.passedEntries P)) : fx.Agrees P := by
  obtain ⟨hcovered, hcredited, -⟩ := h.matches_iff.mp hmatches
  constructor
  · exact hids
  · intro m hm hcases
    have hname := h.known hmatches hm hcases
    have hmem := hcredited m hm m.name (mem_testNames_alone hcases)
    rw [h.credits.alone m hm hname] at hmem
    exact ⟨hname, (h.bare m.name (PyName.bracketless ⟨m.name, visible_isName hm⟩)).mp hmem⟩
  · exact fun name pid hwrites => h.written_once hmatches hwrites
  · intro m hm pids hcases pid hpid hwrites
    have hmem := hcredited m hm (caseName m.name pid) (mem_testNames_cases hcases hpid)
    have hfalls := (h.credit_not_written hm hmem hwrites).mp rfl
    exact ⟨_, hfalls, (h.bare _ hfalls.bracketless).mp hmem⟩
  · intro name hbare
    obtain ⟨n, rfl⟩ := hbare.exists_name
    have hwant := (h.bare n.text n.bracketless).mpr hbare
    obtain ⟨m, hm, test, htest, hcredit⟩ := hcovered _ hwant
    rcases mem_testNames.mp htest with ⟨hcases, rfl⟩ | ⟨pids, hcases, pid, hpid, rfl⟩
    · rw [h.credits.alone m hm (h.known hmatches hm hcases)] at hcredit
      exact .inl ⟨m, hm, hcredit, hcases⟩
    · by_cases hwrites : Writes P fx.tree m.name pid
      · obtain ⟨hclass, hname, -⟩ := h.written_once hmatches hwrites
        rw [h.credits.written m hm pid hclass hname hwrites] at hcredit
        exact absurd hcredit (caseName_ne n.bracketless)
      · have hfalls := (h.credit_not_written hm hwant hwrites).mp hcredit
        exact .inr ⟨m, hm, pids, hcases, pid, hpid, hwrites, hfalls⟩

theorem Wanted.credit_of_agrees (h : Wanted P fx want) (hagrees : fx.Agrees P) {m : TestMethod F}
    (hm : m ∈ fx.visibleTests) {pid : String} (hwrites : Writes P fx.tree m.name pid) :
    fx.creditOf P want (caseName m.name pid) = caseName m.name pid := by
  obtain ⟨hclass, hname, -⟩ := hagrees.written m.name pid hwrites
  exact h.credits.written m hm pid hclass hname hwrites

theorem Wanted.covered_of_agrees (h : Wanted P fx want) (hagrees : fx.Agrees P) {d : String}
    (hd : d ∈ want) :
    ∃ m ∈ fx.visibleTests, ∃ test ∈ fx.testNames P m, fx.creditOf P want test = d := by
  obtain ⟨n, rfl | ⟨pid, rfl⟩⟩ := h.cases d hd
  · have hbare := (h.bare n.text n.bracketless).mp hd
    rcases hagrees.bare n.text hbare with
      ⟨m, hm, hname, hcases⟩ | ⟨m, hm, pids, hcases, pid, hpid, hwrites, hfalls⟩
    · refine ⟨m, hm, m.name, mem_testNames_alone hcases, ?_⟩
      rw [h.credits.alone m hm (hagrees.alone m hm hcases).1, hname]
    · exact ⟨m, hm, caseName m.name pid, mem_testNames_cases hcases hpid,
        (h.credit_not_written hm hd hwrites).mpr hfalls⟩
  · have hwrites := (h.case n pid).mp hd
    obtain ⟨-, -, m, hm, hname, pids, hcases, hcount⟩ := hagrees.written n.text pid hwrites
    have hpid : pid ∈ pids := List.count_pos_iff.mp (hcount ▸ Nat.one_pos)
    rw [← hname] at hwrites ⊢
    exact ⟨m, hm, caseName m.name pid, mem_testNames_cases hcases hpid,
      h.credit_of_agrees hagrees hm hwrites⟩

theorem Wanted.credited_of_agrees (h : Wanted P fx want) (hagrees : fx.Agrees P)
    {m : TestMethod F} (hm : m ∈ fx.visibleTests) {test : String} (htest : test ∈ fx.testNames P m) :
    fx.creditOf P want test ∈ want := by
  rcases mem_testNames.mp htest with ⟨hcases, rfl⟩ | ⟨pids, hcases, pid, hpid, rfl⟩
  · obtain ⟨hname, hbare⟩ := hagrees.alone m hm hcases
    rw [h.credits.alone m hm hname]
    exact (h.bare m.name (PyName.bracketless ⟨m.name, visible_isName hm⟩)).mpr hbare
  · by_cases hwrites : Writes P fx.tree m.name pid
    · rw [h.credit_of_agrees hagrees hm hwrites]
      exact (h.case ⟨m.name, visible_isName hm⟩ pid).mpr hwrites
    · obtain ⟨other, hfalls, hbare⟩ := hagrees.others m hm pids hcases pid hpid hwrites
      have hmem := (h.bare other hfalls.bracketless).mpr hbare
      rw [(h.credit_not_written hm hmem hwrites).mpr hfalls]
      exact hmem

theorem Wanted.matches_of_agrees (h : Wanted P fx want) (hagrees : fx.Agrees P) :
    Matches P want (fx.passedEntries P) := by
  apply h.matches_iff.mpr
  constructor
  · intro d hd
    exact h.covered_of_agrees hagrees hd
  constructor
  · intro m hm test htest
    exact h.credited_of_agrees hagrees hm htest
  · intro m hm
    apply (h.once_iff hm).mpr
    intro pids hcases _ _ pid hwrites
    obtain ⟨-, -, m', hm', hname, pids', hcases', hcount⟩ := hagrees.written m.name pid hwrites
    obtain rfl := eq_of_visible hm' hm hname
    obtain rfl := Option.some.inj (hcases.symm.trans hcases')
    exact Nat.le_of_eq hcount

end Matching

section Tier

theorem about_append (rs rs' : List Result) (stem : String) :
    about (rs ++ rs') stem = about rs stem ++ about rs' stem := by
  rw [about, List.filter_append, List.map_append]
  rfl

theorem about_fixture (fx : TierFixture F N) (stem : String) :
    about (((fx.reportedNames P).map fun name => (fx.stem.text, name)).map passed) stem =
      if fx.stem.text = stem then fx.passedEntries P else [] := by
  rw [List.map_map, about, TierFixture.passedEntries]
  by_cases hstem : fx.stem.text = stem
  · rw [if_pos hstem, List.filter_eq_self.mpr (by simp [passed, hstem]), List.map_map]
    rfl
  · rw [if_neg hstem, List.filter_eq_nil_iff.mpr (by simp [passed, hstem])]
    rfl

theorem about_fixtures {fixtures : List (TierFixture F N)}
    (hnodup : (fixtures.map fun fx => fx.stem.text).Nodup) {fx : TierFixture F N}
    (hfx : fx ∈ fixtures) :
    about ((fixtures.flatMap fun fx => (fx.reportedNames P).map fun name =>
      (fx.stem.text, name)).map passed) fx.stem.text = fx.passedEntries P := by
  induction fixtures with
  | nil => cases hfx
  | cons other fixtures ih =>
    rw [List.map_cons, List.nodup_cons] at hnodup
    rw [List.flatMap_cons, List.map_append, about_append, about_fixture]
    rcases List.mem_cons.mp hfx with rfl | hmem
    · have hrest : about ((fixtures.flatMap fun fx => (fx.reportedNames P).map fun name =>
          (fx.stem.text, name)).map passed) fx.stem.text = [] := by
        apply about_eq_nil.mpr
        intro r hr hstem
        obtain ⟨e, he, rfl⟩ := List.mem_map.mp hr
        obtain ⟨fx', hfx', he⟩ := List.mem_flatMap.mp he
        obtain ⟨name, -, rfl⟩ := List.mem_map.mp he
        exact hnodup.1 (List.mem_map.mpr ⟨fx', hfx', hstem⟩)
      rw [if_pos rfl, hrest, List.append_nil]
    · have hne : other.stem.text ≠ fx.stem.text := by
        intro heq
        exact hnodup.1 (List.mem_map.mpr ⟨fx, hmem, heq.symm⟩)
      rw [if_neg hne, List.nil_append, ih hnodup.2 hmem]

variable {tier : Tier F N}

theorem about_entries {entries : List (String × String)} (hperm : entries.Perm (tier.entries P))
    {fx : TierFixture F N} (hfx : fx ∈ tier.fixtures) :
    (about (entries.map passed) fx.stem.text).Perm (fx.passedEntries P) := by
  have habout := @about_fixtures _ _ _ P _ tier.nodup _ hfx
  rw [← habout]
  exact (((hperm.map passed).filter _).map _)

theorem mem_entries {entries : List (String × String)} (hperm : entries.Perm (tier.entries P))
    {r : Result} (hr : r ∈ entries.map passed) :
    ∃ fx ∈ tier.fixtures, r.stem = fx.stem.text ∧ ∃ e ∈ fx.passedEntries P, r.name = e.1 := by
  obtain ⟨e, he, rfl⟩ := List.mem_map.mp hr
  obtain ⟨fx, hfx, he⟩ := List.mem_flatMap.mp (hperm.mem_iff.mp he)
  obtain ⟨name, hname, rfl⟩ := List.mem_map.mp he
  exact ⟨fx, hfx, rfl, (name, "passed"), List.mem_map_of_mem hname, rfl⟩

theorem reported_ne_all {e : String × String} (he : e ∈ fx.passedEntries P) : e.1 ≠ "all_tests" := by
  obtain ⟨m, hm, test, htest, rfl⟩ := mem_passedEntries.mp he
  obtain ⟨suffix, hsuffix, rfl⟩ := testNames_suffix htest
  have hdot := frontOf_reported fx.className ⟨m.name, visible_isName hm⟩ hsuffix
  intro heq
  dsimp only at hdot heq
  rw [heq] at hdot
  exact absurd hdot (by decide)

omit [PyFloat F] in
theorem sources_mem {fx : TierFixture F N} (hfx : fx ∈ tier.fixtures) :
    (fx.stem.text, fx.tree) ∈ tier.sources.files :=
  List.mem_map.mpr ⟨fx, hfx, rfl⟩

variable {entries : List (String × String)} {expected : List (String × List String)}

omit [PyFloat F] in
theorem wanted_of_sources (hexpected : sourceTestNames P tier.sources = .ok expected)
    {fx : TierFixture F N} (hfx : fx ∈ tier.fixtures) :
    ∃ want, expected.lookup fx.stem.text = some want ∧ (fx.stem.text, want) ∈ expected ∧
      IdsRead P fx.tree ∧ Wanted P fx want := by
  obtain ⟨want, hlookup, hmem, hwant⟩ := sourceTestNames_of_file hexpected (sources_mem hfx)
  obtain ⟨e, -, he⟩ := mapM_ok hexpected _ (sources_mem hfx)
  obtain ⟨names, hnames, -⟩ := bind_ok he
  have hids : IdsRead P fx.tree := fixtureTestNames_iff.mp ⟨names, hnames⟩
  exact ⟨want, hlookup, hmem, hids, wanted_of_declares hids hwant⟩

theorem agrees_of_clean (hperm : entries.Perm (tier.entries P))
    (hexpected : sourceTestNames P tier.sources = .ok expected)
    (hmatch : AllMatch P expected (entries.map passed))
    (hpresent : ∀ fixture ∈ expected, fixture.2 ≠ [] →
      ∃ r ∈ entries.map passed, r.stem = fixture.1)
    {fx : TierFixture F N} (hfx : fx ∈ tier.fixtures) : fx.Agrees P := by
  obtain ⟨want, hlookup, hmem, hids, hwanted⟩ := wanted_of_sources hexpected hfx
  have habout := about_entries hperm hfx
  apply hwanted.agrees hids
  by_cases hthere : ∃ r ∈ entries.map passed, r.stem = fx.stem.text
  · obtain ⟨r, hr, hstem⟩ := hthere
    obtain ⟨want', hlookup', hmatches⟩ := hmatch r hr
    rw [hstem] at hlookup' hmatches
    obtain rfl := Option.some.inj (hlookup.symm.trans hlookup')
    exact hmatches.congr (fun d => Iff.rfl) habout
  · -- a fixture without entries declares no test
    have hnone : about (entries.map passed) fx.stem.text = [] :=
      about_eq_nil.mpr fun r hr hstem => hthere ⟨r, hr, hstem⟩
    have hwant : want = [] := by
      by_contra hne
      exact hthere (hpresent _ hmem hne)
    rw [hnone] at habout
    rw [habout.nil_eq.symm, hwant]
    exact ⟨nofun, nofun, nofun, List.nodup_nil⟩

theorem clean_of_agrees (hperm : entries.Perm (tier.entries P))
    (hexpected : sourceTestNames P tier.sources = .ok expected)
    (hagrees : ∀ fx ∈ tier.fixtures, fx.Agrees P) :
    AllMatch P expected (entries.map passed) ∧
      ∀ fixture ∈ expected, fixture.2 ≠ [] → ∃ r ∈ entries.map passed, r.stem = fixture.1 := by
  constructor
  · intro r hr
    obtain ⟨fx, hfx, hstem, -⟩ := mem_entries hperm hr
    obtain ⟨want, hlookup, -, -, hwanted⟩ := wanted_of_sources hexpected hfx
    have hmatches := hwanted.matches_of_agrees (hagrees fx hfx)
    rw [hstem]
    exact ⟨want, hlookup, hmatches.congr (fun d => Iff.rfl) (about_entries hperm hfx).symm⟩
  · intro fixture hfixture hne
    obtain ⟨file, hfile, hread⟩ := mapM_ok_mem hexpected fixture hfixture
    obtain ⟨fx, hfx, rfl⟩ := List.mem_map.mp hfile
    obtain ⟨names, hnames, hpair⟩ := bind_ok hread
    obtain rfl := Except.ok.inj hpair
    have hids : IdsRead P fx.tree := fixtureTestNames_iff.mp ⟨names, hnames⟩
    have hwanted : Wanted P fx names := wanted_of_declares hids (mem_fixtureTestNames hnames)
    obtain ⟨d, hd⟩ := List.exists_mem_of_ne_nil _ hne
    obtain ⟨e, he, -⟩ := (hwanted.matches_of_agrees (hagrees fx hfx)).covered d hd
    obtain ⟨r, hr, hstem, -⟩ := of_mem_about ((about_entries hperm hfx).mem_iff.mpr he)
    exact ⟨r, hr, hstem⟩

theorem names_of_entries (hperm : entries.Perm (tier.entries P)) :
    ∀ r ∈ entries.map passed, r.name ≠ "all_tests" := by
  intro r hr
  obtain ⟨fx, -, -, e, he, hname⟩ := mem_entries hperm hr
  exact hname ▸ reported_ne_all he

theorem entries_ne_nil (hperm : entries.Perm (tier.entries P)) :
    entries.map passed ≠ [] ↔ tier.entries P ≠ [] := by
  rw [Ne, Ne, List.map_eq_nil_iff, ← List.length_eq_zero_iff, ← List.length_eq_zero_iff,
    hperm.length_eq]

/-- Where each source agrees with what runs of it, a healthy run is found without problems. -/
theorem HealthyResults.clean {results : Json F} (h : HealthyResults P tier results)
    (hsome : tier.entries P ≠ []) (hagrees : ∀ fx ∈ tier.fixtures, fx.Agrees P)
    (shown directory : String) :
    ∃ report, check P shown directory tier.sources results = .ok report ∧ report.problems = [] := by
  obtain ⟨entries, hperm, hread⟩ := h.read
  obtain ⟨expected, hexpected⟩ : ∃ expected, sourceTestNames P tier.sources = .ok expected := by
    apply mapM_ok_of_forall
    intro file hfile
    obtain ⟨fx, hfx, rfl⟩ := List.mem_map.mp hfile
    obtain ⟨want, hwant⟩ := fixtureTestNames_iff.mpr (hagrees fx hfx).reads
    exact ⟨(fx.stem.text, want), by rw [hwant]; rfl⟩
  obtain ⟨hmatch, hpresent⟩ := clean_of_agrees hperm hexpected hagrees
  apply (check_clean_iff hread (names_of_entries hperm)).mpr
  exact ⟨expected, hexpected, (entries_ne_nil hperm).mpr hsome, hmatch, hpresent⟩

/-- A healthy run is found without problems just where some test runs and each source agrees with
what runs of it. -/
theorem healthy_run_clean_iff (P : Python F) (shown directory : String) (tier : Tier F N)
    (results : Json F) (h : HealthyResults P tier results) :
    (∃ report, check P shown directory tier.sources results = .ok report ∧ report.problems = []) ↔
      tier.entries P ≠ [] ∧ ∀ fx ∈ tier.fixtures, fx.Agrees P := by
  constructor
  · intro hclean
    obtain ⟨entries, hperm, hread⟩ := h.read
    obtain ⟨expected, hexpected, hne, hmatch, hpresent⟩ :=
      (check_clean_iff hread (names_of_entries hperm)).mp hclean
    exact ⟨(entries_ne_nil hperm).mp hne,
      fun fx hfx => agrees_of_clean hperm hexpected hmatch hpresent hfx⟩
  · rintro ⟨hsome, hagrees⟩
    exact h.clean hsome hagrees shown directory

end Tier

/-- A fixture whose class has some tests. -/
def oneClassFixture (methods : List (TestMethod Empty)) (runtimeIds : String → List String)
    (hnames : ∀ m ∈ methods, plainNames.isName m.name.toList) : TierFixture Empty plainNames where
  stem := ⟨"test_thing", by decide⟩
  tree := [.classDef (methods.map .method)]
  className := ⟨"TestThing", by decide⟩
  body := methods.map .method
  bases := []
  runtimeIds := runtimeIds
  top := List.mem_cons_self
  sourceNames m hm := by
    obtain ⟨body, hbody, hm, -⟩ := mem_testMethods.mp hm
    obtain rfl : body = methods.map .method :=
      Statement.classDef.inj (List.mem_singleton.mp hbody)
    rw [bodyMethods, List.filterMap_map] at hm
    obtain ⟨m', hm', hsame⟩ := List.mem_filterMap.mp hm
    obtain rfl := Option.some.inj hsame
    exact hnames m' hm'
  baseNames := nofun

def oneFixture (fx : TierFixture Empty plainNames) : Tier Empty plainNames where
  fixtures := [fx]
  nodup := List.nodup_singleton _

theorem healthy_oneFixture {fx : TierFixture Empty plainNames} {names : List String}
    (hnames : names.Perm (fx.reportedNames plainPython)) :
    HealthyResults plainPython (oneFixture fx)
      (resultsOf ("/Workspace/" ++ fx.stem.text) (names.map fun name => (name, "passed"))) where
  rows := by
    let row (name : String) : Fields Empty :=
      [("notebook", .str ("/Workspace/" ++ fx.stem.text)), ("test_name", .str name),
        ("status", .str "passed")]
    refine ⟨_, names.map row, names.map fun name => (fx.stem.text, name), rfl, ?_, ?_, ?_⟩
    · rw [List.map_map, List.map_map]
      rfl
    · rw [List.forall₂_map_left_iff, List.forall₂_map_right_iff, List.forall₂_same]
      intro name _
      refine ⟨⟨"/Workspace/", "", .inr ⟨"/Workspace", rfl⟩, .inl rfl, ?_⟩, rfl, rfl⟩
      rw [String.append_empty]
      rfl
    · rw [Tier.entries, oneFixture, List.flatMap_singleton]
      exact hnames.map _

/-- A test whose first id is the empty text. -/
def overGivenIds : TestMethod Empty where
  name := "test_p"
  decorators := [.call (.attribute (.name "mark") "parametrize")
    [.constant (.str "x"), .list [.constant (.int 1), .constant (.int 2)]]
    [(some "ids", .list [.constant (.str ""), .constant (.str "b")])]]

def emptyIdFixture : TierFixture Empty plainNames :=
  oneClassFixture [overGivenIds] (fun _ => []) (by decide)

/-- The framework takes an empty id for none, and the gate waits for it. -/
theorem empty_id_blocks :
    check plainPython "results.json" "integration_tests" (oneFixture emptyIdFixture).sources
        (resultsOf "/Workspace/test_thing"
          [("TestThing.test_p[1]", "passed"), ("TestThing.test_p[b]", "passed")]) =
      .ok ⟨[.missing "test_thing" "test_p[]", .orphan "test_thing" "test_p"], [], 2⟩ ∧
    ¬∀ (tier : Tier Empty plainNames) (results : Json Empty),
      HealthyResults plainPython tier results →
      ∃ report, check plainPython "results.json" "integration_tests" tier.sources results =
        .ok report ∧ report.problems = [] := by
  have hcheck : check plainPython "results.json" "integration_tests"
      (oneFixture emptyIdFixture).sources (resultsOf "/Workspace/test_thing"
        [("TestThing.test_p[1]", "passed"), ("TestThing.test_p[b]", "passed")]) =
      .ok ⟨[.missing "test_thing" "test_p[]", .orphan "test_thing" "test_p"], [], 2⟩ := rfl
  have hnames : emptyIdFixture.reportedNames plainPython =
      ["TestThing.test_p[1]", "TestThing.test_p[b]"] := by decide
  have hhealthy : HealthyResults plainPython (oneFixture emptyIdFixture)
      (resultsOf "/Workspace/test_thing"
        [("TestThing.test_p[1]", "passed"), ("TestThing.test_p[b]", "passed")]) :=
    @healthy_oneFixture emptyIdFixture ["TestThing.test_p[1]", "TestThing.test_p[b]"] (by rw [hnames])
  constructor
  · exact hcheck
  · intro hclaimed
    obtain ⟨report, hreport, hnone⟩ := hclaimed _ _ hhealthy
    obtain rfl := Except.ok.inj (hcheck.symm.trans hreport)
    cases hnone

/-- A test that is written without cases, and one over a list that has a name. -/
def namedListFixture : TierFixture Empty plainNames :=
  oneClassFixture [⟨"test_a", []⟩, overNamedList]
    (fun name => if name = "test_b" then ["1", "2"] else []) (by decide)

theorem namedListFixture_clean :
    (∃ report, check plainPython "results.json" "integration_tests"
      (oneFixture namedListFixture).sources (resultsOf "/Workspace/test_thing"
        [("TestThing.test_a", "passed"), ("TestThing.test_b[1]", "passed"),
          ("TestThing.test_b[2]", "passed")]) = .ok report ∧ report.problems = []) ∧
    namedListFixture.Agrees plainPython := by
  have hnames : namedListFixture.reportedNames plainPython =
      ["TestThing.test_a", "TestThing.test_b[1]", "TestThing.test_b[2]"] := by decide
  have hclean : ∃ report, check plainPython "results.json" "integration_tests"
      (oneFixture namedListFixture).sources (resultsOf "/Workspace/test_thing"
        [("TestThing.test_a", "passed"), ("TestThing.test_b[1]", "passed"),
          ("TestThing.test_b[2]", "passed")]) = .ok report ∧ report.problems = [] :=
    ⟨⟨[], [], 3⟩, by decide +kernel, rfl⟩
  have hhealthy : HealthyResults plainPython (oneFixture namedListFixture)
      (resultsOf "/Workspace/test_thing" [("TestThing.test_a", "passed"),
        ("TestThing.test_b[1]", "passed"), ("TestThing.test_b[2]", "passed")]) :=
    @healthy_oneFixture namedListFixture
      ["TestThing.test_a", "TestThing.test_b[1]", "TestThing.test_b[2]"] (by rw [hnames])
  have hiff := healthy_run_clean_iff plainPython "results.json" "integration_tests"
    (oneFixture namedListFixture) _ hhealthy
  exact ⟨hclean, (hiff.mp hclean).2 namedListFixture List.mem_cons_self⟩

end EsConnector.TierGate
