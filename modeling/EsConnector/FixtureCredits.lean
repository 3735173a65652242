import EsConnector.TierRun

namespace EsConnector.TierGate
set_option autoImplicit true

variable {F : Type} {N : NameChars}

/-- The lists that can be read off a test, if it is parametrized over such. -/
def readLists (m : TestMethod F) : Option (List (Literal F) × Option (Literal F)) :=
  (bottomMark m).bind fun mark => readParameters mark.1 mark.2

/-- A test of this name is written without lists that can be read. -/
def StandsBare (tree : List (Statement F)) (name : String) : Prop :=
  ∃ m ∈ testMethods tree, m.name = name ∧ readLists m = none

variable (P : Python F)

/-- An id is written in the lists of a test of this name: the text of an element of `ids`, or else
the values joined. -/
def Writes (tree : List (Statement F)) (name pid : String) : Prop :=
  ∃ m ∈ testMethods tree, m.name = name ∧ ∃ values ids, readLists m = some (values, ids) ∧
    ∃ v ∈ values.zipIdx, P.paramId ids v.2 v.1 = .ok pid

/-- The ids of all lists that can be read are there. -/
def IdsRead (tree : List (Statement F)) : Prop :=
  ∀ m ∈ testMethods tree, ∀ values ids, readLists m = some (values, ids) →
    ∀ v ∈ values.zipIdx, ∃ pid, P.paramId ids v.2 v.1 = .ok pid

variable {P}

theorem bottomMark_eq (m : TestMethod F) :
    bottomMark m = m.decorators.reverse.findSome? parametrizeMark := List.getLast?_filterMap

theorem expansionNames_bare {m : TestMethod F} (h : readLists m = none) :
    ∃ expansions, expansionNames P m = .ok expansions ∧ expansions.getD [m.name] = [m.name] := by
  rw [expansionNames, ← bottomMark_eq]
  cases hmark : bottomMark m with
  | none => exact ⟨_, rfl, rfl⟩
  | some mark =>
    rw [readLists, hmark, Option.bind_some] at h
    obtain ⟨argvalues, keywords⟩ := mark
    dsimp only at h ⊢
    rw [h]
    exact ⟨none, rfl, rfl⟩

theorem expansionNames_lists {m : TestMethod F} {values : List (Literal F)} {ids : Option (Literal F)}
    (h : readLists m = some (values, ids)) :
    expansionNames P m = (do
      let pids ← values.zipIdx.mapM fun v => P.paramId ids v.2 v.1
      return some (pids.map (caseName m.name))) := by
  rw [expansionNames, ← bottomMark_eq]
  obtain ⟨mark, hmark, hread⟩ := Option.bind_eq_some_iff.mp h
  rw [hmark]
  obtain ⟨argvalues, keywords⟩ := mark
  dsimp only at hread ⊢
  rw [hread]

/-- The names of a fixture can be read just where its ids can. -/
theorem fixtureTestNames_iff {tree : List (Statement F)} :
    (∃ want, fixtureTestNames P tree = .ok want) ↔ IdsRead P tree := by
  have hmethod (m : TestMethod F) : (∃ expansions, expansionNames P m = .ok expansions) ↔
      ∀ values ids, readLists m = some (values, ids) →
        ∀ v ∈ values.zipIdx, ∃ pid, P.paramId ids v.2 v.1 = .ok pid := by
    cases hlists : readLists m with
    | none =>
      obtain ⟨expansions, hexpansions, -⟩ := @expansionNames_bare _ P _ hlists
      exact iff_of_true ⟨expansions, hexpansions⟩ nofun
    | some lists =>
      obtain ⟨values, ids⟩ := lists
      rw [expansionNames_lists hlists]
      constructor
      · rintro ⟨expansions, hexpansions⟩ values' ids' heq
        obtain ⟨rfl, rfl⟩ := Prod.mk.inj (Option.some.inj heq)
        obtain ⟨pids, hpids, -⟩ := bind_ok hexpansions
        intro v hv
        obtain ⟨pid, -, hpid⟩ := mapM_ok hpids v hv
        exact ⟨pid, hpid⟩
      · intro hids
        obtain ⟨pids, hpids⟩ := mapM_ok_of_forall (hids values ids rfl)
        rw [hpids]
        exact ⟨_, rfl⟩
  have hloop (ms : List (TestMethod F)) (found : List String) :
      (∃ want, ms.foldlM (fun found m => do
        let expansions ← expansionNames P m
        return (found ∪ expansions.getD [m.name]).dedup) found = .ok want) ↔
      ∀ m ∈ ms, ∃ expansions, expansionNames P m = .ok expansions := by
    induction ms generalizing found with
    | nil => exact iff_of_true ⟨found, rfl⟩ nofun
    | cons m ms ih =>
      rw [List.forall_mem_cons, List.foldlM_cons]
      cases hexpansions : expansionNames P m with
      | error e => simp [Bind.bind, Except.bind]
      | ok expansions => simpa using ih _
  rw [fixtureTestNames, hloop]
  exact forall₂_congr fun m _ => hmethod m

theorem declares_iff {tree : List (Statement F)} (hids : IdsRead P tree) (d : String) :
    Declares P tree d ↔
      StandsBare tree d ∨ ∃ name pid, Writes P tree name pid ∧ d = caseName name pid := by
  constructor
  · rintro ⟨m, hm, expansions, hexpansions, hd⟩
    cases hlists : readLists m with
    | none =>
      obtain ⟨expansions', hexpansions', hnames⟩ := @expansionNames_bare _ P _ hlists
      obtain rfl := Except.ok.inj (hexpansions.symm.trans hexpansions')
      rw [hnames, List.mem_singleton] at hd
      exact .inl ⟨m, hm, hd.symm, hlists⟩
    | some lists =>
      obtain ⟨values, ids⟩ := lists
      rw [expansionNames_lists hlists] at hexpansions
      obtain ⟨pids, hpids, hexpansions⟩ := bind_ok hexpansions
      obtain rfl := Except.ok.inj hexpansions
      obtain ⟨pid, hpid, rfl⟩ := List.mem_map.mp hd
      obtain ⟨v, hv, hwritten⟩ := mapM_ok_mem hpids pid hpid
      exact .inr ⟨m.name, pid, ⟨m, hm, rfl, values, ids, hlists, v, hv, hwritten⟩, rfl⟩
  · rintro (⟨m, hm, rfl, hlists⟩ | ⟨name, pid, ⟨m, hm, rfl, values, ids, hlists, v, hv, hpid⟩, rfl⟩)
    · obtain ⟨expansions, hexpansions, hnames⟩ := @expansionNames_bare _ P _ hlists
      refine ⟨m, hm, expansions, hexpansions, ?_⟩
      rw [hnames]
      exact List.mem_singleton.mpr rfl
    · obtain ⟨pids, hpids⟩ := mapM_ok_of_forall (hids m hm values ids hlists)
      obtain ⟨pid', hmem, hpid'⟩ := mapM_ok hpids v hv
      obtain rfl := Except.ok.inj (hpid.symm.trans hpid')
      refine ⟨m, hm, some (pids.map (caseName m.name)), ?_, List.mem_map_of_mem hmem⟩
      rw [expansionNames_lists hlists, hpids]
      rfl

/-- A name without its case. -/
def frontOf (name : String) : List Char := name.toList.takeWhile (· ≠ '[')

theorem frontOf_dotted (names : List (PyName N)) {suffix : List Char} (h : CaseSuffix suffix) :
    frontOf (String.ofList (dotted names ++ suffix)) = dotted names := by
  rw [frontOf, String.toList_ofList]
  exact (takeWhile_dotted h).1

theorem frontOf_name (m : PyName N) : frontOf m.text = m.text.toList := by
  have hfront := frontOf_dotted [m] caseSuffix_nil
  rwa [dotted_singleton, List.append_nil, String.ofList_toList] at hfront

theorem frontOf_case (m : PyName N) (pid : String) : frontOf (caseName m.text pid) = m.text.toList := by
  have hfront := frontOf_dotted [m] (caseSuffix_bracketed pid)
  rwa [dotted_singleton, String.ofList_append, String.ofList_toList, ← caseName_eq] at hfront

theorem frontOf_reported (c m : PyName N) {suffix : List Char} (h : CaseSuffix suffix) :
    '.' ∈ frontOf (reportedName [c.text] (m.text ++ String.ofList suffix)) := by
  have hreported := reportedName_eq [c] m suffix
  rw [List.map_singleton] at hreported
  rw [hreported, frontOf_dotted _ h, List.singleton_append, dotted_cons (List.cons_ne_nil _ _)]
  exact List.mem_append_right _ List.mem_cons_self

theorem caseName_inj {m m' : PyName N} {pid pid' : String}
    (h : caseName m.text pid = caseName m'.text pid') : m.text = m'.text ∧ pid = pid' := by
  have hfront := congrArg frontOf h
  rw [frontOf_case, frontOf_case] at hfront
  have hname := String.toList_injective hfront
  rw [hname] at h
  have hlist := congrArg String.toList h
  simp only [caseName, String.toList_append, List.append_assoc, List.append_cancel_left_eq,
    List.append_cancel_right_eq] at hlist
  exact ⟨hname, String.toList_injective hlist⟩

theorem caseName_ne {name pid other : String} (h : '[' ∉ other.toList) : caseName name pid ≠ other := by
  intro rfl
  apply h
  simp [caseName]

theorem PyName.bracketless (m : PyName N) : '[' ∉ m.text.toList :=
  fun hmem => (NameChars.isInside_ne (m.isInside _ hmem)).2.1 rfl

theorem isIdentifier_bracketless {cs : List Char} (h : P.isIdentifier cs = true) : '[' ∉ cs :=
  fun hmem => (Python.isWord_ne (Python.isIdentifier_isWord h _ hmem)).2.1 rfl

variable {fx : TierFixture F N}

theorem StandsBare.exists_name {name : String} (h : StandsBare fx.tree name) :
    ∃ m : PyName N, m.text = name := by
  obtain ⟨m, hm, rfl, -⟩ := h
  exact ⟨⟨m.name, fx.sourceNames m hm⟩, rfl⟩

theorem Writes.exists_name {name pid : String} (h : Writes P fx.tree name pid) :
    ∃ m : PyName N, m.text = name := by
  obtain ⟨m, hm, rfl, -⟩ := h
  exact ⟨⟨m.name, fx.sourceNames m hm⟩, rfl⟩

/-- What a fixture declares. -/
structure Wanted (P : Python F) (fx : TierFixture F N) (want : List String) : Prop where
  bare : ∀ name, '[' ∉ name.toList → (name ∈ want ↔ StandsBare fx.tree name)
  case : ∀ (m : PyName N) pid, caseName m.text pid ∈ want ↔ Writes P fx.tree m.text pid
  cases : ∀ d ∈ want, ∃ m : PyName N, d = m.text ∨ ∃ pid, d = caseName m.text pid

theorem wanted_of_declares {want : List String} (hids : IdsRead P fx.tree)
    (h : ∀ d, d ∈ want ↔ Declares P fx.tree d) : Wanted P fx want := by
  have hmem (d : String) : d ∈ want ↔
      StandsBare fx.tree d ∨ ∃ name pid, Writes P fx.tree name pid ∧ d = caseName name pid :=
    (h d).trans (declares_iff hids d)
  constructor
  · intro name hname
    rw [hmem]
    apply or_iff_left
    rintro ⟨other, pid, -, rfl⟩
    exact caseName_ne hname rfl
  · intro m pid
    rw [hmem]
    constructor
    · rintro (hbare | ⟨name, pid', hwrites, heq⟩)
      · obtain ⟨m', hm'⟩ := hbare.exists_name
        exact absurd hm'.symm (caseName_ne m'.bracketless)
      · obtain ⟨m', rfl⟩ := hwrites.exists_name
        obtain ⟨hname, rfl⟩ := caseName_inj heq
        rwa [hname]
    · exact fun hwrites => .inr ⟨m.text, pid, hwrites, rfl⟩
  · intro d hd
    rcases (hmem d).mp hd with hbare | ⟨name, pid, hwrites, rfl⟩
    · obtain ⟨m, rfl⟩ := hbare.exists_name
      exact ⟨m, .inl rfl⟩
    · obtain ⟨m, rfl⟩ := hwrites.exists_name
      exact ⟨m, .inr ⟨pid, rfl⟩⟩

theorem Wanted.dotless {want : List String} (h : Wanted P fx want) {d : String} (hd : d ∈ want) :
    '.' ∉ frontOf d := by
  obtain ⟨m, rfl | ⟨pid, rfl⟩⟩ := h.cases d hd
  · rw [frontOf_name]
    exact m.dotless
  · rw [frontOf_case]
    exact m.dotless

variable (P)

/-- A case that is not written falls back on a test: on that whose name stands last in it behind a
dot and before a bracket, or else on its own. -/
def FallsOn (name pid other : String) : Prop :=
  newline ∉ pid.toList ∧
    match (P.namedIn pid).getLast? with
    | some n => other = n
    | none => P.isIdentifier name.toList = true ∧ other = name

variable {P}

theorem stripClass_plain (c m : PyName N) {suffix : List Char} (h : CaseSuffix suffix)
    (hplain : Plain P [c, m]) :
    stripClass P (reportedName [c.text] (m.text ++ String.ofList suffix)) =
      m.text ++ String.ofList suffix := by
  have hstrip := @stripClass_reportedName_iff _ _ P [c] m _ h
  exact hstrip.mpr (.inr hplain)

theorem stripClass_not_plain (c m : PyName N) {suffix : List Char} (h : CaseSuffix suffix)
    (hplain : ¬Plain P [c, m]) :
    stripClass P (reportedName [c.text] (m.text ++ String.ofList suffix)) =
      reportedName [c.text] (m.text ++ String.ofList suffix) := by
  have hreported := reportedName_eq [c] m suffix
  rw [List.map_singleton] at hreported
  rw [hreported]
  exact stripClass_reported_of_not [c] m h hplain

theorem stripClass_case_plain (c m : PyName N) (pid : String) (hplain : Plain P [c, m]) :
    stripClass P (reportedName [c.text] (caseName m.text pid)) = caseName m.text pid := by
  rw [caseName_eq]
  exact stripClass_plain c m (caseSuffix_bracketed pid) hplain

theorem stripClass_case_not_plain (c m : PyName N) (pid : String) (hplain : ¬Plain P [c, m]) :
    stripClass P (reportedName [c.text] (caseName m.text pid)) =
      reportedName [c.text] (caseName m.text pid) := by
  rw [caseName_eq]
  exact stripClass_not_plain c m (caseSuffix_bracketed pid) hplain

theorem plain_pair {c m : PyName N} :
    Plain P [c, m] ↔
      P.isIdentifier c.text.toList = true ∧ P.isIdentifier m.text.toList = true := by
  rw [Plain, List.forall_mem_cons, List.forall_mem_singleton]

theorem sourceMethod_falls (path : List (PyName N)) (m : PyName N) {pid d : String}
    (hd : String.ofList (dotted (path ++ [m]) ++ bracketed pid) ≠ d) :
    sourceMethod P (String.ofList (dotted (path ++ [m]) ++ bracketed pid)) = d ↔
      FallsOn P m.text pid d := by
  by_cases hline : newline ∈ pid.toList
  · rw [sourceMethod_case_newline path m hline]
    exact iff_of_false hd fun h => h.1 hline
  · rw [sourceMethod_case path m hline, FallsOn]
    simp only [hline, not_false_eq_true, true_and]
    cases (P.namedIn pid).getLast? with
    | some n => exact eq_comm
    | none =>
      by_cases hm : P.isIdentifier m.text.toList = true
      · simp only [hm, if_true, true_and]
        exact eq_comm
      · rw [if_neg hm, Option.getD_none]
        exact iff_of_false hd fun h => hm h.1

theorem Wanted.reported_not_mem {want : List String} (h : Wanted P fx want) (m : PyName N)
    {suffix : List Char} (hsuffix : CaseSuffix suffix) :
    reportedName [fx.className.text] (m.text ++ String.ofList suffix) ∉ want :=
  fun hmem => h.dotless hmem (frontOf_reported fx.className m hsuffix)

theorem Wanted.case_not_mem {want : List String} (h : Wanted P fx want) (m : PyName N)
    (pid : String) : reportedName [fx.className.text] (caseName m.text pid) ∉ want := by
  rw [caseName_eq]
  exact h.reported_not_mem m (caseSuffix_bracketed pid)

theorem Wanted.credit_alone {want : List String} (h : Wanted P fx want) (m : PyName N)
    (hm : P.isIdentifier m.text.toList = true) :
    credit P want (stripClass P (reportedName [fx.className.text] m.text)) = m.text := by
  have hbare : m.text ++ String.ofList [] = m.text := by
    rw [String.ofList_nil, String.append_empty]
  by_cases hplain : Plain P [fx.className, m]
  · have hstrip := stripClass_plain fx.className m caseSuffix_nil hplain
    have hmethod := @sourceMethod_alone _ _ P [] m
    rw [List.nil_append, dotted_singleton, String.ofList_toList, if_pos hm] at hmethod
    rw [hbare] at hstrip
    rw [hstrip, credit, hmethod, ite_self]
  · have hstrip := stripClass_not_plain fx.className m caseSuffix_nil hplain
    have hmem := h.reported_not_mem m caseSuffix_nil
    have hreported := reportedName_eq [fx.className] m []
    have hmethod := @sourceMethod_alone _ _ P [fx.className] m
    rw [List.append_nil, List.map_singleton] at hreported
    rw [if_pos hm, ← hreported] at hmethod
    rw [hbare] at hstrip hmem hmethod
    rw [hstrip, credit, if_neg hmem, hmethod]

theorem Wanted.credit_alone_not {want : List String} (h : Wanted P fx want) (m : PyName N)
    (hm : ¬P.isIdentifier m.text.toList = true) :
    credit P want (stripClass P (reportedName [fx.className.text] m.text)) ∉ want := by
  have hbare : m.text ++ String.ofList [] = m.text := by
    rw [String.ofList_nil, String.append_empty]
  have hplain : ¬Plain P [fx.className, m] :=
    fun hplain => hm (hplain m (List.mem_cons_of_mem _ List.mem_cons_self))
  have hstrip := stripClass_not_plain fx.className m caseSuffix_nil hplain
  have hmem := h.reported_not_mem m caseSuffix_nil
  have hreported := reportedName_eq [fx.className] m []
  have hmethod := @sourceMethod_alone _ _ P [fx.className] m
  rw [List.append_nil, List.map_singleton] at hreported
  rw [if_neg hm, ← hreported] at hmethod
  rw [hbare] at hstrip hmem hmethod
  rw [hstrip, credit, if_neg hmem, hmethod]
  exact hmem

theorem Wanted.credit_written {want : List String} (h : Wanted P fx want) (m : PyName N)
    {pid : String} (hplain : Plain P [fx.className, m]) (hwrites : Writes P fx.tree m.text pid) :
    credit P want (stripClass P (reportedName [fx.className.text] (caseName m.text pid))) =
      caseName m.text pid := by
  rw [stripClass_case_plain fx.className m pid hplain, credit, if_pos ((h.case m pid).mpr hwrites)]

theorem Wanted.credit_other {want : List String} (h : Wanted P fx want) (m : PyName N)
    {pid d : String} (hd : d ∈ want)
    (hnot : ¬(Plain P [fx.className, m] ∧ Writes P fx.tree m.text pid)) :
    credit P want (stripClass P (reportedName [fx.className.text] (caseName m.text pid))) = d ↔
      FallsOn P m.text pid d := by
  by_cases hplain : Plain P [fx.className, m]
  · have hmem : caseName m.text pid ∉ want :=
      fun hmem => hnot ⟨hplain, (h.case m pid).mp hmem⟩
    have hbare : caseName m.text pid = String.ofList (dotted ([] ++ [m]) ++ bracketed pid) := by
      rw [caseName_eq, List.nil_append, dotted_singleton, String.ofList_append,
        String.ofList_toList]
    rw [stripClass_case_plain fx.className m pid hplain, credit, if_neg hmem, hbare]
    apply sourceMethod_falls [] m
    rw [← hbare]
    exact fun heq => hmem (heq ▸ hd)
  · have hreported := reportedName_eq [fx.className] m (bracketed pid)
    rw [List.map_singleton, ← caseName_eq] at hreported
    rw [stripClass_case_not_plain fx.className m pid hplain, credit,
      if_neg (h.case_not_mem m pid), hreported]
    apply sourceMethod_falls [fx.className] m
    rw [← hreported]
    exact fun heq => h.case_not_mem m pid (heq ▸ hd)

/-- The declared name that a test is credited to. -/
def TierFixture.creditOf (P : Python F) (fx : TierFixture F N) (want : List String) (test : String) :
    String :=
  credit P want (stripClass P (reportedName [fx.className.text] test))

/-- What a test is credited to, by its cases. -/
structure TierFixture.Credits (P : Python F) (fx : TierFixture F N) (want : List String) : Prop where
  alone : ∀ m ∈ fx.visibleTests, P.isIdentifier m.name.toList = true →
    fx.creditOf P want m.name = m.name
  unknown : ∀ m ∈ fx.visibleTests, ¬P.isIdentifier m.name.toList = true →
    fx.creditOf P want m.name ∉ want
  written : ∀ m ∈ fx.visibleTests, ∀ pid, P.isIdentifier fx.className.text.toList = true →
    P.isIdentifier m.name.toList = true → Writes P fx.tree m.name pid →
    fx.creditOf P want (caseName m.name pid) = caseName m.name pid
  other : ∀ m ∈ fx.visibleTests, ∀ pid, ∀ d ∈ want,
    ¬((P.isIdentifier fx.className.text.toList = true ∧ P.isIdentifier m.name.toList = true) ∧
      Writes P fx.tree m.name pid) →
    (fx.creditOf P want (caseName m.name pid) = d ↔ FallsOn P m.name pid d)

theorem Wanted.credits {want : List String} (h : Wanted P fx want) : fx.Credits P want where
  alone m hm hname := h.credit_alone ⟨m.name, visible_isName hm⟩ hname
  unknown m hm hname := h.credit_alone_not ⟨m.name, visible_isName hm⟩ hname
  written m hm pid hclass hname hwrites :=
    h.credit_written ⟨m.name, visible_isName hm⟩ (plain_pair.mpr ⟨hclass, hname⟩) hwrites
  other m hm pid d hd hnot := by
    apply h.credit_other ⟨m.name, visible_isName hm⟩ hd
    rwa [plain_pair]

/-- A name that a case falls back on has no case of its own. -/
theorem FallsOn.bracketless {name pid other : String} (h : FallsOn P name pid other) :
    '[' ∉ other.toList := by
  obtain ⟨-, hother⟩ := h
  cases hlast : (P.namedIn pid).getLast? with
  | some n =>
    rw [hlast] at hother
    obtain rfl : other = n := hother
    exact isIdentifier_bracketless (namedIn_isIdentifier _ (List.mem_of_getLast? hlast))
  | none =>
    rw [hlast] at hother
    obtain ⟨hname, rfl⟩ := hother
    exact isIdentifier_bracketless hname

theorem Wanted.credit_not_written {want : List String} (h : Wanted P fx want)
    {m : TestMethod F} (hm : m ∈ fx.visibleTests) {pid d : String} (hd : d ∈ want)
    (hwrites : ¬Writes P fx.tree m.name pid) :
    fx.creditOf P want (caseName m.name pid) = d ↔ FallsOn P m.name pid d :=
  h.credits.other m hm pid d hd fun hexact => hwrites hexact.2

end EsConnector.TierGate
