import EsConnector.HealthyRun

namespace EsConnector.TierGate
set_option autoImplicit true

variable {F : Type} {N : NameChars} {P : Python F}

theorem idsKeyword_none {keywords : List (Option String × PyExpr F)} (ids : Option (Literal F))
    (h : ∀ kw ∈ keywords, kw.1 ≠ some "ids") :
    keywords.foldlM (fun ids kw => if kw.1 = some "ids" then (literalEval kw.2).map some
      else some ids) ids = some ids := by
  induction keywords with
  | nil => rfl
  | cons kw keywords ih =>
    obtain ⟨hkw, hrest⟩ := List.forall_mem_cons.mp h
    rw [List.foldlM_cons, if_neg hkw]
    exact ih hrest

theorem idsKeyword_one {keywords : List (Option String × PyExpr F)} {key : String}
    {given : PyExpr F} (ids : Option (Literal F))
    (h : keywords.filter (fun kw => kw.1 = none ∨ kw.1 = some "ids") = [(some key, given)]) :
    keywords.foldlM (fun ids kw => if kw.1 = some "ids" then (literalEval kw.2).map some
      else some ids) ids = (literalEval given).map some := by
  induction keywords with
  | nil => cases h
  | cons kw keywords ih =>
    rw [List.filter_cons] at h
    rw [List.foldlM_cons]
    split at h
    · rename_i hkw
      obtain ⟨rfl, hrest⟩ := List.cons.inj h
      have hids : key = "ids" := by simpa using hkw
      have hothers : ∀ kw ∈ keywords, kw.1 ≠ some "ids" := by
        intro kw hmem heq
        exact List.filter_eq_nil_iff.mp hrest kw hmem (decide_eq_true (.inr heq))
      rw [if_pos (congrArg some hids)]
      cases literalEval given with
      | none => rfl
      | some v => exact idsKeyword_none (some v) hothers
    · rename_i hkw
      have hother : kw.1 ≠ some "ids" := fun heq => hkw (decide_eq_true (.inr heq))
      rw [if_neg hother]
      exact ih h

theorem literalSequence_some {e : PyExpr F} {xs : List (Literal F)}
    (h : literalSequence e = some xs) :
    literalEval e = some (.list xs) ∨ literalEval e = some (.tuple xs) := by
  rw [literalSequence.eq_def] at h
  split at h
  · rename_i heval
    exact .inl (Option.some.inj h ▸ heval)
  · rename_i heval
    exact .inr (Option.some.inj h ▸ heval)
  · cases h

/-- Ids that are literals are read, and looked up by index. -/
theorem givenIds_some {keywords : List (Option String × PyExpr F)} {given : List (Literal F)}
    (h : givenIds keywords = some given) :
    ∃ ids, keywords.foldlM (fun ids kw => if kw.1 = some "ids" then (literalEval kw.2).map some
        else some ids) none = some ids ∧ ∀ i, P.idAt ids i = .ok given[i]? := by
  rw [givenIds.eq_def] at h
  split at h
  · rename_i hnone
    obtain rfl := Option.some.inj h
    refine ⟨none, ?_, fun i => rfl⟩
    apply idsKeyword_none
    intro kw hkw heq
    exact List.filter_eq_nil_iff.mp hnone kw hkw (decide_eq_true (.inr heq))
  · rename_i key expr hone
    have hfold := idsKeyword_one none hone
    split at h
    · rename_i heval
      obtain rfl := Option.some.inj h
      rw [heval] at hfold
      exact ⟨_, hfold, fun i => rfl⟩
    · rcases literalSequence_some h with heval | heval
      · rw [heval] at hfold
        exact ⟨_, hfold, fun i => rfl⟩
      · rw [heval] at hfold
        exact ⟨_, hfold, fun i => rfl⟩
  · cases h

theorem readParameters_of_literals {argvalues : PyExpr F}
    {keywords : List (Option String × PyExpr F)} {sets given : List (Literal F)}
    (h : literalLists argvalues keywords = some (sets, given)) (hcall : holdsCall argvalues = false)
    (hsets : sets ≠ []) :
    ∃ ids, readParameters argvalues keywords = some (sets, ids) ∧
      ∀ i, P.idAt ids i = .ok given[i]? := by
  obtain ⟨sets', hsequence, h⟩ := Option.bind_eq_some_iff.mp h
  obtain ⟨given', hids, h⟩ := Option.bind_eq_some_iff.mp h
  obtain ⟨rfl, rfl⟩ := Prod.mk.inj (Option.some.inj h)
  obtain ⟨ids, hids, hgiven⟩ := @givenIds_some _ P _ _ hids
  refine ⟨ids, ?_, hgiven⟩
  obtain ⟨s, rest, rfl⟩ := List.exists_cons_of_ne_nil hsets
  have hnocall : ¬holdsCall argvalues = true := by rw [hcall]; exact Bool.false_ne_true
  rw [readParameters, if_neg hnocall, hids]
  rcases literalSequence_some hsequence with heval | heval
  · rw [heval]
    rfl
  · rw [heval]
    rfl

theorem paramId_of_given {ids given : Option (Literal F)} {i : Nat} (h : P.idAt ids i = .ok given)
    (v : Literal F) :
    P.paramId ids i v = .ok (given.elim (joinedValues P (parameterValues v)) P.str) := by
  rw [Python.paramId.eq_def, h]
  cases given with
  | some g => rfl
  | none =>
    have hone (v : Literal F) : joinedValues P [v] = P.str v := String.intercalate_singleton
    cases v with
    | list xs => rfl
    | tuple xs => rfl
    | _ => exact congrArg Except.ok (hone _).symm

variable [PyFloat F]

theorem frameworkId_eq_iff (given : Option (Literal F)) (values : List (Literal F)) :
    frameworkId P given values = given.elim (joinedValues P values) P.str ↔
      ∀ g ∈ given, g.truthy = true ∨ P.str g = joinedValues P values := by
  cases given with
  | none => exact iff_of_true rfl nofun
  | some g =>
    rw [Option.elim_some]
    simp only [Option.mem_def, Option.some.injEq, forall_eq']
    by_cases hg : g.truthy = true
    · exact iff_of_true (if_pos hg) (.inl hg)
    · have hjoined : frameworkId P (some g) values = joinedValues P values := if_neg hg
      rw [hjoined, or_iff_right hg]
      exact eq_comm

/-- The cases of a test are listed: its lists are literals without calls, no falsy id is given but with
the text of the values, and no id comes twice. -/
def ListedCases (P : Python F) (m : TestMethod F) : Prop :=
  ∃ mark sets given, bottomMark m = some mark ∧ literalLists mark.1 mark.2 = some (sets, given) ∧
    holdsCall mark.1 = false ∧ sets ≠ [] ∧ (literalIds P sets given).Nodup ∧
    ∀ s ∈ sets.zipIdx, ∀ g ∈ given[s.2]?,
      g.truthy = true ∨ P.str g = joinedValues P (parameterValues s.1)

/-- The cases of a test are known at run time only: there are some, and their ids do not look like
names of tests. -/
def TierFixture.RuntimeCases (P : Python F) (fx : TierFixture F N) (m : TestMethod F) : Prop :=
  readLists m = none ∧ ∃ pids, fx.caseIds P m = some pids ∧ pids ≠ [] ∧
    ∀ pid ∈ pids, newline ∉ pid.toList ∧ P.namedIn pid = []

/-- What a fixture is to keep to. -/
structure TierFixture.Regular (P : Python F) (fx : TierFixture F N) : Prop where
  className : P.isIdentifier fx.className.text.toList = true
  names : ∀ m ∈ fx.visibleTests, P.isIdentifier m.name.toList = true
  /-- Each test of the module is visible on its class, and there is no other. -/
  visible : ∀ m, m ∈ fx.visibleTests ↔ m ∈ testMethods fx.tree
  cases : ∀ m ∈ fx.visibleTests, bottomMark m ≠ none → ListedCases P m ∨ fx.RuntimeCases P m

/-- The ids that are written in listed cases are those of the framework. -/
theorem ListedCases.written {fx : TierFixture F N} {m : TestMethod F} (h : ListedCases P m) :
    ∃ pids, fx.caseIds P m = some pids ∧ pids.Nodup ∧ ∃ values ids, readLists m = some (values, ids) ∧
      values.zipIdx.mapM (fun v => P.paramId ids v.2 v.1) = .ok pids := by
  obtain ⟨mark, sets, given, hmark, hlists, hcall, hsets, hnodup, hgiven⟩ := h
  obtain ⟨ids, hread, hids⟩ := @readParameters_of_literals _ P _ _ _ _ hlists hcall hsets
  refine ⟨literalIds P sets given, ?_, hnodup, sets, ids, ?_, ?_⟩
  · rw [TierFixture.caseIds, hmark, Option.map_some, hlists]
  · rw [readLists, hmark, Option.bind_some, hread]
  · apply mapM_of_forall₂
    rw [literalIds, List.forall₂_map_right_iff, List.forall₂_same]
    intro s hs
    rw [paramId_of_given (hids s.2), (frameworkId_eq_iff _ _).mpr (hgiven s hs)]

namespace TierFixture.Regular

variable {fx : TierFixture F N}

theorem alone_of_none {m : TestMethod F} (h : fx.caseIds P m = none) : bottomMark m = none := by
  rw [TierFixture.caseIds, Option.map_eq_none_iff] at h
  exact h

theorem eq_of_tree (h : fx.Regular P) {m m' : TestMethod F} (hm : m ∈ testMethods fx.tree)
    (hm' : m' ∈ testMethods fx.tree) (hname : m.name = m'.name) : m = m' :=
  eq_of_visible ((h.visible m).mpr hm) ((h.visible m').mpr hm') hname

theorem listed_of_lists (h : fx.Regular P) {m : TestMethod F} (hm : m ∈ testMethods fx.tree)
    {lists : List (Literal F) × Option (Literal F)} (hlists : readLists m = some lists) :
    ListedCases P m := by
  have hmark : bottomMark m ≠ none := by
    intro hnone
    rw [readLists, hnone] at hlists
    cases hlists
  rcases h.cases m ((h.visible m).mpr hm) hmark with hlisted | ⟨hnone, -⟩
  · exact hlisted
  · cases hnone.symm.trans hlists

theorem writes_iff (h : fx.Regular P) {m : TestMethod F} (hm : m ∈ fx.visibleTests)
    {pids : List String} (hlisted : ListedCases P m) (hcases : fx.caseIds P m = some pids)
    (pid : String) : Writes P fx.tree m.name pid ↔ pid ∈ pids := by
  obtain ⟨pids', hcases', -, values, ids, hlists, hread⟩ := @ListedCases.written _ _ _ _ fx _ hlisted
  obtain rfl := Option.some.inj (hcases.symm.trans hcases')
  constructor
  · rintro ⟨m', hm', hname, values', ids', hlists', v, hv, hpid⟩
    obtain rfl := h.eq_of_tree hm' ((h.visible m).mp hm) hname
    obtain ⟨rfl, rfl⟩ := Prod.mk.inj (Option.some.inj (hlists.symm.trans hlists'))
    obtain ⟨pid', hmem, hpid'⟩ := mapM_ok hread v hv
    exact Except.ok.inj (hpid.symm.trans hpid') ▸ hmem
  · intro hpid
    obtain ⟨v, hv, hwritten⟩ := mapM_ok_mem hread pid hpid
    exact ⟨m, (h.visible m).mp hm, rfl, values, ids, hlists, v, hv, hwritten⟩

theorem not_writes (h : fx.Regular P) {m : TestMethod F} (hm : m ∈ fx.visibleTests)
    (hnone : readLists m = none) (pid : String) : ¬Writes P fx.tree m.name pid := by
  rintro ⟨m', hm', hname, values, ids, hlists, -⟩
  obtain rfl := h.eq_of_tree hm' ((h.visible m).mp hm) hname
  cases hnone.symm.trans hlists

theorem falls_on_own (h : fx.Regular P) {m : TestMethod F} (hm : m ∈ fx.visibleTests) {pid : String}
    (hline : newline ∉ pid.toList) (hnames : P.namedIn pid = []) : FallsOn P m.name pid m.name := by
  rw [FallsOn, hnames]
  exact ⟨hline, h.names m hm, rfl⟩

/-- The source of a regular fixture agrees with what runs of it. -/
theorem agrees (h : fx.Regular P) : fx.Agrees P where
  reads m hm values ids hlists v hv := by
    obtain ⟨pids, -, -, values', ids', hlists', hread⟩ :=
      @ListedCases.written _ _ _ _ fx _ (h.listed_of_lists hm hlists)
    obtain ⟨rfl, rfl⟩ := Prod.mk.inj (Option.some.inj (hlists.symm.trans hlists'))
    obtain ⟨pid, -, hpid⟩ := mapM_ok hread v hv
    exact ⟨pid, hpid⟩
  alone m hm hcases := by
    have hlists : readLists m = none := by rw [readLists, alone_of_none hcases, Option.bind_none]
    exact ⟨h.names m hm, m, (h.visible m).mp hm, rfl, hlists⟩
  written name pid hwrites := by
    have hwritten := hwrites
    obtain ⟨m, hm, rfl, values, ids, hlists, -⟩ := hwrites
    have hvisible := (h.visible m).mpr hm
    have hlisted := h.listed_of_lists hm hlists
    obtain ⟨pids, hcases, hnodup, -⟩ := @ListedCases.written _ _ _ _ fx _ hlisted
    have hpid := (h.writes_iff hvisible hlisted hcases pid).mp hwritten
    exact ⟨h.className, h.names m hvisible, m, hvisible, rfl, pids, hcases,
      List.count_eq_one_of_mem hnodup hpid⟩
  others m hm pids hcases pid hpid hwrites := by
    have hmark : bottomMark m ≠ none := by
      intro hnone
      rw [TierFixture.caseIds, hnone] at hcases
      cases hcases
    rcases h.cases m hm hmark with hlisted | ⟨hnone, pids', hcases', -, hplain⟩
    · exact absurd ((h.writes_iff hm hlisted hcases pid).mpr hpid) hwrites
    · obtain rfl := Option.some.inj (hcases.symm.trans hcases')
      obtain ⟨hline, hnames⟩ := hplain pid hpid
      exact ⟨m.name, h.falls_on_own hm hline hnames, m, (h.visible m).mp hm, rfl, hnone⟩
  bare name hbare := by
    obtain ⟨m, hm, rfl, hnone⟩ := hbare
    have hvisible := (h.visible m).mpr hm
    by_cases hmark : bottomMark m = none
    · refine .inl ⟨m, hvisible, rfl, ?_⟩
      rw [TierFixture.caseIds, hmark, Option.map_none]
    · rcases h.cases m hvisible hmark with hlisted | ⟨-, pids, hcases, hsome, hplain⟩
      · obtain ⟨pids, -, -, values, ids, hlists, -⟩ := @ListedCases.written _ _ _ _ fx _ hlisted
        cases hnone.symm.trans hlists
      · obtain ⟨pid, hpid⟩ := List.exists_mem_of_ne_nil _ hsome
        obtain ⟨hline, hnames⟩ := hplain pid hpid
        exact .inr ⟨m, hvisible, pids, hcases, pid, hpid, h.not_writes hvisible hnone pid,
          h.falls_on_own hvisible hline hnames⟩

end TierFixture.Regular

/-- A healthy run of regular fixtures is found without problems. -/
theorem regular_run_clean {tier : Tier F N} {results : Json F} (h : HealthyResults P tier results)
    (hsome : tier.entries P ≠ []) (hregular : ∀ fx ∈ tier.fixtures, fx.Regular P)
    (shown directory : String) :
    ∃ report, check P shown directory tier.sources results = .ok report ∧ report.problems = [] :=
  h.clean hsome (fun fx hfx => (hregular fx hfx).agrees) shown directory

end EsConnector.TierGate
