import EsConnector.TierGate

namespace EsConnector.TierGate
set_option autoImplicit true

variable {F : Type} {P : Python F}

theorem mem_fixtureTestNames {tree : List (Statement F)} {names : List String}
    (h : fixtureTestNames P tree = .ok names) (d : String) : d ∈ names ↔ Declares P tree d := by
  suffices ∀ (ms : List (TestMethod F)) (found : List String),
      ms.foldlM (fun found m => do
        let expansions ← expansionNames P m
        return (found ∪ expansions.getD [m.name]).dedup) found = .ok names →
      (d ∈ names ↔ d ∈ found ∨ ∃ m ∈ ms, ∃ expansions, expansionNames P m = .ok expansions ∧
        d ∈ expansions.getD [m.name]) from
    (this _ _ h).trans (or_iff_right List.not_mem_nil)
  intro ms
  induction ms with
  | nil =>
    intro found hfound
    cases hfound
    simp
  | cons m ms ih =>
    intro found hfound
    rw [List.foldlM_cons] at hfound
    obtain ⟨found', hstep, hfound⟩ := bind_ok hfound
    obtain ⟨expansions, hexpansions, hstep⟩ := bind_ok hstep
    cases hstep
    rw [ih _ hfound, List.mem_dedup, List.mem_union_iff, or_assoc, List.exists_mem_cons_iff]
    refine or_congr_right (or_congr_left ?_)
    exact ⟨fun hd => ⟨expansions, hexpansions, hd⟩, fun ⟨e, he, hd⟩ => by
      cases hexpansions.symm.trans he
      exact hd⟩

/-- Each fixture has its names under its stem. -/
theorem sourceTestNames_of_file {fixtures : Fixtures F} {expected : List (String × List String)}
    (h : sourceTestNames P fixtures = .ok expected) {file : String × List (Statement F)}
    (hfile : file ∈ fixtures.files) : ∃ want, expected.lookup file.1 = some want ∧
      (file.1, want) ∈ expected ∧ ∀ d, d ∈ want ↔ Declares P file.2 d := by
  obtain ⟨e, hmem, he⟩ := mapM_ok h file hfile
  obtain ⟨want, hwant, he⟩ := bind_ok he
  cases he
  refine ⟨want, lookup_of_unique hmem fun want' hmem' => ?_, hmem, mem_fixtureTestNames hwant⟩
  obtain ⟨file', hfile', he'⟩ := mapM_ok_mem h _ hmem'
  obtain ⟨names, hnames, he'⟩ := bind_ok he'
  obtain ⟨hstem, rfl⟩ := Prod.mk.inj (Except.ok.inj he')
  obtain rfl := List.inj_on_of_nodup_map fixtures.nodup hfile' hfile hstem
  exact Except.ok.inj (hnames.symm.trans hwant)

theorem sourceTestNames_lookup {fixtures : Fixtures F} {expected : List (String × List String)}
    (h : sourceTestNames P fixtures = .ok expected) {stem : String} {want : List String}
    (hwant : expected.lookup stem = some want) :
    ∃ file ∈ fixtures.files, file.1 = stem ∧ ∀ d, d ∈ want ↔ Declares P file.2 d := by
  obtain ⟨_, _, rfl, -⟩ := List.lookup_eq_some_iff.mp hwant
  obtain ⟨file, hfile, he⟩ := mapM_ok_mem h (stem, want) (by simp)
  obtain ⟨names, hnames, he⟩ := bind_ok he
  obtain ⟨hstem, rfl⟩ := Prod.mk.inj (Except.ok.inj he)
  exact ⟨file, hfile, hstem, mem_fixtureTestNames hnames⟩

variable {want : List String} {stem : String}

/-- A name with its status that counts: the test ran. -/
def Ran (status : String) : Prop := status ∈ covering ∨ status ∈ allowedWithWarning

/-- What the loop knows after some entries, if it has found no problem. -/
structure Coverage.Holds (P : Python F) (want : List String) (entries : List (String × String))
    (c : Coverage) : Prop where
  covered : ∀ m, m ∈ c.covered ↔ ∃ e ∈ entries, credit P want (stripClass P e.1) = m
  seen : ∀ m, m ∈ c.seen ↔ m ∈ want ∧ ∃ e ∈ entries, stripClass P e.1 = m
  ran : ∀ e ∈ entries, Ran e.2
  once : ((entries.map fun e => stripClass P e.1).filter (· ∈ want)).Nodup
  counted : c.counted = entries.length

theorem Coverage.holds_empty : Coverage.empty.Holds P want [] :=
  ⟨by simp [Coverage.empty], by simp [Coverage.empty], by simp, List.nodup_nil, rfl⟩

theorem Coverage.add_not_ran {c : Coverage} {e : String × String} (h : ¬Ran e.2) :
    (c.add P want stem e).problems = c.problems ++ [.notCovering stem e.1 e.2] := by
  obtain ⟨hcovering, hallowed⟩ := not_or.mp h
  simp [Coverage.add, hcovering, hallowed]

theorem Coverage.add_duplicate {c : Coverage} {e : String × String} (hran : Ran e.2)
    (hwant : stripClass P e.1 ∈ want) (hseen : stripClass P e.1 ∈ c.seen) :
    (c.add P want stem e).problems =
      c.problems ++ [.duplicate stem (stripClass P e.1) e.1] := by
  have hexact : (e.2 ∈ covering ∨ e.2 ∈ allowedWithWarning) ∧ stripClass P e.1 ∈ want :=
    ⟨hran, hwant⟩
  simp [Coverage.add, credit, hexact, hseen]

theorem Coverage.add_ran {c : Coverage} {e : String × String} (hran : Ran e.2)
    (hfirst : stripClass P e.1 ∈ want → stripClass P e.1 ∉ c.seen) :
    (c.add P want stem e).problems = c.problems ∧
      (c.add P want stem e).covered = c.covered.insert (credit P want (stripClass P e.1)) ∧
      (c.add P want stem e).seen =
        (if stripClass P e.1 ∈ want then c.seen.insert (stripClass P e.1) else c.seen) ∧
      (c.add P want stem e).counted = c.counted + 1 := by
  by_cases hwant : stripClass P e.1 ∈ want
  · by_cases hcovering : e.2 ∈ covering
    · simp [Coverage.add, credit, hwant, hcovering, hfirst hwant]
    · have hallowed := hran.resolve_left hcovering
      simp [Coverage.add, credit, hwant, hcovering, hallowed, hfirst hwant]
  · by_cases hcovering : e.2 ∈ covering
    · simp [Coverage.add, hwant, hcovering]
    · have hallowed := hran.resolve_left hcovering
      simp [Coverage.add, hwant, hcovering, hallowed]

theorem Coverage.add_ok {c : Coverage} {e : String × String}
    (h : (c.add P want stem e).problems = []) :
    c.problems = [] ∧ Ran e.2 ∧ (stripClass P e.1 ∈ want → stripClass P e.1 ∉ c.seen) := by
  have hran : Ran e.2 := by
    by_contra hnot
    rw [Coverage.add_not_ran hnot] at h
    exact List.append_ne_nil_of_right_ne_nil _ (List.cons_ne_nil _ _) h
  have hfirst (hwant : stripClass P e.1 ∈ want) : stripClass P e.1 ∉ c.seen := by
    intro hseen
    rw [Coverage.add_duplicate hran hwant hseen] at h
    exact List.append_ne_nil_of_right_ne_nil _ (List.cons_ne_nil _ _) h
  exact ⟨(Coverage.add_ran hran hfirst).1 ▸ h, hran, hfirst⟩

theorem Coverage.Holds.add {c : Coverage} {entries : List (String × String)}
    (hc : c.Holds P want entries) {e : String × String}
    (h : (c.add P want stem e).problems = []) :
    (c.add P want stem e).Holds P want (entries ++ [e]) := by
  obtain ⟨-, hran, hfirst⟩ := Coverage.add_ok h
  obtain ⟨-, hcovered, hseen, hcounted⟩ := @Coverage.add_ran _ P want stem _ _ hran hfirst
  have hsome (p : String × String → Prop) :
      (∃ e' ∈ entries ++ [e], p e') ↔ (∃ e' ∈ entries, p e') ∨ p e := by
    simp [or_and_right, exists_or]
  refine ⟨?_, ?_, ?_, ?_, ?_⟩
  · intro m
    rw [hcovered, List.mem_insert_iff, hc.covered, hsome, or_comm, eq_comm]
  · intro m
    rw [hseen, hsome, and_or_left, ← hc.seen]
    by_cases hwant : stripClass P e.1 ∈ want
    · rw [if_pos hwant, List.mem_insert_iff, or_comm]
      refine or_congr_right ⟨?_, fun hm => hm.2.symm⟩
      intro rfl
      exact ⟨hwant, rfl⟩
    · rw [if_neg hwant]
      refine (or_iff_left ?_).symm
      rintro ⟨hm, rfl⟩
      exact hwant hm
  · intro e' he'
    rcases List.mem_append.mp he' with he' | he'
    · exact hc.ran e' he'
    · rw [List.mem_singleton.mp he']
      exact hran
  · rw [List.map_append, List.filter_append]
    refine List.nodup_append.mpr ⟨hc.once, ?_, ?_⟩
    · exact (List.nodup_singleton _).filter _
    · intro a ha b hb rfl
      obtain ⟨hb, hwant⟩ := List.mem_filter.mp hb
      obtain rfl := List.mem_singleton.mp hb
      obtain ⟨e', he', hname⟩ := List.mem_map.mp (List.mem_filter.mp ha).1
      have hwant := of_decide_eq_true hwant
      exact hfirst hwant ((hc.seen _).mpr ⟨hwant, e', he', hname⟩)
  · rw [hcounted, hc.counted, List.length_append, List.length_singleton]

/-- Over a whole loop: where no problem is found, each entry ran, and each declared name came once. -/
theorem Coverage.holds_foldl {entries : List (String × String)}
    (h : (entries.foldl (Coverage.add P want stem) Coverage.empty).problems = []) :
    (entries.foldl (Coverage.add P want stem) Coverage.empty).Holds P want entries := by
  induction entries using List.reverseRecOn with
  | nil => exact Coverage.holds_empty
  | append_singleton entries e ih =>
    rw [List.foldl_append, List.foldl_cons, List.foldl_nil] at h ⊢
    exact (ih (Coverage.add_ok h).1).add h

theorem foldlM_read {ε α β σ : Type} {step : σ → β → σ} {read : α → Except ε β} {xs : List α}
    {s s' : σ} (h : xs.foldlM (fun s x => do return step s (← read x)) s = .ok s') :
    ∃ ys, xs.mapM read = .ok ys ∧ ys.foldl step s = s' := by
  induction xs generalizing s with
  | nil =>
    cases h
    exact ⟨[], rfl, rfl⟩
  | cons x xs ih =>
    rw [List.foldlM_cons] at h
    obtain ⟨s₁, hstep, h⟩ := bind_ok h
    obtain ⟨y, hy, hstep⟩ := bind_ok hstep
    cases hstep
    obtain ⟨ys, hys, hfold⟩ := ih h
    exact ⟨y :: ys, by rw [List.mapM_cons, hy, ok_bind, hys]; rfl, hfold⟩

/-- The entries of a fixture are those of its tests. -/
structure Matches (P : Python F) (want : List String) (entries : List (String × String)) : Prop where
  ran : ∀ e ∈ entries, Ran e.2
  covered : ∀ d ∈ want, ∃ e ∈ entries, credit P want (stripClass P e.1) = d
  credited : ∀ e ∈ entries, credit P want (stripClass P e.1) ∈ want
  once : ((entries.map fun e => stripClass P e.1).filter (· ∈ want)).Nodup

theorem sortedNames_eq_nil {names : List String} : sortedNames names = [] ↔ names = [] := by
  rw [← List.length_eq_zero_iff, ← List.length_eq_zero_iff, sortedNames,
    List.length_insertionSort]

variable [PyFloat F] {expected : List (String × List String)}

theorem checkFixture_ok {entries : List (Fields F)} {report : Report}
    (h : checkFixture P expected stem entries = .ok report) (hnone : report.problems = []) :
    ∃ want read, expected.lookup stem = some want ∧ entries.mapM readEntry = .ok read ∧
      Matches P want read ∧ report.counted = read.length := by
  rw [checkFixture] at h
  split at h
  · cases h
    cases hnone
  split at h
  · cases h
    cases hnone
  split at h
  · cases h
    cases hnone
  · cases h
    cases hnone
  · rename_i want _ hlookup
    obtain ⟨c, hc, h⟩ := bind_ok h
    cases h
    obtain ⟨read, hread, rfl⟩ := foldlM_read hc
    obtain ⟨hrest, horphans⟩ := List.append_eq_nil_iff.mp hnone
    obtain ⟨hproblems, hmissing⟩ := List.append_eq_nil_iff.mp hrest
    have hholds := Coverage.holds_foldl hproblems
    rw [List.map_eq_nil_iff, sortedNames_eq_nil, List.filter_eq_nil_iff] at hmissing horphans
    refine ⟨want, read, hlookup, hread, ⟨hholds.ran, ?_, ?_, hholds.once⟩,
      hholds.counted⟩
    · intro d hd
      have hd := hmissing d hd
      simp only [decide_eq_true_eq, not_not] at hd
      exact (hholds.covered d).mp hd
    · intro e he
      have he := horphans _ ((hholds.covered _).mpr ⟨e, he, rfl⟩)
      simpa using he

end EsConnector.TierGate
