import EsConnector.ExactlyOnce
import EsConnector.PartitionAccounts
import EsConnector.Truthful

namespace EsConnector
set_option autoImplicit true

open Interaction

variable {Id Src Line : Type} [DecidableEq Id] {act : Line → Action Id Src} {lines : List Line}

/-- Every line creates a document. -/
def AllCreate (act : Line → Action Id Src) (lines : List Line) : Prop :=
  ∀ line ∈ lines, ∃ i src, act line = .create i src

omit [DecidableEq Id] in
theorem AllCreate.adds (h : AllCreate act lines) : ∀ line ∈ lines, (act line).Adds := by
  intro line hline
  obtain ⟨i, src, ha⟩ := h line hline
  rw [ha]
  trivial

/-- The id of a line is present. -/
def Present (act : Line → Action Id Src) (line : Line) (st : Store Id Src) : Prop :=
  ∀ i src, act line = .create i src → st i ≠ none

/-- A create that was applied, or refused because its id exists, leaves the id present for good. -/
theorem AllCreate.effect (h : AllCreate act lines) : Effect act lines (Present act) where
  applied line _ st st' ha i src he := by
    rw [he] at ha
    cases ha
    simp
  ignored line _ st status hh hi i src he := by
    rw [he] at hh hi
    obtain ⟨-, ⟨hop, -⟩ | ⟨-, hstatus⟩⟩ := classifyBulkResult_ignored_iff.mp hi
    · cases hop
    · exact hh hstatus
  stable line _ other hother st st' ha hp i src he := by
    obtain ⟨j, src', hj, rfl⟩ := (h.adds other hother).fresh ha
    have hne : i ≠ j := fun hij => hp i src he (hij ▸ hj)
    rw [Function.update_of_ne hne]
    exact hp i src he

/-- A document that is there has not been rewritten, and one that is new is some line's. -/
structure Appended (act : Line → Action Id Src) (lines : List Line) (st₀ st : Store Id Src) :
    Prop where
  kept : ∀ i, st₀ i ≠ none → st i = st₀ i
  created : ∀ i src, st₀ i = none → st i = some src → ∃ line ∈ lines, act line = .create i src

omit [DecidableEq Id] in
theorem Appended.refl (st : Store Id Src) : Appended act lines st st where
  kept _ _ := rfl
  created i src hn hs := by
    rw [hn] at hs
    cases hs

theorem Appended.applies (hline : line ∈ lines) (hact : act line = .create j src')
    (ha : Applies (act line) st st') (h : Appended act lines st₀ st) :
    Appended act lines st₀ st' := by
  rw [hact] at ha
  cases ha with
  | create hj =>
    constructor
    · intro i hi
      have hne : i ≠ j := by
        intro rfl
        rw [h.kept i hi] at hj
        exact hi hj
      rw [Function.update_of_ne hne]
      exact h.kept i hi
    · intro i src hn hs
      by_cases hij : i = j
      · subst hij
        rw [Function.update_self] at hs
        cases hs
        exact ⟨line, hline, hact⟩
      · rw [Function.update_of_ne hij] at hs
        exact h.created i src hn hs

theorem Appended.work (hact : AllCreate act lines) {s s' : EsState Id Src Line}
    {q : BulkRequest Line} (hq : q.operations ⊆ lines) (hw : Handles act rules s q p s' p')
    (h : Appended act lines st₀ s.store) : Appended act lines st₀ s'.store := by
  cases hw with
  | refused => exact h
  | applied hl hop hok ha =>
    have hline := hq (List.mem_of_getElem? hl)
    obtain ⟨j, src, he⟩ := hact _ hline
    exact h.applies hline he ha

/-- There are no more new documents than lines. -/
theorem Appended.ncard_le (h : Appended act lines st₀ st) :
    (newIds st₀ st).ncard ≤ lines.length := by
  let idOf : Line → Option Id := fun line => match act line with
    | .create i _ => some i
    | _ => none
  have hsub : newIds st₀ st ⊆ ↑(lines.filterMap idOf).toFinset := by
    rintro i ⟨hn, hne⟩
    obtain ⟨src, hs⟩ := Option.ne_none_iff_exists'.mp hne
    obtain ⟨line, hline, he⟩ := h.created i src hn hs
    rw [List.coe_toFinset]
    exact List.mem_filterMap.mpr ⟨line, hline, by simp only [idOf, he]⟩
  calc (newIds st₀ st).ncard
      ≤ Set.ncard (↑(lines.filterMap idOf).toFinset : Set Id) :=
        Set.ncard_le_ncard hsub (Finset.finite_toSet _)
    _ = (lines.filterMap idOf).toFinset.card := Set.ncard_coe_finset _
    _ ≤ (lines.filterMap idOf).length := List.toFinset_card_le _
    _ ≤ lines.length := List.length_filterMap_le _ _

theorem Replies.oneItemPerLine {rules : EsRules} (hall : rules.allItems = true)
    {q : BulkRequest Line} (h : Replies rules q p r) : OneItemPerLine ⟨q, r⟩ := by
  intro resp hres hfp
  rw [Replies, show r.result = .ok resp from hres] at h
  obtain ⟨done, -, hlen, -, hfull⟩ := h
  obtain ⟨items, hi, -, heq⟩ := hfull hfp
  exact ⟨items, hi, heq hall ▸ hlen⟩

section Runs

variable [NdjsonLine Line] {rules : EsRules} {cfg : EsWriteConfig} {t : Tally}
  {s₀ s : EsState Id Src Line}

theorem wp_chunk (cfg : EsWriteConfig) (lines : List Line) (t : Tally) :
    wp (callEnv FewItems fun (q : BulkRequest Line) => q.operations ⊆ lines)
      (shipNdjsonChunk cfg lines t) (Accounts lines t []) [] :=
  wp_shipNdjsonChunk_accounts (fun _ _ h => h) (fun _ hq _ => hq) t []

/-- With `op_type='create'` nothing is lost or overwritten: whatever was there before any point of
the run is there at its end, a new document is that of a line, without errors every id is present,
and the counts enclose the number of new documents. -/
theorem create_append_only (act : Line → Action Id Src) (hall : rules.allItems = true)
    (hhonest : rules.honest = true) (cfg : EsWriteConfig) (lines : List Line)
    (hact : AllCreate act lines) (t : Tally) (s₀ s : EsState Id Src Line)
    (th : BulkThread Line ChunkResult) (r : ChunkResult)
    (hrun : (elasticsearch act rules).Solo (shipNdjsonChunk cfg lines t) s₀ s th)
    (hend : th.rest = .ret r) :
    ∃ t' c, r = .ok t' ∧ t'.counts = t.counts + c ∧ Appended act lines s₀.store s.store ∧
      (∀ s₁ th₁, (elasticsearch act rules).Solo (shipNdjsonChunk cfg lines t) s₀ s₁ th₁ →
        (elasticsearch act rules).Steps s₁ th₁ s th → Appended act lines s₁.store s.store) ∧
      (c.errors = 0 → ∀ line ∈ lines, Present act line s.store) ∧
      (newIds s₀.store s.store).Finite ∧
      c.written ≤ (newIds s₀.store s.store).ncard ∧
      (newIds s₀.store s.store).ncard ≤ c.written + c.ignored + c.errors := by
  have hfew (s : EsState Id Src Line) (q : BulkRequest Line) (p r)
      (h : (elasticsearch act rules).reply s q p r) : FewItems q r := Replies.fewItems h
  have happended (s₁ : EsState Id Src Line) (th₁ : BulkThread Line ChunkResult)
      (h₁ : (elasticsearch act rules).Solo (shipNdjsonChunk cfg lines t) s₀ s₁ th₁)
      (h₂ : (elasticsearch act rules).Steps s₁ th₁ s th) : Appended act lines s₁.store s.store := by
    have hsound : th₁.Sound FewItems (fun q => q.operations ⊆ lines)
        (shipNdjsonChunk cfg lines t) := .solo hfew h₁
    exact h₂.state (K := fun s => Appended act lines s₁.store s.store) hfew (wp_chunk cfg lines t) hsound
      (fun _ _ _ _ _ hq hw h => Appended.work hact hq hw h) (.refl s₁.store)
  have hsound : th.Sound (fun q r => FewItems q r ∧ OneItemPerLine ⟨q, r⟩)
      (fun q => q.operations ⊆ lines) (shipNdjsonChunk cfg lines t) :=
    .solo (fun s q p r h => ⟨hfew s q p r h, Replies.oneItemPerLine hall h⟩) hrun
  have hone : ∀ c ∈ th.log, OneItemPerLine c := fun c hc => (hsound.replies c hc).2
  rw [Thread.Sound, hend] at hsound
  obtain ⟨t', c, calls, rfl, hc, hlog, hacc⟩ := Env.Run.ensures hsound
    (wp_shipNdjsonChunk_accounts (fun _ _ h => h.1) (fun _ hq _ => hq) t [])
  rw [List.nil_append] at hlog
  subst hlog
  have hmissing := missing_eq_zero hone
  have hadd := additive_of_solo hact.adds hrun
  obtain ⟨h, happ, hgrown⟩ := hadd.grown
  obtain ⟨h', lost, hledger⟩ := applied_ledger hall hrun
  obtain rfl := List.append_cancel_left (happ.symm.trans hledger.applied)
  have hnew := happended s₀ _ (.refl ..) hrun
  have hacked := hacc.acked
  have htotal := hacc.total
  rw [hacc.noDeletes hadd.noDeletes, Nat.add_zero] at hacked
  simp only [Counts.total, hacc.noDeletes hadd.noDeletes, hmissing, List.length_nil] at htotal
  refine ⟨t', c, rfl, hc, hnew, happended, ?_, hgrown.finite, ?_, ?_⟩
  · intro he line hline
    have hkeep := hrun.keeping hfew (wp_chunk cfg lines t)
      (truthful_keeps hact.effect hhonest (K := fun _ => True) fun _ _ _ _ _ _ _ h => h)
    rcases hacc.vouched he hmissing line hline with hp | ⟨call, hcall, hv⟩
    · exact absurd hp List.not_mem_nil
    · exact (hkeep.log call hcall).2 line hv
  · rw [hgrown.card, hledger.perm.length_eq, hacked, List.length_append, List.length_append]
    omega
  · apply hnew.ncard_le.trans
    omega

end Runs

/-- A line that a probe creates and whose own repetition then answers 409. -/
theorem create_append_only_own_conflict :
    ∃ (s : EsState Nat String String) (th : BulkThread String ChunkResult) (t' : Tally),
      th.log.length = 2 ∧ th.rest = .ret (.ok t') ∧ t'.counts = { ignored := 1 } ∧
      Appended (.create 0) ["a"] (fun _ => none) s.store ∧ Present (.create 0) "a" s.store ∧
      (newIds (fun _ => none) s.store).ncard ≤ 1 := by
  let act : String → Action Nat String := .create 0
  let item (status : Int) : Item := some (.create, { status := some status })
  let s₀ : EsState Nat String String := ⟨fun _ => none, []⟩
  have hanswers (status : Int) : Answers (act "a") (item status) := by
    rintro op body ⟨⟩
    rfl
  have hprobe : Replies ⟨true, true, true⟩ (⟨["a"], .errors⟩ : BulkRequest String)
      [some (item 201)] { result := .ok {} } :=
    ⟨[item 201], rfl, rfl, fun _ h => absurd h (by simp), fun h => absurd h.symm Bool.false_ne_true⟩
  have hfull : Replies ⟨true, true, true⟩ (⟨["a"], .items⟩ : BulkRequest String)
      [some (item 409)] { result := .ok { items := some [item 409] } } :=
    ⟨[item 409], rfl, rfl, fun h => absurd h Bool.false_ne_true, fun _ => ⟨_, rfl, List.prefix_refl _,
      fun _ => rfl⟩⟩
  obtain ⟨s, th, t', hrun, hlen, hend, hignored⟩ : ∃ (s : EsState Nat String String)
      (th : BulkThread String ChunkResult) (t' : Tally), (elasticsearch act ⟨true, true, true⟩).Solo
        (shipNdjsonChunk { hosts := "h" } ["a"] (.start false)) s₀ s th ∧
        th.log.length = 2 ∧ th.rest = .ret (.ok t') ∧ t'.counts = { ignored := 1 } :=
    ⟨_, _, _, (Steps.single (.applied_single (hanswers 201) rfl (.create rfl)) hprobe).trans
      (Steps.single (.refused_single (hanswers 409) rfl fun _ _ => by simp) hfull), rfl, rfl, rfl⟩
  obtain ⟨_, c, ht, hc, happ, -, hpresent, -, -, hle⟩ := create_append_only act rfl rfl _ ["a"]
    (fun _ _ => ⟨0, _, rfl⟩) (.start false) s₀ s th _ hrun hend
  cases ht
  have hcounts : 0 + c = t'.counts := hc.symm
  rw [hignored, zero_add] at hcounts
  subst hcounts
  exact ⟨s, th, t', hlen, hend, hignored, happ, hpresent rfl "a" (List.mem_singleton_self _), hle⟩
end EsConnector
