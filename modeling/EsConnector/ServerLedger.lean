import EsConnector.Truthful

namespace EsConnector
set_option autoImplicit true

open Interaction

variable {Id Src Line : Type} [DecidableEq Id] {act : Line → Action Id Src} {rules : EsRules}
  {s s' s₀ : EsState Id Src Line} {q : BulkRequest Line} {p p' : Handled}

abbrev BulkThread (Line α : Type) : Type :=
  Thread Handled (BulkRequest Line) (fun _ => BulkReply) α

/-- The progress of the call a thread waits for. -/
def BulkThread.handled (th : BulkThread Line α) (q : BulkRequest Line) : Handled :=
  th.progress.getD (List.replicate q.operations.length none)

/-- The lines that have taken effect in the call a thread waits for. -/
def BulkThread.current (th : BulkThread Line α) : List Line :=
  match th.rest with
  | .ret _ => []
  | .ask q _ => appliedOf q.operations (th.handled q)

/-- A response with all its items, or a clean probe, acknowledges what has taken effect. -/
theorem ackedLines_eq (hall : rules.allItems = true) (h : Replies rules q p r)
    (hres : r.result = .ok resp) (hclean : q.filterPath.isProbe = true → resp.errors = some false) :
    ackedLines ⟨q, r⟩ = appliedOf q.operations p := by
  simp only [Replies, hres] at h
  obtain ⟨done, rfl, hlen, hprobe, hfull⟩ := h
  rw [ackedLines, appliedOf]
  cases hfp : q.filterPath.isProbe with
  | true =>
    simp only [hres, hclean hfp, if_true]
    have hok := hprobe hfp (hclean hfp)
    have hall : (q.operations.zip (done.map some)).filter
        (fun p => p.2.any fun item => (itemOutcome item).ok) = q.operations.zip (done.map some) := by
      apply List.filter_eq_self.mpr
      intro a ha
      obtain ⟨item, hitem, he⟩ := List.mem_map.mp (List.of_mem_zip ha).2
      rw [← he, Option.any_some]
      exact hok item hitem
    rw [hall, List.map_fst_zip]
    simp [hlen]
  | false =>
    obtain ⟨items, hi, -, heq⟩ := hfull hfp
    obtain rfl := heq hall
    simp only [hres, hi, Bool.false_eq_true, if_false, Option.getD_some,
      iterBulkResponseOutcomes, List.zip_map_right, List.filter_map, List.map_map]
    rfl

/-- The lines that have taken effect are those acknowledged, those of the current call, and those
of calls that raised or of probes that were not clean. -/
structure Ledger (rules : EsRules) (s₀ s : EsState Id Src Line) (th : BulkThread Line α)
    (h lost : List Line) : Prop where
  applied : s.applied = s₀.applied ++ h
  perm : h.Perm (th.log.flatMap ackedLines ++ th.current ++ lost)
  handled : ∀ q k, th.rest = .ask q k → (th.handled q).length = q.operations.length
  nothing_lost : rules.mayRaise = false → (∀ c ∈ th.log, c.1.filterPath.isProbe = false) → lost = []

theorem BulkThread.current_idle (rest : Prog (BulkRequest Line) (fun _ => BulkReply) α)
    (log : List (BulkCall Line)) :
    BulkThread.current ({ rest, log } : BulkThread Line α) = [] := by
  cases rest with
  | ret a => rfl
  | ask q k => exact appliedOf_replicate q.operations

omit [DecidableEq Id] in
theorem Ledger.start (rules : EsRules) (s : EsState Id Src Line)
    (p : Prog (BulkRequest Line) (fun _ => BulkReply) α) :
    Ledger rules s s ({ rest := p } : BulkThread Line α) [] [] where
  applied := (List.append_nil _).symm
  perm := by rw [BulkThread.current_idle]; exact .nil
  handled q k _ := List.length_replicate
  nothing_lost _ _ := rfl

theorem Ledger.step {th th' : BulkThread Line α} (hall : rules.allItems = true)
    (hl : Ledger rules s₀ s th h lost) (hs : (elasticsearch act rules).Step s th s' th') :
    ∃ h' lost', Ledger rules s₀ s' th' h' lost' := by
  cases hs with
  | work hw =>
    rename_i q p' k p log
    have hlen := hl.handled q k rfl
    obtain ⟨hlen', new, hnew, hperm⟩ := Handles.appliedOf hw hlen
    refine ⟨h ++ new, lost, ?_, ?_, ?_, hl.nothing_lost⟩
    · rw [hnew, hl.applied, List.append_assoc]
    · have hp := hl.perm.append_right new
      apply hp.trans
      rw [List.append_assoc, List.append_assoc, List.append_assoc]
      apply List.Perm.append_left
      apply (List.Perm.append_left _ List.perm_append_comm).trans
      rw [← List.append_assoc]
      exact hperm.append_right lost
    · intro q' k' he
      cases he
      exact hlen'
  | reply hr =>
    rename_i q r k p log
    have hp : h.Perm (log.flatMap ackedLines ++
      appliedOf q.operations (p.getD ((elasticsearch act rules).fresh q)) ++ lost) := hl.perm
    generalize p.getD ((elasticsearch act rules).fresh q) = progress at hr hp
    have hidle := BulkThread.current_idle (k r) (log ++ [⟨q, r⟩])
    -- the reply acknowledges what has taken effect, or its lines are given up as lost
    have hcases : ackedLines ⟨q, r⟩ = appliedOf q.operations progress ∨
        ackedLines ⟨q, r⟩ = [] ∧ (rules.mayRaise = true ∨ q.filterPath.isProbe = true) := by
      cases hres : r.result with
      | error e =>
        have hmay := hr
        simp only [elasticsearch, Replies, hres] at hmay
        exact .inr ⟨by simp only [ackedLines, hres], .inl hmay⟩
      | ok resp =>
        by_cases hclean : q.filterPath.isProbe = true → resp.errors = some false
        · exact .inl (ackedLines_eq hall hr hres hclean)
        · obtain ⟨hfp, hne⟩ := Classical.not_imp.mp hclean
          exact .inr ⟨by simp only [ackedLines, hres, hfp, hne, if_true, if_false], .inr hfp⟩
    rcases hcases with he | ⟨he, hwhy⟩
    · refine ⟨h, lost, hl.applied, ?_, fun _ _ _ => List.length_replicate, fun hm hf =>
        hl.nothing_lost hm fun c hc => hf c (List.mem_append_left _ hc)⟩
      rw [hidle, List.flatMap_append, List.flatMap_singleton, he, List.append_nil]
      exact hp
    · refine ⟨h, appliedOf q.operations progress ++ lost, hl.applied, ?_,
        fun _ _ _ => List.length_replicate, ?_⟩
      · rw [hidle, List.flatMap_append, List.flatMap_singleton, he, List.append_nil,
          List.append_nil, ← List.append_assoc]
        exact hp
      · intro hm hf
        have hfp := hf _ (List.mem_append_right _ (List.mem_singleton_self _))
        rcases hwhy with hwhy | hwhy
        · rw [hm] at hwhy
          cases hwhy
        · rw [hfp] at hwhy
          cases hwhy

theorem applied_ledger {th : BulkThread Line α} (hall : rules.allItems = true)
    (hrun : (elasticsearch act rules).Solo prog s₀ s th) :
    ∃ h lost, Ledger rules s₀ s th h lost := by
  suffices ∀ a b : EsState Id Src Line × BulkThread Line α,
      (∃ h lost, Ledger rules s₀ a.1 a.2 h lost) →
      Relation.ReflTransGen (fun a b => (elasticsearch act rules).Step a.1 a.2 b.1 b.2) a b →
      ∃ h lost, Ledger rules s₀ b.1 b.2 h lost from
    this _ _ ⟨[], [], .start rules s₀ prog⟩ hrun
  intro a b ha hab
  induction hab with
  | refl => exact ha
  | tail _ hstep ih =>
    obtain ⟨h, lost, hl⟩ := ih
    exact hl.step hall hstep

theorem Replies.items (h : Replies rules q p r) (hres : r.result = .ok resp)
    (hfp : q.filterPath.isProbe = false) :
    ∃ items, resp.items = some items ∧ ∀ item ∈ items, some item ∈ p := by
  simp only [Replies, hres] at h
  obtain ⟨done, rfl, -, -, hfull⟩ := h
  obtain ⟨items, hi, hprefix, -⟩ := hfull hfp
  exact ⟨items, hi, fun item hitem => List.mem_map.mpr ⟨item, hprefix.subset hitem, rfl⟩⟩

/-- While only adding lines are sent, each line that takes effect adds a document, and no response
reports a delete. -/
structure Additive (s₀ s : EsState Id Src Line) (th : BulkThread Line α) : Prop where
  grown : ∃ h, s.applied = s₀.applied ++ h ∧ Grown s₀.store s.store h.length
  items : ∀ q k, th.rest = .ask q k → ∀ item, some item ∈ th.handled q →
    (itemOutcome item).outcome ≠ .deleted
  noDeletes : ∀ c ∈ th.log, NoDeletes c

omit [DecidableEq Id] in
theorem Answers.not_deleted {a : Action Id Src} (hadds : a.Adds) (h : Answers a item) :
    (itemOutcome item).outcome ≠ .deleted := by
  intro hd
  cases item with
  | none => cases hd
  | some p =>
    obtain ⟨op, body⟩ := p
    have hop := (classifyBulkResult_deleted_iff.mp hd).2
    rw [h op body rfl] at hop
    cases a with
    | delete i => exact hadds
    | index i src => cases hop
    | create i src => cases hop

/-- What handling one line does: its item is put in its place. -/
theorem Handles.item (h : Handles act rules s q p s' p') :
    ∃ line item, line ∈ q.operations ∧ Answers (act line) item ∧
      (∀ x, some x ∈ p' → some x ∈ p ∨ x = item) ∧
      (s' = s ∨ ∃ st, Applies (act line) s.store st ∧ s' = ⟨st, s.applied ++ [line]⟩) := by
  cases h with
  | applied hl hop hok ha =>
    refine ⟨_, _, List.mem_of_getElem? hl, hop, fun x hx => ?_, .inr ⟨_, ha, rfl⟩⟩
    simpa [or_assoc, or_comm, or_left_comm] using hx
  | refused hl hop hok hh =>
    refine ⟨_, _, List.mem_of_getElem? hl, hop, fun x hx => ?_, .inl rfl⟩
    simpa [or_assoc, or_comm, or_left_comm] using hx

omit [DecidableEq Id] in
theorem Additive.start (s : EsState Id Src Line)
    (p : Prog (BulkRequest Line) (fun _ => BulkReply) α) :
    Additive s s ({ rest := p } : BulkThread Line α) where
  grown := ⟨[], (List.append_nil _).symm, .refl _⟩
  items _ _ _ item hitem := absurd (List.eq_of_mem_replicate hitem) (Option.some_ne_none item)
  noDeletes _ hc := absurd hc List.not_mem_nil

theorem Additive.step {th th' : BulkThread Line α} (hadds : ∀ line ∈ lines, (act line).Adds)
    (hsub : ∀ q k, th.rest = .ask q k → q.operations ⊆ lines) (h : Additive s₀ s th)
    (hs : (elasticsearch act rules).Step s th s' th') : Additive s₀ s' th' := by
  cases hs with
  | work hw =>
    rename_i q p' k p log
    obtain ⟨line, item, hline, hanswers, hplace, hstore⟩ := Handles.item hw
    have hadd := hadds line (hsub q k rfl hline)
    refine ⟨?_, ?_, h.noDeletes⟩
    · obtain ⟨hist, happ, hgrown⟩ := h.grown
      rcases hstore with rfl | ⟨st, happlies, rfl⟩
      · exact ⟨hist, happ, hgrown⟩
      · refine ⟨hist ++ [line], by rw [happ, List.append_assoc], ?_⟩
        rw [List.length_append, List.length_singleton]
        exact hgrown.step hadd happlies
    · intro q' k' he x hx
      cases he
      rcases hplace x hx with hold | rfl
      · exact h.items q k rfl x hold
      · exact hanswers.not_deleted hadd
  | reply hr =>
    rename_i q r k p log
    refine ⟨h.grown, ?_, ?_⟩
    · intro q' k' he item hitem
      exact absurd (List.eq_of_mem_replicate hitem) (Option.some_ne_none item)
    · intro c hc
      rcases List.mem_append.mp hc with hc | hc
      · exact h.noDeletes c hc
      · obtain rfl := List.mem_singleton.mp hc
        intro resp hres hfp o ho
        obtain ⟨items, hi, hitems⟩ := Replies.items hr hres hfp
        rw [hi] at ho
        obtain ⟨item, hitem, rfl⟩ := List.mem_map.mp ho
        exact h.items q k rfl item (hitems item hitem)

end EsConnector
