import EsConnector.CarriedLines
import EsConnector.LineLedger
import EsConnector.Resending
import EsConnector.ServerLedger
import EsConnector.WriteEnds

namespace EsConnector
set_option autoImplicit true

open Interaction

variable {Id Src Line : Type} {act : Line → Action Id Src} {rules : EsRules} {q : BulkRequest Line}
  {p p' : Handled} {r : BulkReply}

/-- A call that was answered for all its lines: a clean probe, or items for each line. -/
def Conclusive (c : BulkCall Line) : Prop :=
  ∃ resp, c.2.result = .ok resp ∧ (c.1.filterPath.isProbe = true → resp.errors = some false) ∧
    missingItems c = 0

/-- What a finished call shows of the lines that took effect in it, in any of its `1 + k` sends. -/
structure Shown (act : Line → Action Id Src) (k : Nat) (c : BulkCall Line) (m : Multiset Line) :
    Prop where
  within : m ≤ (k + 1) • Multiset.ofList c.1.operations
  acked : Multiset.ofList (ackedLines c) ≤ m
  exact : k = 0 → Conclusive c → m = Multiset.ofList (ackedLines c)
  noops : ∀ line ∈ noopLines c, (act line).opType ≠ .index

/-- The progress of a request has a place for each line, and its items answer their lines. -/
structure Itemised (act : Line → Action Id Src) (q : BulkRequest Line) (p : Handled) : Prop where
  placed : Placed q p
  answers : ∀ line item, (line, some item) ∈ q.operations.zip p → Answers (act line) item

theorem appliedOf_sublist (ops : List Line) (p : Handled) : (appliedOf ops p).Sublist ops := by
  have hzip : ((ops.zip p).map Prod.fst).Sublist ops := by
    induction ops generalizing p with
    | nil => simp
    | cons line ops ih =>
      cases p with
      | nil => simp
      | cons b p => exact (ih p).cons_cons line
  exact (List.filter_sublist.map _).trans hzip

theorem linesWhere_initial (kind : ItemOutcome → Bool) (ops : List Line) {items done : List Item}
    (h : items <+: done) : (linesWhere kind ops (iterBulkResponseOutcomes items)).Sublist
      (linesWhere kind ops (iterBulkResponseOutcomes done)) := by
  obtain ⟨rest, rfl⟩ := h
  induction items generalizing ops with
  | nil => simp [linesWhere, iterBulkResponseOutcomes]
  | cons item items ih =>
    cases ops with
    | nil => simp [linesWhere]
    | cons line ops =>
      simp only [iterBulkResponseOutcomes, List.cons_append, List.map_cons] at ih ⊢
      rw [linesWhere_cons, linesWhere_cons]
      exact (ih ops).append_left _

theorem appliedOf_done (ops : List Line) (done : List Item) :
    appliedOf ops (done.map some) = linesWhere (·.ok) ops (iterBulkResponseOutcomes done) := by
  rw [appliedOf, linesWhere, iterBulkResponseOutcomes, List.zip_map_right, List.zip_map_right,
    List.filter_map, List.filter_map, List.map_map, List.map_map]
  rfl

section Calls

theorem Replies.conclusive (h : Replies rules q p r) (hc : Conclusive ⟨q, r⟩) :
    appliedOf q.operations p = ackedLines ⟨q, r⟩ := by
  obtain ⟨resp, hresult, hclean, hmissing⟩ := hc
  have hres : r.result = .ok resp := hresult
  have hall : Replies { rules with allItems := true } q p r := by
    simp only [Replies, hres] at h ⊢
    obtain ⟨done, hp, hlen, hprobe, hfull⟩ := h
    refine ⟨done, hp, hlen, hprobe, fun hfp => ?_⟩
    obtain ⟨items, hi, hprefix, -⟩ := hfull hfp
    refine ⟨items, hi, hprefix, fun _ => hprefix.eq_of_length ?_⟩
    have hle := hprefix.length_le
    simp only [missingItems, hres, hfp, hi, Bool.false_eq_true, if_false, Option.getD_some]
      at hmissing
    omega
  exact (ackedLines_eq rfl hall hres hclean).symm

theorem Replies.acked_sublist (h : Replies rules q p r) :
    (ackedLines ⟨q, r⟩).Sublist (appliedOf q.operations p) := by
  cases hres : r.result with
  | error e =>
    simp only [ackedLines, hres]
    exact List.nil_sublist _
  | ok resp =>
    cases hfp : q.filterPath.isProbe with
    | true =>
      by_cases hclean : resp.errors = some false
      · have hmissing : missingItems (⟨q, r⟩ : BulkCall Line) = 0 := by
          simp only [missingItems, hres, hfp, if_true]
        rw [h.conclusive ⟨resp, hres, fun _ => hclean, hmissing⟩]
      · simp only [ackedLines, hres, hfp, hclean, if_true, if_false]
        exact List.nil_sublist _
    | false =>
      simp only [Replies, hres] at h
      obtain ⟨done, rfl, -, -, hfull⟩ := h
      obtain ⟨items, hi, hprefix, -⟩ := hfull hfp
      rw [appliedOf_done]
      have hacked : ackedLines (⟨q, r⟩ : BulkCall Line) =
          linesWhere (·.ok) q.operations (iterBulkResponseOutcomes items) := by
        simp only [ackedLines, linesWhere, hres, hfp, hi, Bool.false_eq_true, if_false,
          Option.getD_some]
      rw [hacked]
      exact linesWhere_initial (·.ok) q.operations hprefix

/-- The items of a response answer the lines in their places. -/
theorem Itemised.answered (h : Itemised act q p) (hr : Replies rules q p r)
    (hres : r.result = .ok resp) (hfp : q.filterPath.isProbe = false)
    (hi : resp.items = some items) :
    ∀ line item, (line, item) ∈ q.operations.zip items → Answers (act line) item := by
  intro line item hmem
  simp only [Replies, hres] at hr
  obtain ⟨done, rfl, -, -, hfull⟩ := hr
  obtain ⟨items', hi', hprefix, -⟩ := hfull hfp
  obtain rfl := Option.some.inj (hi.symm.trans hi')
  apply h.answers line item
  rw [List.zip_map_right]
  exact List.mem_map.mpr ⟨_, mem_zip_of_initial hprefix hmem, rfl⟩

/-- No index line is a no-op. -/
theorem Itemised.noops (h : Itemised act q p) (hr : Replies rules q p r) :
    ∀ line ∈ noopLines ⟨q, r⟩, (act line).opType ≠ .index := by
  intro line hline hindex
  cases hres : r.result with
  | error e => simp [noopLines, hres] at hline
  | ok resp =>
    cases hfp : q.filterPath.isProbe with
    | true => simp [noopLines, hres, hfp] at hline
    | false =>
      obtain ⟨items, hi, -⟩ := Replies.fewItems hr resp hres hfp
      simp only [noopLines, linesWhere, hres, hfp, hi, Bool.false_eq_true, if_false,
        Option.getD_some, iterBulkResponseOutcomes, List.zip_map_right] at hline
      obtain ⟨⟨_, o⟩, hmem, rfl⟩ := List.mem_map.mp hline
      obtain ⟨hmem, hout⟩ := List.mem_filter.mp hmem
      obtain ⟨⟨_, item⟩, hzip, he⟩ := List.mem_map.mp hmem
      cases he
      have hanswers := h.answered hr hres hfp hi _ item hzip
      have hignored : (itemOutcome item).outcome = .ignored := eq_of_beq hout
      have hok : (itemOutcome item).ok = false := by
        have happlies := itemOutcome_applies item
        rw [hignored] at happlies
        exact happlies.symm
      have hclass := hanswers.ignored hok (by rw [hignored]; decide)
      obtain ⟨-, ⟨hop, -⟩ | ⟨hop, -⟩⟩ := classifyBulkResult_ignored_iff.mp hclass
      all_goals cases hindex.symm.trans hop

theorem Itemised.noDeletes (h : Itemised act q p) (hr : Replies rules q p r)
    (hops : ∀ line ∈ q.operations, (act line).opType ≠ .delete) : NoDeletes ⟨q, r⟩ := by
  intro resp hres hfp o ho hdeleted
  obtain ⟨items, hi, hlen⟩ := Replies.fewItems hr resp hres hfp
  rw [hi] at ho
  obtain ⟨item, hitem, rfl⟩ := List.mem_map.mp ho
  rw [Option.getD_some, ← List.map_snd_zip hlen] at hitem
  obtain ⟨⟨line, item⟩, hzip, rfl⟩ := List.mem_map.mp hitem
  cases item with
  | none => cases hdeleted
  | some body =>
    obtain ⟨op, body⟩ := body
    obtain ⟨-, rfl⟩ := classifyBulkResult_deleted_iff.mp hdeleted
    have hop := h.answered hr hres hfp hi line _ hzip _ body rfl
    exact hops line (List.of_mem_zip hzip).1 hop.symm

theorem Itemised.fresh (act : Line → Action Id Src) (q : BulkRequest Line) :
    Itemised act q (List.replicate q.operations.length none) where
  placed := List.length_replicate
  answers line item h := by
    have hmem := List.eq_of_mem_replicate (List.of_mem_zip h).2
    exact absurd hmem (Option.some_ne_none item)

/-- The line that is handled has its item, and the others keep theirs. -/
theorem Itemised.handle (h : Itemised act q (done ++ none :: rest))
    (hl : q.operations[done.length]? = some line) (hop : Answers (act line) item) :
    Itemised act q (done ++ some item :: rest) := by
  obtain ⟨ops₁, ops₂, hops, hlen⟩ := split_at_line hl
  have hplaced := h.placed
  refine ⟨?_, ?_⟩
  · rw [Placed] at hplaced ⊢
    simpa using hplaced
  · intro line' item' hm
    have hold := h.answers line' item'
    rw [hops, List.zip_append hlen, List.zip_cons_cons] at hm hold
    rcases List.mem_append.mp hm with hm | hm
    · exact hold (List.mem_append_left _ hm)
    · rcases List.mem_cons.mp hm with he | hm
      · cases he
        exact hop
      · exact hold (List.mem_append_right _ (List.mem_cons_of_mem _ hm))

variable [DecidableEq Id] {s s' : EsState Id Src Line}

theorem Handles.itemised (hw : Handles act rules s q p s' p') (h : Itemised act q p) :
    Itemised act q p' := by
  cases hw with
  | applied hl hop => exact h.handle hl hop
  | refused hl hop => exact h.handle hl hop

/-- The lines that have taken effect in a call. -/
def appliedIn (q : BulkRequest Line) (p : Handled) : Multiset Line :=
  Multiset.ofList (appliedOf q.operations p)

omit [DecidableEq Id] in
theorem appliedIn_le (q : BulkRequest Line) (p : Handled) :
    appliedIn q p ≤ Multiset.ofList q.operations :=
  Multiset.coe_le.mpr (appliedOf_sublist q.operations p).subperm

/-- Elasticsearch keeps its books: the lines that have taken effect are those of the calls, and an
answer shows which they are. -/
theorem elasticsearch_accountable (act : Line → Action Id Src) (rules : EsRules) :
    (elasticsearch act rules).Accountable (fun s => Multiset.ofList s.applied) appliedIn
      (Itemised act) (Shown act 0) where
  fresh q := ⟨.fresh act q, congrArg Multiset.ofList (appliedOf_replicate q.operations)⟩
  work s q p s' p' hw h := by
    obtain ⟨-, new, happlied, hperm⟩ := Handles.appliedOf hw h.placed
    refine ⟨hw.itemised h, Multiset.ofList new, ?_, ?_⟩
    · rw [happlied, Multiset.coe_add]
    · rw [appliedIn, appliedIn, Multiset.coe_add]
      exact (Multiset.coe_eq_coe.mpr hperm).symm
  reply s q p r hr h :=
    { within := by
        rw [zero_add, one_smul]
        exact appliedIn_le q p
      acked := Multiset.coe_le.mpr (Replies.acked_sublist hr).subperm
      exact := fun _ hc => congrArg Multiset.ofList (Replies.conclusive hr hc)
      noops := h.noops hr }

omit [DecidableEq Id] in
theorem sum_appliedIn_le (q : BulkRequest Line) (ps : List Handled) :
    (ps.map (appliedIn q)).sum ≤ ps.length • Multiset.ofList q.operations := by
  have hle : ∀ m ∈ ps.map (appliedIn q), m ≤ Multiset.ofList q.operations := by
    intro m hm
    obtain ⟨p, -, rfl⟩ := List.mem_map.mp hm
    exact appliedIn_le q p
  have hsum := List.sum_le_card_nsmul _ _ hle
  rwa [List.length_map] at hsum

omit [DecidableEq Id] in
theorem Shown.of_resent {c : BulkCall Line} {m : Multiset Line}
    (h : Resent appliedIn (Itemised act) (Shown act 0) k c m) : Shown act k c m := by
  obtain ⟨before, last, hlen, -, hlast, rfl⟩ := h
  have hwithin := hlast.within
  rw [zero_add, one_smul] at hwithin
  constructor
  · rw [add_smul, one_smul]
    apply add_le_add _ hwithin
    exact (sum_appliedIn_le c.1 before).trans (nsmul_le_nsmul_left (Multiset.zero_le _) hlen)
  · exact hlast.acked.trans (Multiset.le_add_left ..)
  · intro hk hc
    obtain rfl := List.eq_nil_of_length_eq_zero (Nat.le_zero.mp (hk ▸ hlen))
    rw [List.map_nil, List.sum_nil, zero_add]
    exact hlast.exact rfl hc
  · exact hlast.noops

end Calls

end EsConnector
