import EsConnector.Accounting
import EsConnector.Elasticsearch
import EsConnector.Job

namespace EsConnector
set_option autoImplicit true

open Interaction

variable {Id Src Line : Type} [DecidableEq Id]

/-- What it means for a line to be in effect: it holds once the line has been applied or ignored as
a no-op, and no line of the same input undoes it. -/
structure Effect (act : Line → Action Id Src) (lines : List Line)
    (holds : Line → Store Id Src → Prop) : Prop where
  applied : ∀ line ∈ lines, ∀ st st', Applies (act line) st st' → holds line st'
  ignored : ∀ line ∈ lines, ∀ st status, HonestStatus (act line) st status →
    classifyBulkResult false (act line).opType status = .ignored → holds line st
  stable : ∀ line ∈ lines, ∀ other ∈ lines, ∀ st st', Applies (act other) st st' →
    holds line st → holds line st'

/-- The lines of a call that are not reported as errors so far are in effect. -/
structure Truthful (holds : Line → Store Id Src → Prop) (st : Store Id Src)
    (q : BulkRequest Line) (p : Handled) : Prop where
  length : p.length = q.operations.length
  holds : ∀ line item, (line, some item) ∈ q.operations.zip p →
    (itemOutcome item).outcome ≠ .error → holds line st

section Calls

variable {act : Line → Action Id Src} {rules : EsRules} {lines : List Line}
  {holds : Line → Store Id Src → Prop} {s s' : EsState Id Src Line} {q : BulkRequest Line}
  {p p' : Handled} {r : BulkReply}

omit [DecidableEq Id] in
theorem Truthful.fresh (st : Store Id Src) (q : BulkRequest Line) :
    Truthful holds st q (List.replicate q.operations.length none) where
  length := List.length_replicate
  holds _ item h _ := by
    have hmem := List.eq_of_mem_replicate (List.of_mem_zip h).2
    exact absurd hmem (Option.some_ne_none item)

theorem mem_zip_of_initial {l : List β} {l₁ l₂ : List γ} (h : l₁ <+: l₂) (hx : x ∈ l.zip l₁) :
    x ∈ l.zip l₂ := by
  obtain ⟨l₃, rfl⟩ := h
  induction l generalizing l₁ with
  | nil => simp at hx
  | cons a l ih =>
    cases l₁ with
    | nil => simp at hx
    | cons b l₁ =>
      rw [List.zip_cons_cons] at hx
      rw [List.cons_append, List.zip_cons_cons]
      rcases List.mem_cons.mp hx with rfl | hx
      · exact List.mem_cons_self
      · exact List.mem_cons_of_mem _ (ih hx)

theorem Replies.fewItems {rules : EsRules} {q : BulkRequest Line} {p : Handled}
    {r : BulkReply} (h : Replies rules q p r) : FewItems q r := by
  intro resp hres hfp
  simp only [Replies, hres] at h
  obtain ⟨done, -, hlen, -, hfull⟩ := h
  obtain ⟨items, hi, hprefix, -⟩ := hfull hfp
  exact ⟨items, hi, hlen ▸ hprefix.length_le⟩

theorem ok_of_applied {item : Item} (h : (itemOutcome item).ok = true) :
    (itemOutcome item).outcome ≠ .error := by
  intro he
  have happ := itemOutcome_applied item
  rw [he, h] at happ
  cases happ

omit [DecidableEq Id] in
/-- An item that is neither 2xx nor an error is one of the two no-ops. -/
theorem Answers.ignored {a : Action Id Src} {item : Item} (h : Answers a item)
    (hok : (itemOutcome item).ok = false) (hne : (itemOutcome item).outcome ≠ .error) :
    classifyBulkResult false a.opType (itemOutcome item).body.statusCode = .ignored := by
  cases item with
  | none => exact absurd rfl hne
  | some p =>
    obtain ⟨op, body⟩ := p
    have hop := h op body rfl
    have hbody : isOk body.statusCode = false := hok
    have hout : (itemOutcome (some (op, body))).outcome =
        classifyBulkResult false a.opType body.statusCode := by
      rw [← hop, ← hbody]
      rfl
    rw [hout] at hne
    change classifyBulkResult false a.opType body.statusCode = .ignored
    cases hc : classifyBulkResult false a.opType body.statusCode with
    | written => exact absurd (classifyBulkResult_written_iff.mp hc).1 Bool.false_ne_true
    | deleted => exact absurd (classifyBulkResult_deleted_iff.mp hc).1 Bool.false_ne_true
    | ignored => rfl
    | error => exact absurd hc hne

/-- No line loses its effect while a call is worked on. -/
theorem Effect.kept (E : Effect act lines holds) (hq : q.operations ⊆ lines)
    (hw : Handles act rules s q p s' p') {line : Line} (hline : line ∈ lines)
    (h : holds line s.store) : holds line s'.store := by
  cases hw with
  | applied hl hop hok ha =>
    exact E.stable line hline _ (hq (List.mem_of_getElem? hl)) _ _ ha h
  | refused => exact h

theorem Truthful.others (E : Effect act lines holds) (hq : q.operations ⊆ lines)
    (hw : Handles act rules s q p s' p') {q' : BulkRequest Line} {p'' : Handled}
    (hq' : q'.operations ⊆ lines) (h : Truthful holds s.store q' p'') :
    Truthful holds s'.store q' p'' where
  length := h.length
  holds line item hm hne :=
    E.kept hq hw (hq' (List.of_mem_zip hm).1) (h.holds line item hm hne)

theorem Handles.in_effect (E : Effect act lines holds) (hhonest : rules.honest = true)
    (hq : q.operations ⊆ lines) (hw : Handles act rules s q p s' p') :
    ∃ done rest line item, p = done ++ none :: rest ∧ p' = done ++ some item :: rest ∧
      q.operations[done.length]? = some line ∧
      ((itemOutcome item).outcome ≠ .error → holds line s'.store) := by
  cases hw with
  | applied hl hop hok ha =>
    exact ⟨_, _, _, _, rfl, rfl, hl,
      fun _ => E.applied _ (hq (List.mem_of_getElem? hl)) _ _ ha⟩
  | refused hl hop hok hh =>
    exact ⟨_, _, _, _, rfl, rfl, hl, fun hne =>
      E.ignored _ (hq (List.mem_of_getElem? hl)) _ _ (hh hhonest) (hop.ignored hok hne)⟩

theorem Truthful.work (E : Effect act lines holds) (hhonest : rules.honest = true)
    (hq : q.operations ⊆ lines) (hw : Handles act rules s q p s' p')
    (h : Truthful holds s.store q p) : Truthful holds s'.store q p' := by
  obtain ⟨done, rest, line, item, rfl, rfl, hl, hline⟩ := hw.in_effect E hhonest hq
  obtain ⟨ops₁, ops₂, hops, hlen⟩ := split_at_line hl
  have hkept := h.others E hq hw hq
  refine ⟨by simpa using h.length, ?_⟩
  intro line' item' hm hne
  have hold := hkept.holds line' item'
  rw [hops, List.zip_append hlen, List.zip_cons_cons] at hm hold
  rcases List.mem_append.mp hm with hm | hm
  · exact hold (List.mem_append_left _ hm) hne
  rcases List.mem_cons.mp hm with he | hm
  · cases he
    exact hline hne
  · exact hold (List.mem_append_right _ (List.mem_cons_of_mem _ hm)) hne

omit [DecidableEq Id] in
/-- A line that a response vouches for is in effect when the response is given. -/
theorem Truthful.vouched {st : Store Id Src} (h : Truthful holds st q p) (hr : Replies rules q p r)
    {line : Line} (hv : Vouches ⟨q, r⟩ line) : holds line st := by
  obtain ⟨resp, hres, hv⟩ := hv
  have hlen := h.length
  rw [Replies, show r.result = .ok resp from hres] at hr
  obtain ⟨done, rfl, -, hprobe, hfull⟩ := hr
  rw [List.length_map] at hlen
  have hsome {a : Line} {item : Item} (hm : (a, item) ∈ q.operations.zip done) :
      (a, some item) ∈ q.operations.zip (done.map some) := by
    rw [List.zip_map_right]
    exact List.mem_map.mpr ⟨_, hm, rfl⟩
  rcases hv with ⟨hfp, he, hline⟩ | ⟨hfp, items, hi, item, hm, hne⟩
  · obtain ⟨⟨line', item⟩, hm, rfl⟩ : ∃ p ∈ q.operations.zip done, p.1 = line := by
      rw [← List.mem_map, List.map_fst_zip hlen.ge]
      exact hline
    exact h.holds _ _ (hsome hm) (ok_of_applied (hprobe hfp he item (List.of_mem_zip hm).2))
  · obtain ⟨items', hi', hprefix, -⟩ := hfull hfp
    rw [hi] at hi'
    cases hi'
    exact h.holds line item (hsome (mem_zip_of_initial hprefix hm)) hne

/-- While only given lines are sent, the server keeps its word: what a response vouches for is in
effect from then on. -/
theorem truthful_keeps (E : Effect act lines holds) (hhonest : rules.honest = true)
    {K : EsState Id Src Line → Prop}
    (hK : ∀ s q p s' p', q.operations ⊆ lines → Handles act rules s q p s' p' → K s → K s') :
    (elasticsearch act rules).Keeps (fun q => q.operations ⊆ lines) K
      (fun s q p => Truthful holds s.store q p)
      (fun s c => c.1.operations ⊆ lines ∧ ∀ line, Vouches c line → holds line s.store) where
  state := hK
  fresh s q _ := .fresh s.store q
  work _ _ _ _ _ hq hw h := h.work E hhonest hq hw
  others _ _ _ _ _ _ _ hq hq' hw h := h.others E hq hw hq'
  reply _ _ _ _ hq hr h := ⟨hq, fun _ hv => h.vouched hr hv⟩
  finished _ _ _ _ _ _ hq hw h :=
    ⟨h.1, fun line hv => E.kept hq hw (h.1 hv.mem) (h.2 line hv)⟩

end Calls

end EsConnector
