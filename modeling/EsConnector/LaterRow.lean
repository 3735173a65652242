import EsConnector.InOrder
import EsConnector.PoolRules
import EsConnector.ShipRules

namespace EsConnector
set_option autoImplicit true

open Interaction

variable {Id Src Line : Type} {act : Line → Action Id Src} {cfg : EsWriteConfig}

/-- Whether an action of this type may be rejected with a status that has it sent again. -/
def EsWriteConfig.resends (cfg : EsWriteConfig) (op : OpType) : Bool :=
  cfg.retryOnDocStatus.any fun status =>
    decide (status ≠ 0 ∧ isOk status = false ∧ ¬(op = .delete ∧ status = 404))

/-- Where later chunks leave an id alone, its lines in a chunk that may be sent again all leave
under it what its last line leaves. -/
def ResendsAgree (act : Line → Action Id Src) (cfg : EsWriteConfig) (plan : List (List Line)) :
    Prop :=
  ∀ before chunk after, plan = before ++ chunk :: after →
    ∀ i last, Unnamed act i after.flatten → LastNamed act i chunk last →
      ∀ line ∈ chunk, (act line).id = some i → cfg.resends (act line).opType = true →
        (act line).value = (act last).value

theorem ItemBody.statusCode_ne_zero (body : ItemBody) : body.statusCode ≠ 0 := by
  unfold ItemBody.statusCode
  split <;> simp_all

theorem resends_of_retryable {a : Action Id Src} (hop : Answers a item)
    (h : retryable cfg (itemOutcome item) = true) : cfg.resends a.opType = true := by
  simp only [retryable, Bool.and_eq_true, Bool.not_eq_true', bne_iff_ne, List.contains_eq_mem,
    decide_eq_true_eq] at h
  obtain ⟨⟨hok, hig⟩, hmem⟩ := h
  refine List.any_eq_true.mpr ⟨_, hmem, decide_eq_true ?_⟩
  cases item with
  | none => exact ⟨by decide, by decide, fun hgone => absurd hgone.2 (by decide)⟩
  | some item =>
    obtain ⟨op, body⟩ := item
    obtain rfl := hop op body rfl
    simp only [itemOutcome] at hok hig ⊢
    exact ⟨body.statusCode_ne_zero, hok, fun hgone =>
      hig (classifyBulkResult_ignored_iff.mpr ⟨hok, .inl hgone⟩)⟩

/-- What is left to do for the id `i` so that `e` ends up under it: the lines that may be sent
again agree with `e`, so does its last line, and without a line for it `e` is there already. -/
structure Heading (act : Line → Action Id Src) (cfg : EsWriteConfig) (i : Id) (e : Option Src)
    (left : Nat) (lines : List Line) (st : Store Id Src) : Prop where
  resent : 0 < left → ∀ line ∈ lines, (act line).id = some i →
    cfg.resends (act line).opType = true → (act line).value = e
  last : ∀ line, LastNamed act i lines line → (act line).value = e
  there : Unnamed act i lines → st i = e

theorem mem_retriedLines (h : line ∈ retriedLines cfg m lines os) :
    m = true ∧ line ∈ lines ∧ ∃ o, (line, o) ∈ lines.zip os ∧ retryable cfg o = true := by
  obtain ⟨⟨l, o⟩, hp, rfl⟩ := List.mem_map.mp h
  obtain ⟨hzip, hr⟩ := List.mem_filter.mp hp
  obtain ⟨hr, hm⟩ := (Bool.and_eq_true _ _).mp hr
  exact ⟨hm, (List.of_mem_zip hzip).1, o, hzip, hr⟩

theorem retriedLines_append (h : lines.length = os.length) :
    retriedLines cfg m (lines ++ lines') (os ++ os') =
      retriedLines cfg m lines os ++ retriedLines cfg m lines' os' := by
  unfold retriedLines
  rw [List.zip_append h, List.filter_append, List.map_append]

variable [DecidableEq Id]

theorem HandlesAll.answers (h : HandlesAll act st lines items st')
    (hp : (line, o) ∈ lines.zip (iterBulkResponseOutcomes items)) :
    ∃ item, o = itemOutcome item ∧ Answers (act line) item := by
  induction h with
  | nil => cases hp
  | @cons _ _ item _ _ _ _ h _ ih =>
    rcases List.mem_cons.mp hp with he | hp
    · cases he
      cases h with
      | applied hop => exact ⟨item, rfl, hop⟩
      | refused hop => exact ⟨item, rfl, hop⟩
    · exact ih hp

/-- One round keeps the heading: the last line of the id has either settled without an error or is
sent again, and then with lines that agree with it only. -/
theorem Heading.round (h : Heading act cfg i e left lines st)
    (hs : ∀ line ∈ lines, (act line).Sets) (hall : HandlesAll act st lines items st')
    (hm : m = true → 0 < left)
    (hno : ∀ o ∈ settled cfg m (iterBulkResponseOutcomes items), o.outcome ≠ .error)
    (left' : Nat) :
    Heading act cfg i e left' (retriedLines cfg m lines (iterBulkResponseOutcomes items)) st' := by
  have hresent : ∀ line ∈ retriedLines cfg m lines (iterBulkResponseOutcomes items),
      (act line).id = some i → (act line).value = e := by
    intro line hl hi
    obtain ⟨hmt, hline, o, hzip, hr⟩ := mem_retriedLines hl
    obtain ⟨item, rfl, hop⟩ := hall.answers hzip
    exact h.resent (hm hmt) line hline hi (resends_of_retryable hop hr)
  refine ⟨fun _ line hl hi _ => hresent line hl hi,
    fun line hl => hresent line hl.mem hl.named, ?_⟩
  intro hun
  rcases unnamed_or_lastNamed act i lines with hun' | ⟨last, hlast⟩
  · rw [hall.frame hs hun', h.there hun']
  obtain ⟨before, after, rfl, hi, hafter⟩ := id hlast
  obtain ⟨items₁, items₂, st₁, rfl, h₁, h₂⟩ := hall.split
  cases h₂ with
  | @cons _ _ item _ _ items₃ _ hline h₃ =>
    have hlen : before.length = (iterBulkResponseOutcomes items₁).length := by
      rw [iterBulkResponseOutcomes_length, h₁.length_eq]
    have hkept : ¬(retryable cfg (itemOutcome item) && m) = true := by
      intro hr
      refine hun last ?_ hi
      rw [iterBulkResponseOutcomes, List.map_append, retriedLines_append (by simpa using hlen),
        List.map_cons, retriedLines_cons, if_pos hr]
      simp
    have hsettled : itemOutcome item ∈
        settled cfg m (iterBulkResponseOutcomes (items₁ ++ item :: items₃)) := by
      refine List.mem_filter.mpr ⟨List.mem_map.mpr ⟨item, by simp, rfl⟩, ?_⟩
      rw [Bool.not_eq_true', Bool.eq_false_iff]
      exact hkept
    have hsets : (act last).Sets := hs last (by simp)
    rw [h₃.frame (fun line hl => hs line (by simp [hl])) hafter,
      hline.effect hsets hi (hno _ hsettled), h.last last hlast]

/-- A probe that is followed by a full pass over the same lines changes nothing. -/
theorem Heading.probe (h : Heading act cfg i e left lines st)
    (hs : ∀ line ∈ lines, (act line).Sets) (hall : HandlesAll act st lines items st') :
    Heading act cfg i e left lines st' where
  resent := h.resent
  last := h.last
  there hun := by rw [hall.frame hs hun, h.there hun]

theorem no_error_of_sum {os : List ItemOutcome}
    (h : (t + (os.map fun o => Counts.one o.outcome).sum).errors = 0) :
    t.errors = 0 ∧ ∀ o ∈ os, o.outcome ≠ .error := by
  induction os generalizing t with
  | nil => simpa using h
  | cons o os ih =>
    rw [List.map_cons, List.sum_cons, ← add_assoc] at h
    obtain ⟨ht, hos⟩ := ih h
    cases ho : o.outcome <;> simp_all [Counts.one]

theorem sends_ordered {q : BulkRequest Line} {st st' : Store Id Src}
    (h : Sends (orderedElasticsearch act).env q st result st') :
    ∃ reply, reply.result = result ∧ (orderedElasticsearch act).env.answers st q reply st' := by
  cases h with
  | last h => exact ⟨_, rfl, h⟩
  | again h he =>
    obtain ⟨_, _, _, resp, hr, _⟩ := orderedElasticsearch_answers.mp h
    rw [he] at hr
    cases hr

section Ship

variable [NdjsonLine Line]

theorem wp_fullPath_heading (hs : ∀ line ∈ lines, (act line).Sets)
    (h : Heading act cfg i e left lines st) (t : Tally) :
    wp (orderedElasticsearch act).env (fullPath cfg left lines t)
      (fun r st' => ∀ t', r = .ok t' → t'.counts.errors = 0 →
        t.counts.errors = 0 ∧ st' i = e) st := by
  refine wp_fullPath (I := fun left pending t' st => pending ⊆ lines ∧ (t'.counts.errors = 0 →
      t.counts.errors = 0 ∧ Heading act cfg i e left pending st))
    (fun _ _ _ _ => trivial) ?_ ?_ ?_ ?_ (List.Sublist.refl lines) ⟨List.Subset.refl lines,
      fun ht => ⟨ht, h⟩⟩
  · intro left t' st hI t'' he ht
    cases he
    obtain ⟨ht₀, hh⟩ := hI.2 ht
    exact ⟨ht₀, hh.there fun line hl => absurd hl List.not_mem_nil⟩
  · intro left pending t' fp st e s' hI hfp hsend
    obtain ⟨reply, hr, ha⟩ := sends_ordered hsend
    obtain ⟨_, _, _, resp, hok, _⟩ := orderedElasticsearch_answers.mp ha
    rw [hr] at hok
    cases hok
  · intro left pending t' fp st resp s' hI hfp hsend stats e he t'' hc
    cases hc
  · intro left pending t' fp st resp s' hI hfp hsend stats r hr
    obtain ⟨reply, hres, ha⟩ := sends_ordered hsend
    obtain ⟨items, hall, hlen, resp', hok, -, hitems⟩ := orderedElasticsearch_answers.mp ha
    rw [hres] at hok
    cases hok
    have hlist := BulkResponse.itemList_of_items (hitems hfp)
    obtain ⟨r', hr', hcounts, hretry⟩ :=
      classifyResponse_eq cfg (decide (0 < left)) hlist hlen.le { t' with stats }
    rw [hr] at hr'
    cases hr'
    have hround : r.tally.counts.errors = 0 → t.counts.errors = 0 ∧
        ∀ left', Heading act cfg i e left' r.retryLines s' := by
      intro ht
      rw [hcounts] at ht
      obtain ⟨ht', hno⟩ := no_error_of_sum ht
      obtain ⟨ht₀, hh⟩ := hI.2 ht'
      rw [hretry]
      exact ⟨ht₀, hh.round (fun line hl => hs line (hI.1 hl)) hall of_decide_eq_true hno⟩
    refine ⟨fun hnil t'' he ht => ?_, fun _ left' _ => ⟨?_, fun ht => ?_⟩⟩
    · cases he
      obtain ⟨ht₀, hh⟩ := hround ht
      refine ⟨ht₀, (hh 0).there ?_⟩
      rw [hnil]
      exact fun line hl => absurd hl List.not_mem_nil
    · exact List.Subset.trans (classifyResponse_retry_sublist hr).subset hI.1
    · obtain ⟨ht₀, hh⟩ := hround ht
      exact ⟨ht₀, hh left'⟩

/-- A chunk that counts no error ends with `e` under the id it was heading for. -/
theorem wp_shipNdjsonChunk_heading (hs : ∀ line ∈ chunk, (act line).Sets)
    (h : Heading act cfg i e cfg.maxRetriesPerDoc.toNat chunk st) (t : Tally) :
    wp (orderedElasticsearch act).env (shipNdjsonChunk cfg chunk t)
      (fun r st' => ∀ t', r = .ok t' → t'.counts.errors = 0 →
        t.counts.errors = 0 ∧ st' i = e) st := by
  apply wp_shipNdjsonChunk (fun _ _ _ _ => trivial)
  · intro fp e s' hfp hsend
    obtain ⟨reply, hr, ha⟩ := sends_ordered hsend
    obtain ⟨_, _, _, resp, hok, _⟩ := orderedElasticsearch_answers.mp ha
    rw [hr] at hok
    cases hok
  · intro fp resp s' hfp hsend herr stats t' he ht
    cases he
    obtain ⟨reply, hr, ha⟩ := sends_ordered hsend
    obtain ⟨items, hall, hlen, resp', hok, hflag, -⟩ := orderedElasticsearch_answers.mp ha
    rw [hr] at hok
    cases hok
    obtain ⟨flag, hf, hclean, -⟩ := hflag hfp
    rw [herr] at hf
    cases hf
    -- a clean probe is a round in which every item settles
    have hno : ∀ o ∈ settled cfg false (iterBulkResponseOutcomes items), o.outcome ≠ .error := by
      intro o ho
      obtain ⟨item, hitem, rfl⟩ := List.mem_map.mp (List.mem_filter.mp ho).1
      exact hclean rfl item hitem
    have hend := h.round hs hall (m := false) (fun hm => absurd hm Bool.false_ne_true) hno 0
    refine ⟨by simpa using ht, hend.there fun line hl => ?_⟩
    exact absurd (mem_retriedLines hl).1 Bool.false_ne_true
  · intro fp resp s' hfp hsend herr stats
    obtain ⟨reply, hr, ha⟩ := sends_ordered hsend
    obtain ⟨items, hall, -⟩ := orderedElasticsearch_answers.mp ha
    exact wp_fullPath_heading hs (h.probe hs hall) _
  · intro _
    exact wp_fullPath_heading hs h t

end Ship

end EsConnector
