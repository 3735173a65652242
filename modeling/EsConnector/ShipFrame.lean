import EsConnector.MergeOrder
import EsConnector.ShipRules

namespace EsConnector
set_option autoImplicit true

open Interaction

variable {Line : Type} {t u : Tally}

/-- Private accumulators collect what the shared ones collect. -/
structure Tally.Collects (t u : Tally) : Prop where
  samples : t.errorSamples.length ≤ errorSampleCap
  stats : u.stats.isSome = t.stats.isSome
  diag : u.diag.isSome = t.diag.isSome

/-- The send records of `t.merge u`. -/
def mergeStats (s s' : Option (List SendRecord)) : Option (List SendRecord) :=
  s.map (· ++ s'.getD [])

theorem mergeStats_map (h : s'.isSome = s.isSome) (r : List SendRecord) :
    (mergeStats s s').map (· ++ r) = mergeStats s (s'.map (· ++ r)) := by
  unfold mergeStats
  cases s <;> cases s' <;> simp_all

theorem Tally.merge_withStats (t u : Tally) (stats : Option (List SendRecord)) :
    { t.merge u with stats := mergeStats t.stats stats } = t.merge { u with stats } := by
  ext1
  · rfl
  · rfl
  · rw [Tally.merge_stats]
    rfl
  · simp only [Tally.merge_diag]

theorem Tally.merge_addCounts (t u : Tally) (c : Counts) :
    (t.merge u).addCounts c = t.merge (u.addCounts c) := by
  ext1
  · exact add_assoc ..
  · rfl
  · rfl
  · rfl

theorem Tally.merge_addDiag (h : t.Collects u) (d : Diag) :
    (t.merge u).addDiag d = t.merge (u.addDiag d) := by
  ext1
  · rfl
  · rfl
  · rfl
  · have hd := h.diag
    simp only [addDiag_diag, merge_diag]
    cases ht : t.diag <;> cases hu : u.diag <;> simp_all [add_assoc]

theorem Tally.merge_addSample (h : t.Collects u) (x : ErrorSample) :
    (t.merge u).addSample x = t.merge (u.addSample x) := by
  have hcap := h.samples
  have hlen : (t.merge u).errorSamples.length =
      min errorSampleCap (t.errorSamples.length + u.errorSamples.length) := by
    rw [merge_errorSamples, List.length_append, List.length_take]
    omega
  ext1
  · simp
  · rw [merge_errorSamples]
    unfold addSample
    rw [hlen]
    split
    · next hlt =>
      -- both have room, and the prefix of `u` that fits is all of it
      rw [if_pos (by omega)]
      dsimp only
      rw [merge_errorSamples, List.take_of_length_le (by omega),
        List.take_of_length_le (by simp; omega), List.append_assoc]
    · next hge =>
      rw [merge_errorSamples]
      congr 1
      split
      · rw [List.take_append_of_le_length (by omega)]
      · rfl
  · simp only [addSample_stats, merge_stats]
  · simp only [addSample_diag, merge_diag]

theorem Tally.merge_failRequest (h : t.Collects u) (n : Nat) (e : BulkException) :
    (t.merge u).failRequest n e = t.merge (u.failRequest n e) := by
  have h' : t.Collects (u.addCounts { errors := n }) := ⟨h.samples, h.stats, h.diag⟩
  unfold failRequest
  rw [merge_addCounts, merge_addSample h']

theorem Tally.Collects.addCounts (h : t.Collects u) (c : Counts) : t.Collects (u.addCounts c) :=
  ⟨h.samples, h.stats, h.diag⟩

theorem Tally.Collects.addDiag (h : t.Collects u) (d : Diag) : t.Collects (u.addDiag d) :=
  ⟨h.samples, h.stats, by simpa using h.diag⟩

theorem Tally.Collects.addSample (h : t.Collects u) (x : ErrorSample) :
    t.Collects (u.addSample x) :=
  ⟨h.samples, by simpa using h.stats, by simpa using h.diag⟩

theorem Tally.Collects.withStats (h : t.Collects u) {stats : Option (List SendRecord)}
    (hs : stats.isSome = t.stats.isSome) :
    t.Collects { u with stats } :=
  ⟨h.samples, hs, h.diag⟩

theorem bumpReject_merge (h : t.Collects u) (o : ItemOutcome) :
    bumpReject o (t.merge u) = t.merge (bumpReject o u) ∧ t.Collects (bumpReject o u) := by
  unfold bumpReject
  split
  · exact ⟨Tally.merge_addDiag h _, h.addDiag _⟩
  · exact ⟨rfl, h⟩

theorem tallyItem_merge (h : t.Collects u) (o : ItemOutcome) :
    tallyItem o (t.merge u) = t.merge (tallyItem o u) ∧ t.Collects (tallyItem o u) := by
  unfold tallyItem
  split
  · exact ⟨Tally.merge_addCounts .., h.addCounts _⟩
  · exact ⟨Tally.merge_addCounts .., h.addCounts _⟩
  · dsimp only
    rw [Tally.merge_addCounts]
    split
    · exact ⟨Tally.merge_addDiag (h.addCounts _) _, (h.addCounts _).addDiag _⟩
    · exact ⟨rfl, h.addCounts _⟩
  · rw [Tally.merge_addCounts]
    exact ⟨Tally.merge_addSample (h.addCounts _) _, (h.addCounts _).addSample _⟩

/-- A round that was shipped into private accumulators, seen from the shared ones. -/
def Round.mergeInto (t : Tally) (r : Round Line) : Round Line := { r with tally := t.merge r.tally }

theorem roundLoop_merge (cfg : EsWriteConfig) (m : Bool) (pending : List Line) (idx : Nat)
    (os : List ItemOutcome) (r : Round Line) (h : t.Collects r.tally) :
    roundLoop cfg m pending idx os (r.mergeInto t) =
        (roundLoop cfg m pending idx os r).map (Round.mergeInto t) ∧
      ∀ r', roundLoop cfg m pending idx os r = .ok r' → t.Collects r'.tally := by
  induction os generalizing idx r with
  | nil => exact ⟨rfl, fun r' hr => by cases hr; exact h⟩
  | cons o os ih =>
    obtain ⟨hb, hcb⟩ := bumpReject_merge h o
    obtain ⟨ht, hct⟩ := tallyItem_merge hcb o
    simp only [roundLoop, roundStep, Round.mergeInto, hb, ht]
    by_cases hr : (retryable cfg o && m) = true
    · simp only [if_pos hr]
      cases hp : pending[idx]? with
      | none => exact ⟨rfl, fun r' hr' => by cases hr'⟩
      | some line =>
        exact ih _ { tally := bumpReject o r.tally, retryLines := r.retryLines ++ [line] } hcb
    · simp only [if_neg hr]
      exact ih _ { r with tally := tallyItem o (bumpReject o r.tally) } hct

theorem classifyResponse_merge (cfg : EsWriteConfig) (m : Bool) (pending : List Line)
    (resp : BulkResponse) (h : t.Collects u) :
    classifyResponse cfg m pending resp (t.merge u) =
        (classifyResponse cfg m pending resp u).map (Round.mergeInto t) ∧
      ∀ r, classifyResponse cfg m pending resp u = .ok r → t.Collects r.tally := by
  unfold classifyResponse
  cases resp.itemList with
  | error e => exact ⟨rfl, fun r hr => by cases hr⟩
  | ok items =>
    obtain ⟨heq, hcol⟩ := roundLoop_merge cfg m pending 0 (iterBulkResponseOutcomes items)
      { tally := u } h
    simp only [Round.mergeInto] at heq
    simp only [bind, Except.bind, heq]
    cases hl : roundLoop cfg m pending 0 (iterBulkResponseOutcomes items) { tally := u } with
    | error e => exact ⟨rfl, fun r hr => by cases hr⟩
    | ok r =>
      have hr := hcol r hl
      by_cases hn : r.retryLines = []
      · have hn' : (Round.mergeInto t r).retryLines = [] := hn
        simp only [Except.map, if_pos hn, if_pos hn']
        exact ⟨rfl, fun r' hr' => by cases hr'; exact hr⟩
      · have hn' : (Round.mergeInto t r).retryLines ≠ [] := hn
        simp only [Except.map, if_neg hn, if_neg hn']
        refine ⟨?_, fun r' hr' => by cases hr'; exact hr.addDiag _⟩
        simp only [Round.mergeInto, Tally.merge_addDiag hr]
        rfl

section Programs

variable [NdjsonLine Line]

/-- Sending into shared statistics is sending into private ones, for everything that comes after
it. -/
theorem sendRetrying_merge {f f' : SendResult → BulkProg Line α} (hs : s'.isSome = s.isSome)
    (hf : ∀ result stats, stats.isSome = s.isSome →
      f (result, mergeStats s stats) = f' (result, stats)) :
    sendRetrying cfg ops fp left (mergeStats s s') >>= f =
      sendRetrying cfg ops fp left s' >>= f' := by
  have hstats (r) : (s'.map (· ++ [r])).isSome = s.isSome := by rw [Option.isSome_map, hs]
  induction left generalizing s' with
  | zero =>
    simp only [sendRetrying, send, Prog.bind_def, Prog.query, Prog.bind]
    congr 1
    funext reply
    exact mergeStats_map hs _ ▸ hf _ _ (hstats _)
  | succ left ih =>
    simp only [sendRetrying, send, Prog.bind_def, Prog.query, Prog.bind]
    congr 1
    funext reply
    rw [mergeStats_map hs]
    cases reply.result with
    | ok resp => exact hf _ _ (hstats _)
    | error e =>
      dsimp only [pure, Prog.bind]
      split
      · exact ih (hstats _) fun r => by rw [Option.isSome_map, hstats]
      · exact hf _ _ (hstats _)

theorem Tally.Collects.merge_stats_isSome (h : t.Collects u) :
    (t.merge u).stats.isSome = u.stats.isSome := by
  rw [Tally.merge_stats, Option.isSome_map, h.stats]

theorem fullRound_merge {f f' : Except ShipError (Round Line) → BulkProg Line α}
    (h : t.Collects u) (he : ∀ e, f (.error e) = f' (.error e))
    (hok : ∀ r, t.Collects r.tally → f (.ok (r.mergeInto t)) = f' (.ok r)) :
    fullRound cfg m pending (t.merge u) >>= f = fullRound cfg m pending u >>= f' := by
  have hfp : fullFilterPath (t.merge u) = fullFilterPath u := by
    unfold fullFilterPath
    rw [h.merge_stats_isSome]
  unfold fullRound
  rw [Prog.bind_assoc, Prog.bind_assoc, hfp, Tally.merge_stats]
  apply sendRetrying_merge h.stats
  intro result stats hs
  have hcol := h.withStats hs
  cases result with
  | error e =>
    simp only [Tally.merge_withStats, Tally.merge_failRequest hcol]
    apply hok { tally := Tally.failRequest { u with stats } pending.length e }
    exact (hcol.addCounts _).addSample _
  | ok resp =>
    obtain ⟨heq, hr⟩ := classifyResponse_merge cfg m pending resp hcol
    simp only [Tally.merge_withStats, heq]
    cases hc : classifyResponse cfg m pending resp { u with stats } with
    | error e => exact he e
    | ok r => exact hok r (hr r hc)

theorem fullPath_merge (h : t.Collects u) (left : Nat) (pending : List Line) :
    fullPath cfg left pending (t.merge u) =
      fullPath cfg left pending u >>= fun r => pure (r.map t.merge) := by
  induction left generalizing pending u with
  | zero =>
    simp only [fullPath]
    split
    · rfl
    · rw [Prog.bind_assoc]
      exact fullRound_merge h (fun _ => rfl) fun _ _ => rfl
  | succ left ih =>
    simp only [fullPath]
    split
    · rfl
    · rw [Prog.bind_assoc]
      refine fullRound_merge h (fun _ => rfl) fun r hr => ?_
      by_cases hn : r.retryLines = []
      · have hn' : (r.mergeInto t).retryLines = [] := hn
        simp only [if_pos hn, if_pos hn']
        rfl
      · have hn' : (r.mergeInto t).retryLines ≠ [] := hn
        simp only [if_neg hn, if_neg hn']
        exact ih hr r.retryLines

/-- A chunk adds to the accumulators it is given what it would put into empty ones: shipping it
serially and merging a worker's result come to the same. -/
theorem shipNdjsonChunk_merge (cfg : EsWriteConfig) (lines : List Line) (h : t.Collects u) :
    shipNdjsonChunk cfg lines (t.merge u) =
      shipNdjsonChunk cfg lines u >>= fun r => pure (r.map t.merge) := by
  have hfp : fastFilterPath (t.merge u) = fastFilterPath u := by
    unfold fastFilterPath
    rw [h.merge_stats_isSome]
  unfold shipNdjsonChunk
  split
  · rw [Prog.bind_assoc, hfp, Tally.merge_stats]
    apply sendRetrying_merge h.stats
    intro result stats hs
    have hcol := h.withStats hs
    cases result with
    | error e =>
      simp only [Tally.merge_withStats, Tally.merge_failRequest hcol]
      rfl
    | ok resp =>
      simp only [Tally.merge_withStats]
      split
      · rw [Tally.merge_addCounts]
        rfl
      · exact fullPath_merge hcol _ lines
  · exact fullPath_merge h _ lines

theorem Tally.merge_fresh (t : Tally) (h : t.errorSamples.length ≤ errorSampleCap) :
    t.Collects t.fresh ∧ t.merge t.fresh = t := by
  refine ⟨⟨h, by simp [fresh], by simp [fresh]⟩, ?_⟩
  ext1
  · exact add_zero _
  · rw [merge_errorSamples]
    simp [fresh]
  · rw [merge_stats, fresh]
    cases t.stats <;> simp
  · rw [merge_diag, fresh]
    cases t.diag <;> simp

theorem shipNdjsonChunk_serial (cfg : EsWriteConfig) (lines : List Line) (t : Tally)
    (h : t.errorSamples.length ≤ errorSampleCap) :
    shipNdjsonChunk cfg lines t =
      shipNdjsonChunk cfg lines t.fresh >>= fun r => pure (r.map t.merge) := by
  obtain ⟨hcol, heq⟩ := t.merge_fresh h
  have hship := shipNdjsonChunk_merge cfg lines hcol
  rwa [heq] at hship

end Programs

end EsConnector
