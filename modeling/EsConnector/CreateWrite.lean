import EsConnector.AppendOnly
import EsConnector.WriteAttempts

namespace EsConnector
set_option autoImplicit true

open Interaction

variable {Id Src Line : Type} {act : Line → Action Id Src} {lines : List Line}

theorem AccountedChunks.noDeletes (h : AccountedChunks plan c (calls : List (BulkCall Line)))
    (hcalls : ∀ call ∈ calls, NoDeletes call) : c.deleted = 0 := by
  obtain ⟨ps, hp, rfl, hperm⟩ := h
  replace hcalls : ∀ call ∈ (ps.map Prod.snd).flatten, NoDeletes call :=
    fun call hcall => hcalls call (hperm.mem_iff.mpr hcall)
  clear hperm
  induction hp with
  | nil => rfl
  | cons hchunk _ ih =>
    rw [List.map_cons, List.flatten_cons] at hcalls
    have hfirst := hchunk.noDeletes fun call hcall => hcalls call (List.mem_append_left _ hcall)
    have hrest := ih fun call hcall => hcalls call (List.mem_append_right _ hcall)
    rw [List.map_cons, List.sum_cons, Counts.deleted_add, hfirst, hrest]

theorem sum_counts (π : Counts → Nat) (hzero : π 0 = 0) (hadd : ∀ c d, π (c + d) = π c + π d)
    (rows : List SummaryRow) : (rows.map fun row => (π row.counts : Int)).sum =
      (π (rows.map SummaryRow.counts).sum : Int) := by
  induction rows with
  | nil => exact congrArg Nat.cast hzero.symm
  | cons row rows ih =>
    rw [List.map_cons, List.sum_cons, ih, List.map_cons, List.sum_cons, hadd, Nat.cast_add]

theorem merged_counts (rows : List SummaryRow) :
    (mergePartitionResults rows).written =
        some ((rows.map SummaryRow.counts).sum.written : Int) ∧
      (mergePartitionResults rows).deleted =
        some ((rows.map SummaryRow.counts).sum.deleted : Int) ∧
      (mergePartitionResults rows).ignored =
        some ((rows.map SummaryRow.counts).sum.ignored : Int) := by
  obtain ⟨hw, hd, -, hi, -⟩ := mergePartitionResults_numbers rows
  rw [hw, hd, hi, ← sum_counts Counts.written rfl Counts.written_add,
    ← sum_counts Counts.deleted rfl Counts.deleted_add,
    ← sum_counts Counts.ignored rfl Counts.ignored_add]
  exact ⟨rfl, rfl, rfl⟩

theorem deleted_sum {rows : List SummaryRow} (h : ∀ row ∈ rows, row.deleted = some 0) :
    (rows.map SummaryRow.counts).sum.deleted = 0 := by
  induction rows with
  | nil => rfl
  | cons row rows ih =>
    have hrow : row.counts.deleted = 0 := congrArg (Option.getD · 0) (h row List.mem_cons_self)
    rw [List.map_cons, List.sum_cons, Counts.deleted_add, hrow,
      ih fun row hrow => h row (List.mem_cons_of_mem _ hrow)]

theorem eq_of_accept (h : (reconcileOrRaise merged index).2 = .ok result) : result = merged := by
  rw [reconcileOrRaise] at h
  dsimp only at h
  split at h
  · exact (Except.ok.inj h).symm
  · cases h

variable [DecidableEq Id]

/-- Actions that can only add documents add one each. -/
theorem AppliesAll.grown (h : AppliesAll act lines st st') (hadds : ∀ line ∈ lines, (act line).Adds) :
    Grown st st' lines.length := by
  induction h with
  | nil => exact .refl _
  | snoc _ ha ih =>
    rw [List.length_append]
    apply (ih fun line hline => hadds line (List.mem_append_left _ hline)).step _ ha
    exact hadds _ (List.mem_append_right _ List.mem_cons_self)

section Jobs

variable [NdjsonLine Line] {rules : EsRules} {cfg : EsWriteConfig} {parts : List (Partition Line)}
  {s s' : EsState Id Src Line} {as : List (WriteAttempts Line)} {rows : List SummaryRow}

theorem AttemptedWrite.in_effect {holds : Line → Store Id Src → Prop}
    (E : Effect act (inputLines parts) holds) (hhonest : rules.honest = true)
    (h : AttemptedWrite act rules cfg parts s s' as) (hrows : Reported as rows)
    (hclean : CleanRows rows) : ∀ line ∈ inputLines parts, holds line s'.store := by
  intro line hline
  obtain ⟨p, hp, hline⟩ := List.mem_flatMap.mp hline
  obtain ⟨i, hi, rfl⟩ := List.getElem_of_mem hp
  have hr : i < rows.length := (h.lengths hrows).symm ▸ hi
  have hkeeps := truthful_keeps (K := fun _ => True) E hhonest fun _ _ _ _ _ _ _ h => h
  obtain ⟨calls, hend, hcalls⟩ := h.ends hkeeps trivial hrows i hi hr
  obtain ⟨he, hd⟩ := hclean _ (List.getElem_mem hr)
  obtain ⟨call, hcall, hv⟩ := hend.clean he hd line hline
  exact (hcalls call hcall).2 line hv

omit [NdjsonLine Line] in
theorem keepsItemised (hops : ∀ line ∈ lines, (act line).opType ≠ .delete) :
    (elasticsearch act rules).Keeps (fun q => q.operations ⊆ lines) (fun _ => True)
      (fun _ q p => Itemised act q p) (fun _ call => NoDeletes call) where
  state _ _ _ _ _ _ _ _ := trivial
  fresh _ q _ := .fresh act q
  work _ _ _ _ _ _ hw h := Handles.itemised hw h
  others _ _ _ _ _ _ _ _ _ _ h := h
  reply _ _ _ _ hq hr h := h.noDeletes hr fun line hline => hops line (hq hline)
  finished _ _ _ _ _ _ _ _ h := h

/-- Where no line asks for a delete no partition counts one. -/
theorem AttemptedWrite.noDeletes (h : AttemptedWrite act rules cfg parts s s' as)
    (hops : ∀ line ∈ inputLines parts, (act line).opType ≠ .delete) (hrows : Reported as rows) :
    ∀ row ∈ rows, row.deleted = some 0 := by
  intro row hrow
  obtain ⟨i, hr, rfl⟩ := List.getElem_of_mem hrow
  have hi : i < parts.length := h.lengths hrows ▸ hr
  obtain ⟨calls, hend, hcalls⟩ := h.ends (keepsItemised hops) trivial hrows i hi hr
  obtain ⟨-, t, hsummary, haccounted⟩ := hend
  rw [hsummary]
  exact congrArg some (haccounted.noDeletes hcalls)

/-- With `op_type='create'` a whole write only appends, however often the transport, the connector and
Spark send its lines again: from each point on no document is rewritten, what is new is some line's,
and when the write is accepted every id is present and the lines that are counted as written have
each made a document. -/
theorem create_write_append_only (act : Line → Action Id Src) (hhonest : rules.honest = true)
    (cfg : EsWriteConfig) (parts : List (Partition Line)) (hact : AllCreate act (inputLines parts))
    (s s' : EsState Id Src Line) (as : List (WriteAttempts Line))
    (hrun : AttemptedWrite act rules cfg parts s s' as) :
    Appended act (inputLines parts) s.store s'.store ∧
    (∀ b, Relation.ReflTransGen (WriteStep act rules cfg parts) (s', as) b →
      Appended act (inputLines parts) s'.store b.1.store) ∧
    (newIds s.store s'.store).Finite ∧
    (newIds s.store s'.store).ncard ≤ (inputLines parts).length ∧
    ∀ rows index result, Reported as rows →
      (reconcileOrRaise (mergePartitionResults rows) index).2 = .ok result →
      (∀ line ∈ inputLines parts, Present act line s'.store) ∧
      ∃ written ignored : Nat, result.written = some (written : Int) ∧ result.deleted = some 0 ∧
        result.ignored = some (ignored : Int) ∧ written + ignored = (inputLines parts).length ∧
        written ≤ (newIds s.store s'.store).ncard ∧
        (Quiet cfg as → written = (newIds s.store s'.store).ncard) := by
  have honward {t t' : EsState Id Src Line} {as' : List (WriteAttempts Line)}
      (h : AttemptedWrite act rules cfg parts t t' as') (b)
      (hb : Relation.ReflTransGen (WriteStep act rules cfg parts) (t', as') b) :
      Appended act (inputLines parts) t'.store b.1.store :=
    h.onward (K := fun u => Appended act (inputLines parts) t'.store u.store)
      (fun _ _ _ _ _ hq hw => Appended.work hact hq hw) (.refl _) hb
  have hnew : Appended act (inputLines parts) s.store s'.store := honward .refl (s', as) hrun
  obtain ⟨applied, hsub, hall, -, hsettled⟩ := hrun.books
  have hgrown := hall.grown fun line hline => hact.adds line (hsub hline)
  refine ⟨hnew, honward hrun, hgrown.finite, hnew.ncard_le, ?_⟩
  intro rows index result hrows haccept
  have hclean := cleanRows_of_accept haccept
  obtain rfl := eq_of_accept haccept
  obtain ⟨acks, idle, hs⟩ := hsettled rows hrows hclean
  have hdeletes : (rows.map SummaryRow.counts).sum.deleted = 0 := by
    apply deleted_sum (hrun.noDeletes _ hrows)
    intro line hline hdelete
    obtain ⟨i, src, he⟩ := hact line hline
    rw [he] at hdelete
    cases hdelete
  obtain ⟨hwritten, hdeleted, hignored⟩ := merged_counts rows
  have hcard := hs.card_acked
  rw [hdeletes, Nat.add_zero] at hcard
  rw [hdeletes] at hdeleted
  have hplaces := congrArg Multiset.card hs.places
  rw [Multiset.coe_card, Multiset.card_add, ← hcard, ← hs.card_noops] at hplaces
  refine ⟨hrun.in_effect hact.effect hhonest hrows hclean, _, _, hwritten, hdeleted, hignored,
    hplaces.symm, ?_, ?_⟩
  · rw [hgrown.card, hcard]
    exact Multiset.card_le_card hs.acked
  · intro hquiet
    rw [hgrown.card, hcard, ← hs.exact hquiet, Multiset.coe_card]

end Jobs

/-- A line that a probe creates and whose own repetition then answers 409. -/
theorem create_write_append_only_own_conflict :
    ∃ (s : EsState Nat String String) (as : List (WriteAttempts String)) (rows : List SummaryRow),
      s.applied = ["a"] ∧ Reported as rows ∧
      Appended (.create 0) ["a"] (fun _ => none) s.store ∧ Present (.create 0) "a" s.store ∧
      (newIds (fun _ => none) s.store).ncard ≤ 1 := by
  let act : String → Action Nat String := .create 0
  let item (status : Int) : Item := some (.create, { status := some status })
  let s₀ : EsState Nat String String := ⟨fun _ => none, []⟩
  have hanswers (status : Int) : Answers (act "a") (item status) := by
    rintro op body ⟨⟩
    rfl
  have hprobe : Replies ⟨true, true, true⟩ (⟨["a"], .errors⟩ : BulkRequest String)
      [some (item 201)] { result := .ok {} } :=
    ⟨[item 201], rfl, rfl, fun _ h => absurd h (by simp), fun h => absurd h.symm Bool.false_ne_true⟩
  have hfull : Replies ⟨true, true, true⟩ (⟨["a"], .items⟩ : BulkRequest String)
      [some (item 409)] { result := .ok { items := some [item 409] } } :=
    ⟨[item 409], rfl, rfl, fun h => absurd h Bool.false_ne_true, fun _ => ⟨_, rfl, List.prefix_refl _,
      fun _ => rfl⟩⟩
  obtain ⟨s, a, hrun, happlied, rows, hrows, haccept⟩ : ∃ (s : EsState Nat String String)
      (a : WriteAttempts String), AttemptedWrite act ⟨true, true, true⟩ { hosts := "h" }
          [{ batches := [[some "a"]] }] s₀ s [a] ∧
        s.applied = ["a"] ∧ ∃ rows, Reported [a] rows ∧
        (reconcileOrRaise (mergePartitionResults rows) "i").2 = .ok (mergePartitionResults rows) := by
    refine ⟨_, _, (AttemptSteps.single rfl rfl
      (.applied_single (hanswers 201) rfl (.create rfl)) hprobe).trans
        (AttemptSteps.single rfl rfl
          (.refused_single (hanswers 409) rfl fun _ _ => by simp) hfull), rfl, ?_⟩
    exact ⟨_, .cons rfl .nil, rfl⟩
  obtain ⟨hnew, -, -, hle, haccepted⟩ := create_write_append_only act rfl { hosts := "h" }
    [{ batches := [[some "a"]] }] (fun _ _ => ⟨0, _, rfl⟩) s₀ s [a] hrun
  have hpresent := (haccepted rows "i" _ hrows haccept).1 "a" (List.mem_singleton_self _)
  exact ⟨s, [a], rows, happlied, hrows, hnew, hpresent, hle⟩

end EsConnector
