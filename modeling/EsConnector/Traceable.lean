import EsConnector.BodyCeiling
import EsConnector.CleanVerdict

namespace EsConnector
set_option autoImplicit true

open Interaction

variable {Id Src Line : Type} [DecidableEq Id]

/-- The lines of a partition that may be sent: those of the batches before the first one with a
null action line. -/
def Partition.intactLines (p : Partition Line) : List Line :=
  (intactBatches p.batches).flatMap List.reduceOption

def sendableLines (parts : List (Partition Line)) : List Line := parts.flatMap Partition.intactLines

/-- What an action leaves of a document. -/
def Action.Leaves : Action Id Src → Id → Option Src → Prop
  | .index (some j) src, i, w => j = i ∧ w = some src
  | .index none src, _, w => w = some src
  | .create j src, i, w => j = i ∧ w = some src
  | .delete j, i, w => j = i ∧ w = none

/-- Lines that take effect one after the other. -/
inductive AppliesAll (act : Line → Action Id Src) :
    List Line → Store Id Src → Store Id Src → Prop where
  | nil : AppliesAll act [] st st
  | snoc (h : AppliesAll act lines st st') (ha : Applies (act line) st' st'') :
      AppliesAll act (lines ++ [line]) st st''

variable {act : Line → Action Id Src} {rules : EsRules} {cfg : EsWriteConfig}
  {parts : List (Partition Line)} {st st' : Store Id Src} {lines : List Line}

/-- An action that takes effect sets one document. -/
theorem Applies.one_document {a : Action Id Src} (h : Applies a st st') :
    ∃ i w, st' = Function.update st i w ∧ a.Leaves i w := by
  cases h with
  | index => exact ⟨_, _, rfl, rfl, rfl⟩
  | auto => exact ⟨_, _, rfl, rfl⟩
  | create => exact ⟨_, _, rfl, rfl, rfl⟩
  | delete => exact ⟨_, _, rfl, rfl, rfl⟩

theorem Applies.leaves {a : Action Id Src} (h : Applies a st st') (i : Id) :
    st' i = st i ∨ a.Leaves i (st' i) := by
  obtain ⟨j, w, rfl, hleaves⟩ := h.one_document
  by_cases hij : i = j
  · subst hij
    rw [Function.update_self]
    exact .inr hleaves
  · exact .inl (Function.update_of_ne hij ..)

/-- A document is as it was, or as one of the lines has left it. -/
theorem AppliesAll.leaves (h : AppliesAll act lines st st') (i : Id) :
    st' i = st i ∨ ∃ line ∈ lines, (act line).Leaves i (st' i) := by
  induction h with
  | nil => exact .inl rfl
  | snoc h ha ih =>
    rename_i lines st st' line st''
    rcases ha.leaves i with he | hleaves
    · rw [he]
      rcases ih with ih | ⟨other, hother, hleaves⟩
      · exact .inl ih
      · exact .inr ⟨other, List.mem_append_left _ hother, hleaves⟩
    · exact .inr ⟨line, List.mem_append_right _ List.mem_cons_self, hleaves⟩

/-- Elasticsearch has come from one state to another by lines of `lines` that took effect. -/
def AppliedOf (act : Line → Action Id Src) (lines : List Line) (s s' : EsState Id Src Line) : Prop :=
  ∃ applied, s'.applied = s.applied ++ applied ∧ applied ⊆ lines ∧
    AppliesAll act applied s.store s'.store

theorem AppliedOf.refl (lines : List Line) (s : EsState Id Src Line) : AppliedOf act lines s s :=
  ⟨[], (List.append_nil _).symm, List.nil_subset _, .nil⟩

theorem AppliedOf.work {s₀ s s' : EsState Id Src Line} {q : BulkRequest Line} {p p' : Handled}
    (hq : q.operations ⊆ lines) (hw : Handles act rules s q p s' p')
    (h : AppliedOf act lines s₀ s) : AppliedOf act lines s₀ s' := by
  cases hw with
  | refused => exact h
  | applied hl hop hok ha =>
    obtain ⟨applied, hlist, hsub, hall⟩ := h
    refine ⟨_, by rw [hlist, List.append_assoc], ?_, hall.snoc ha⟩
    exact List.append_subset.mpr ⟨hsub, List.cons_subset.mpr ⟨hq (List.mem_of_getElem? hl),
      List.nil_subset _⟩⟩

section Jobs

variable [NdjsonLine Line] {s s' : EsState Id Src Line} {xs : List (WriterProcess Line)}

omit [NdjsonLine Line] in
/-- Elasticsearch keeps what the lines keep as they take effect. -/
theorem keepsState {K : EsState Id Src Line → Prop}
    (hK : ∀ s q p s' p', q.operations ⊆ lines → Handles act rules s q p s' p' → K s → K s') :
    (elasticsearch act rules).Keeps (fun q => q.operations ⊆ lines) K (fun _ _ _ => True)
      (fun _ _ => True) where
  state := hK
  fresh _ _ _ := trivial
  work _ _ _ _ _ _ _ _ := trivial
  others _ _ _ _ _ _ _ _ _ _ _ := trivial
  reply _ _ _ _ _ _ _ := trivial
  finished _ _ _ _ _ _ _ _ _ := trivial

omit [NdjsonLine Line] in
theorem keepsApplied (s₀ : EsState Id Src Line) :
    (elasticsearch act rules).Keeps (fun q => q.operations ⊆ lines) (AppliedOf act lines s₀)
      (fun _ _ _ => True) (fun _ _ => True) :=
  keepsState fun _ _ _ _ _ hq hw h => h.work hq hw

omit [DecidableEq Id] [NdjsonLine Line] in
theorem chunkPlan_intact {p : Partition Line} (hp : p ∈ parts)
    {chunk : List Line} (hchunk : chunk ∈ chunkPlan cfg (intactBatches p.batches)) :
    chunk ⊆ sendableLines parts := by
  intro line hline
  have hmem := (chunkPlan_flatten_sublist cfg _).subset
    (List.mem_flatten.mpr ⟨chunk, hchunk, hline⟩)
  exact List.mem_flatMap.mpr ⟨p, hp, hmem⟩

theorem WriteJob.traced (h : WriteJob act rules cfg parts s s' xs) :
    JobSound (fun _ _ => True)
      (fun p => partitionAsks (fun q => q.operations ⊆ sendableLines parts) cfg
        (intactBatches p.batches))
      (fun q => q.operations ⊆ sendableLines parts) (shipOne cfg) (Partition.main cfg)
      (elasticsearch act rules) (AppliedOf act (sendableLines parts) s) (fun _ _ _ => True)
      (fun _ _ => True) parts s' xs := by
  apply JobSound.steps (fun _ _ _ _ _ => trivial) (keepsApplied s) _ (.refl _ s) h
  intro p hp
  exact write_asks (fun chunk hchunk q hq =>
    List.Subset.trans hq.subset (chunkPlan_intact hp hchunk)) p.clock

theorem WriteJob.null_fails (h : WriteJob act rules cfg parts s s' xs) {i : Nat}
    {p : Partition Line} {x : WriterProcess Line} (hp : parts[i]? = some p) (hx : xs[i]? = some x)
    (hnull : none ∈ p.rows) (row : SummaryRow) : x.rest ≠ .ret (.ok row) := by
  intro hrow
  obtain ⟨col, hcol, hcell⟩ := List.mem_flatten.mp hnull
  have hsound := (JobSound.steps (fun _ _ _ _ hr => Replies.fewItems hr) (keepsApplied s)
    (fun p hp => write_proper (allowsChunks_inputLines hp) p.clock) (.refl _ s) h).sound
  obtain ⟨hi, rfl⟩ := List.getElem?_eq_some_iff.mp hp
  obtain ⟨hi', rfl⟩ := List.getElem?_eq_some_iff.mp hx
  have hend := write_sound_accounts (allowsChunks_inputLines (List.getElem_mem hi))
    (hsound.get hi hi') hrow
  exact hend.1 col hcol hcell

/-- Whatever Elasticsearch answers, whichever lines share an id, and wherever a write stands: the
index has come from what it was by actions of the lines alone, each document is as it was or as one
line has left it, and no line is among these from the first batch with a null action line on, whose
partition never reports. -/
theorem index_traceable (act : Line → Action Id Src) (rules : EsRules) (cfg : EsWriteConfig)
    (parts : List (Partition Line)) (s s' : EsState Id Src Line) (xs : List (WriterProcess Line))
    (hrun : WriteJob act rules cfg parts s s' xs) :
    (∃ applied, s'.applied = s.applied ++ applied ∧ applied ⊆ sendableLines parts ∧
      AppliesAll act applied s.store s'.store) ∧
    (∀ i, s'.store i = s.store i ∨
      ∃ line ∈ sendableLines parts, (act line).Leaves i (s'.store i)) ∧
    ∀ (i : Nat) (p : Partition Line) (x : WriterProcess Line), parts[i]? = some p →
      xs[i]? = some x → none ∈ p.rows → ∀ row, x.rest ≠ .ret (.ok row) := by
  obtain ⟨applied, hlist, hsub, hall⟩ := hrun.traced.state
  refine ⟨⟨applied, hlist, hsub, hall⟩, ?_, fun i p x hp hx hnull => hrun.null_fails hp hx hnull⟩
  intro i
  rcases hall.leaves i with he | ⟨line, hline, hleaves⟩
  · exact .inl he
  · exact .inr ⟨line, hsub hline, hleaves⟩

end Jobs

/-- A batch after the one that is sent has a null action line. -/
def brokenPartition : Partition String := { batches := [[some "a"], [some "b", none], [some "c"]] }

theorem index_traceable_broken :
    ∃ (s : EsState Nat String String) (x : WriterProcess String), s.applied = ["a"] ∧
      WriteJob (fun line => .index (some 0) line) ⟨true, true, true⟩ { hosts := "h" } [brokenPartition]
        ⟨fun _ => none, []⟩ s [x] ∧
      (∀ i, s.store i = none ∨ ∃ line ∈ ["a"], s.store i = some line) ∧
      ∀ row, x.rest ≠ .ret (.ok row) := by
  let act : String → Action Nat String := fun line => .index (some 0) line
  let item : Item := some (.index, { status := some 201 })
  have hwork :
      Handles act ⟨true, true, true⟩ ⟨fun _ => none, []⟩ ⟨["a"], .errors⟩ [none] _ [some item] :=
    .applied_single (fun op body he => by cases Option.some_inj.mp he; rfl) rfl .index
  have hreply : Replies ⟨true, true, true⟩ (⟨["a"], .errors⟩ : BulkRequest String) [some item]
      { result := .ok { errors := some false } } :=
    ⟨[item], rfl, rfl, fun _ _ => by simp [item, itemOutcome, isOk, ItemBody.statusCode],
      fun h => absurd h.symm Bool.false_ne_true⟩
  obtain ⟨s, x, hrun, happlied⟩ : ∃ (s : EsState Nat String String) (x : WriterProcess String),
      WriteJob act ⟨true, true, true⟩ { hosts := "h" } [brokenPartition] ⟨fun _ => none, []⟩ s [x] ∧
        s.applied = ["a"] :=
    ⟨_, _, JobSteps.single rfl rfl hwork hreply, rfl⟩
  obtain ⟨-, htrace, hnull⟩ := index_traceable act _ _ _ _ s [x] hrun
  refine ⟨s, x, happlied, hrun, ?_, hnull 0 brokenPartition x rfl rfl (by decide)⟩
  intro i
  rcases htrace i with he | ⟨line, hline, -, hleaves⟩
  · exact .inl he
  · obtain rfl : line = "a" := List.mem_singleton.mp hline
    exact .inr ⟨_, hline, hleaves⟩

section Accepted

variable [NdjsonLine Line] {rows rows' : List (Option Line)} {s₀ s t₀ t : EsState Id Src Line}

/-- The rows have been written by a job that was accepted, whatever its configuration and however
the rows were split into partitions and batches. -/
def AcceptedWrite (act : Line → Action Id Src) (rows : List (Option Line))
    (s₀ s : EsState Id Src Line) : Prop :=
  ∃ (rules : EsRules) (cfg : EsWriteConfig) (parts : List (Partition Line))
    (xs : List (WriterProcess Line)) (out : List SummaryRow) (index : String) (result : WriteResult),
    rules.honest = true ∧ (parts.flatMap Partition.rows).Perm rows ∧
      WriteJob act rules cfg parts s₀ s xs ∧ Collected xs out ∧
      (reconcileOrRaise (mergePartitionResults out) index).2 = .ok result

theorem AcceptedWrite.settles (hk : Keyed act rows.reduceOption)
    (h : AcceptedWrite act rows s₀ s) :
    (∀ line ∈ rows.reduceOption, InEffect act line s.store) ∧
      Untouched act rows.reduceOption s₀.store s.store := by
  obtain ⟨rules, cfg, parts, xs, out, index, result, hhonest, hparts, hrun, hout, haccept⟩ := h
  have hperm := inputLines_perm hparts
  have hsound := hrun.sound hhonest (hk.perm hperm)
  have hclean := hsound.clean hout (cleanRows_of_accept haccept)
  exact ⟨fun line hline => hclean line (hperm.mem_iff.mpr hline), hsound.state.perm hperm⟩

omit [DecidableEq Id] [NdjsonLine Line] in
/-- What is in effect under a keyed line is all there is to know of its document. -/
theorem InEffect.eq (hk : Keyed act lines) (hline : line ∈ lines) (hid : (act line).id = some i)
    (h : InEffect act line st) (h' : InEffect act line st') : st' i = st i := by
  rcases hk.action line hline with ⟨j, src, he⟩ | ⟨j, he⟩
  all_goals
    simp only [InEffect, he, Action.id] at h h' hid
    cases hid
    rw [h, h']

theorem AcceptedWrite.agree (hk : Keyed act rows.reduceOption) (hrows : rows'.Perm rows)
    (h : AcceptedWrite act rows s₀ s) (h' : AcceptedWrite act rows' t₀ t)
    (hstart : Untouched act rows.reduceOption s₀.store t₀.store) : t.store = s.store := by
  have hlines : rows'.reduceOption.Perm rows.reduceOption := hrows.filterMap id
  obtain ⟨hin, hout⟩ := h.settles hk
  obtain ⟨hin', hout'⟩ := h'.settles (hk.perm hlines)
  funext i
  by_cases hi : ∃ line ∈ rows.reduceOption, (act line).id = some i
  · obtain ⟨line, hline, hid⟩ := hi
    exact (hin line hline).eq hk hline hid (hin' line (hlines.mem_iff.mpr hline))
  · have hi : ∀ line ∈ rows.reduceOption, (act line).id ≠ some i :=
      fun line hline he => hi ⟨line, hline, he⟩
    exact (hout'.perm hlines i hi).trans ((hstart i hi).trans (hout i hi).symm)

/-- Two accepted writes of the same rows to the same index leave the same documents, whatever their
configurations, partitions, batches and schedules; and to write the rows again changes nothing. -/
theorem accepted_writes_agree (act : Line → Action Id Src) (rows rows' : List (Option Line))
    (hk : Keyed act rows.reduceOption) (hrows : rows'.Perm rows) (s₀ s : EsState Id Src Line)
    (h : AcceptedWrite act rows s₀ s) :
    (∀ t₀ t, t₀.store = s₀.store → AcceptedWrite act rows' t₀ t → t.store = s.store) ∧
      ∀ t, AcceptedWrite act rows' s t → t.store = s.store := by
  constructor
  · intro t₀ t hsame h'
    apply h.agree hk hrows h'
    rw [hsame]
    exact fun _ _ => rfl
  · intro t h'
    exact h.agree hk hrows h' (h.settles hk).2

end Accepted

/-- An index action and a delete are written in one chunk, where the delete is throttled once, and
then again in two chunks and in the other order. -/
theorem accepted_writes_agree_rewritten :
    ∃ s t : EsState Nat String String, s.store 0 = some "a" ∧
      AcceptedWrite indexAndDelete [some "a", some "d"] ⟨fun _ => some "old", []⟩ s ∧
      AcceptedWrite indexAndDelete [some "d", some "a"] s t ∧ t.store = s.store := by
  let absent : Item := some (.delete, { status := some 404 })
  let indexed : Item := some (.index, { status := some 201 })
  obtain ⟨s, x, row, hrun, hrest, herrors, hdelta, hdeleted⟩ :=
    delete_retried true ⟨fun _ => some "old", []⟩
  have h : AcceptedWrite indexAndDelete [some "a", some "d"] ⟨fun _ => some "old", []⟩ s :=
    ⟨⟨true, true, true⟩, deletingConfig, [{ batches := [[some "a", some "d"]] }], [x], [row], "i", _,
      rfl, .refl _, hrun, .cons hrest .nil, accepts_of_clean_row herrors hdelta "i"⟩
  have habsent : Handles indexAndDelete ⟨true, true, true⟩ s ⟨["d"], .items⟩ [none] s [some absent] :=
    .refused_single (fun op body he => by cases Option.some_inj.mp he; rfl) rfl
      fun _ _ => hdeleted
  have hindexed : Handles indexAndDelete ⟨true, true, true⟩ s ⟨["a"], .items⟩ [none] _
      [some indexed] :=
    .applied_single (fun op body he => by cases Option.some_inj.mp he; rfl) rfl .index
  obtain ⟨t, h'⟩ : ∃ t, AcceptedWrite indexAndDelete [some "d", some "a"] s t :=
    ⟨_, ⟨true, true, true⟩, { deletingConfig with chunkSize := 1 },
      [{ batches := [[some "d", some "a"]] }], _, _, "i", _, rfl, .refl _,
      (JobSteps.single rfl rfl habsent (.all_items [absent] rfl rfl)).trans
        (JobSteps.single rfl rfl hindexed (.all_items [indexed] rfl rfl)), .cons rfl .nil, rfl⟩
  have hperm : [some "d", some "a"].Perm [some "a", some "d"] := .swap ..
  have hstored := (h.settles indexAndDelete_keyed).1 "a" List.mem_cons_self
  exact ⟨s, t, hstored, h, h',
    (accepted_writes_agree indexAndDelete [some "a", some "d"] _ indexAndDelete_keyed hperm _ s h).2
      t h'⟩

end EsConnector
