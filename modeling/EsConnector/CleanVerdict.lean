import EsConnector.PartitionAccounts
import EsConnector.Truthful

namespace EsConnector
set_option autoImplicit true

open Interaction

variable {Id Src Line : Type} {act : Line → Action Id Src} {lines : List Line}

/-- The id an action names. -/
def Action.id : Action Id Src → Option Id
  | .index i _ => i
  | .create i _ => some i
  | .delete i => some i

/-- Every line indexes or deletes the document of an id of its own. -/
structure Keyed (act : Line → Action Id Src) (lines : List Line) : Prop where
  action : ∀ line ∈ lines, (∃ i src, act line = .index (some i) src) ∨ ∃ i, act line = .delete i
  distinct : (lines.map fun line => (act line).id).Nodup

/-- The store is as the line wants it. -/
def InEffect (act : Line → Action Id Src) (line : Line) (st : Store Id Src) : Prop :=
  match act line with
  | .index (some i) src => st i = some src
  | .delete i => st i = none
  | _ => True

/-- Only named ids have changed. -/
def Untouched (act : Line → Action Id Src) (lines : List Line) (st₀ st : Store Id Src) : Prop :=
  ∀ i, (∀ line ∈ lines, (act line).id ≠ some i) → st i = st₀ i

theorem Keyed.eq_of_id (h : Keyed act lines) (hl : line ∈ lines) (hl' : line' ∈ lines)
    (he : (act line).id = (act line').id) : line = line' :=
  List.inj_on_of_nodup_map h.distinct hl hl' he

theorem Keyed.sublist (h : Keyed act lines) (hs : lines'.Sublist lines) : Keyed act lines' where
  action line hl := h.action line (hs.subset hl)
  distinct := h.distinct.sublist (hs.map _)

theorem Keyed.perm (h : Keyed act lines) (hp : lines'.Perm lines) : Keyed act lines' where
  action line hl := h.action line (hp.mem_iff.mp hl)
  distinct := (hp.map _).nodup_iff.mpr h.distinct

theorem Untouched.perm (h : Untouched act lines st₀ st) (hp : lines.Perm lines') :
    Untouched act lines' st₀ st :=
  fun i hi => h i fun line hl => hi line (hp.mem_iff.mp hl)

theorem InEffect.congr (h : InEffect act line st)
    (hst : ∀ i, (act line).id = some i → st' i = st i) : InEffect act line st' := by
  rw [InEffect] at h ⊢
  split
  · next i src he =>
    simp only [he] at h
    rw [hst i (by rw [he]; rfl), h]
  · next i he =>
    simp only [he] at h
    rw [hst i (by rw [he]; rfl), h]
  · trivial

/-- The input of one partition of the DataFrame, as Spark hands it over in Arrow batches. -/
structure Partition (Line : Type) where
  clock : PartitionClock := {}
  batches : List (List (Option Line))

def Partition.actionLines (p : Partition Line) : List Line := p.batches.flatMap List.reduceOption

def inputLines (parts : List (Partition Line)) : List Line := parts.flatMap Partition.actionLines

def Partition.rows (p : Partition Line) : List (Option Line) := p.batches.flatten

theorem inputLines_perm {parts : List (Partition Line)} {rows : List (Option Line)}
    (h : (parts.flatMap Partition.rows).Perm rows) : (inputLines parts).Perm rows.reduceOption := by
  have hlines : inputLines parts = (parts.flatMap Partition.rows).reduceOption := by
    simp only [inputLines, List.reduceOption, List.filterMap_flatMap]
    apply List.flatMap_congr
    intro p _
    simp only [Partition.actionLines, Partition.rows, List.reduceOption, ← List.flatMap_id,
      List.filterMap_flatMap]
    rfl
  rw [hlines]
  exact h.filterMap id

variable [DecidableEq Id]

/-- Applying a keyed line sets its own id as it wants it and no other. -/
theorem Applies.keyed (ha : Applies (act line) st st')
    (hk : (∃ i src, act line = .index (some i) src) ∨ ∃ i, act line = .delete i) :
    InEffect act line st' ∧ ∀ i, (act line).id ≠ some i → st' i = st i := by
  rcases hk with ⟨j, src, he⟩ | ⟨j, he⟩
  all_goals
    simp only [InEffect, he] at ha ⊢
    cases ha
    refine ⟨Function.update_self .., fun i hi => Function.update_of_ne ?_ ..⟩
    intro rfl
    exact hi rfl

/-- A keyed line that was applied, or deleted what was not there, stays in effect. -/
theorem Keyed.effect (h : Keyed act lines) : Effect act lines (InEffect act) where
  applied line hl st st' ha := (ha.keyed (h.action line hl)).1
  ignored line hl st status hh hi := by
    rcases h.action line hl with ⟨i, src, he⟩ | ⟨i, he⟩
    · rw [he] at hi
      obtain ⟨-, ⟨hop, -⟩ | ⟨hop, -⟩⟩ := classifyBulkResult_ignored_iff.mp hi <;> cases hop
    · rw [he] at hi hh
      obtain ⟨-, ⟨-, hstatus⟩ | ⟨hop, -⟩⟩ := classifyBulkResult_ignored_iff.mp hi
      · simp only [InEffect, he]
        exact hh hstatus
      · cases hop
  stable line hl other ho st st' ha hin := by
    obtain ⟨hother, hframe⟩ := ha.keyed (h.action other ho)
    by_cases hid : (act other).id = (act line).id
    · rwa [h.eq_of_id ho hl hid] at hother
    · exact hin.congr fun i hi => hframe i fun he => hid (he.trans hi.symm)

theorem Untouched.work (h : Keyed act lines) {s s' : EsState Id Src Line} {q : BulkRequest Line}
    (hq : q.operations ⊆ lines) (hw : Handles act rules s q p s' p')
    (hu : Untouched act lines st₀ s.store) : Untouched act lines st₀ s'.store := by
  cases hw with
  | refused => exact hu
  | applied hl hop hok ha =>
    have hline := hq (List.mem_of_getElem? hl)
    obtain ⟨-, hframe⟩ := ha.keyed (h.action _ hline)
    exact fun i hi => (hframe i (hi _ hline)).trans (hu i hi)

section Jobs

variable [NdjsonLine Line] {rules : EsRules} {cfg : EsWriteConfig} {parts : List (Partition Line)}

/-- The writer of a partition. -/
def Partition.main (cfg : EsWriteConfig) (p : Partition Line) :
    PartitionProg Line (Except WriteError SummaryRow) :=
  write cfg (shipInto cfg) p.clock p.batches

abbrev WriterProcess (Line : Type) : Type :=
  Process Handled (BulkRequest Line) (fun _ => BulkReply) (List Line) ChunkResult
    (Except WriteError SummaryRow)

/-- The Spark job of a write: the writers of its partitions and their threads take turns beside
one Elasticsearch. -/
def WriteJob (act : Line → Action Id Src) (rules : EsRules) (cfg : EsWriteConfig)
    (parts : List (Partition Line)) (s s' : EsState Id Src Line)
    (xs : List (WriterProcess Line)) : Prop :=
  (elasticsearch act rules).Job (shipOne cfg) (parts.map (Partition.main cfg)) s s' xs

/-- No partition reported an error or lost a row. -/
def CleanRows (rows : List SummaryRow) : Prop := ∀ row ∈ rows, orZero row.errors = 0 ∧ row.delta ≤ 0

omit [NdjsonLine Line] [DecidableEq Id] in
theorem cleanRows_of_accept
    (h : (reconcileOrRaise (mergePartitionResults rows) index).2 = .ok result) :
    CleanRows rows := by
  intro row hrow
  have hno := mt (reconcileOrRaise_merge_iff rows index).mpr (by
    rintro ⟨e, he⟩
    rw [h] at he
    cases he)
  have herr := orZero_nonneg row.errors
  by_contra hbad
  exact hno ⟨row, hrow, by omega⟩

/-- The job has finished with the given summary rows. -/
def Collected (xs : List (WriterProcess Line)) (rows : List SummaryRow) : Prop :=
  List.Forall₂ (fun x row => x.rest = .ret (.ok row)) xs rows

/-- What is known of a running job: which lines its calls carry, that responses are truthful, and
which ids have changed. -/
abbrev WriteJobSound (act : Line → Action Id Src) (rules : EsRules) (cfg : EsWriteConfig)
    (parts : List (Partition Line)) (st₀ : Store Id Src) :
    EsState Id Src Line → List (WriterProcess Line) → Prop :=
  JobSound FewItems
    (fun p => partitionAsks (fun q => q.operations ⊆ inputLines parts) cfg p.batches)
    (fun q => q.operations ⊆ inputLines parts) (shipOne cfg) (Partition.main cfg)
    (elasticsearch act rules) (fun s => Untouched act (inputLines parts) st₀ s.store)
    (fun s q p => Truthful (InEffect act) s.store q p)
    (fun s c => c.1.operations ⊆ inputLines parts ∧
      ∀ line, Vouches c line → InEffect act line s.store) parts

omit [NdjsonLine Line] [DecidableEq Id] in
theorem allowsChunks_inputLines (hp : p ∈ parts) :
    AllowsChunks (fun q : BulkRequest Line => q.operations ⊆ inputLines parts) cfg p.batches := by
  intro chunk hchunk q hq line hline
  have hmem := (chunkPlan_flatten_sublist cfg p.batches).subset
    (List.mem_flatten.mpr ⟨chunk, hchunk, hq hline⟩)
  exact List.mem_flatMap.mpr ⟨p, hp, hmem⟩

theorem WriteJob.sound (hhonest : rules.honest = true) (hkeyed : Keyed act (inputLines parts))
    (h : WriteJob act rules cfg parts s s' xs) :
    WriteJobSound act rules cfg parts s.store s' xs :=
  JobSound.steps (fun _ _ _ _ h => Replies.fewItems h)
    (truthful_keeps hkeyed.effect hhonest fun _ _ _ _ _ hq hw => Untouched.work hkeyed hq hw)
    (fun p hp => write_proper (allowsChunks_inputLines hp) p.clock) (fun _ _ => rfl) h

/-- A finished job whose rows show no error and no loss has put every line into effect. -/
theorem WriteJobSound.clean (h : WriteJobSound act rules cfg parts st₀ s xs)
    (hrows : Collected xs rows)
    (hclean : CleanRows rows) : ∀ line ∈ inputLines parts, InEffect act line s.store := by
  intro line hline
  obtain ⟨p, hp, hline⟩ := List.mem_flatMap.mp hline
  obtain ⟨i, hi, rfl⟩ := List.getElem_of_mem hp
  have hx : i < xs.length := h.sound.length_eq ▸ hi
  have hr : i < rows.length := hrows.length_eq ▸ hx
  obtain ⟨he, hd⟩ := hclean _ (List.getElem_mem hr)
  have hend := write_sound_accounts (allowsChunks_inputLines (List.getElem_mem hi))
    (h.sound.get hi hx) (hrows.get hx hr)
  obtain ⟨call, hcall, hv⟩ := hend.clean he hd line hline
  have hkeep := h.keeping _ (List.getElem_mem hx)
  rcases List.mem_append.mp hcall with hc | hc
  · exact (hkeep.log call hc).2 line hv
  · obtain ⟨log, hlog, hc⟩ := List.mem_flatten.mp hc
    obtain ⟨th, hth, rfl⟩ := List.mem_map.mp hlog
    exact ((hkeep.threads th hth).log call hc).2 line hv

/-- A clean verdict means the data is in Elasticsearch: when `reconcile_or_raise` accepts the
merged result of a finished job, every line is in effect and no other id has changed. -/
theorem clean_verdict (act : Line → Action Id Src) (hhonest : rules.honest = true)
    (cfg : EsWriteConfig) (parts : List (Partition Line)) (hkeyed : Keyed act (inputLines parts))
    (s₀ s : EsState Id Src Line) (xs : List (WriterProcess Line))
    (hrun : WriteJob act rules cfg parts s₀ s xs) (rows : List SummaryRow)
    (hrows : Collected xs rows) (index : String) (result : WriteResult)
    (haccept : (reconcileOrRaise (mergePartitionResults rows) index).2 = .ok result) :
    (∀ line ∈ inputLines parts, InEffect act line s.store) ∧
      Untouched act (inputLines parts) s₀.store s.store := by
  have hsound := hrun.sound hhonest hkeyed
  exact ⟨hsound.clean hrows (cleanRows_of_accept haccept), hsound.state⟩

end Jobs

section SingleJob

variable {Id Src Line : Type} [DecidableEq Id] {act : Line → Action Id Src} {rules : EsRules}
  {s s' s'' : EsState Id Src Line} {x : WriterProcess Line} {body : List Line → BulkProg Line ChunkResult}
  {mains : List (PartitionProg Line (Except WriteError SummaryRow))} {q : BulkRequest Line}
  {k : BulkReply → PartitionProg Line (Except WriteError SummaryRow)} {reply : BulkReply}

theorem JobSteps.work (hx : x.rest = .ask (.call q) k)
    (hw : Handles act rules s q (x.progress.getD (List.replicate q.operations.length none)) s' items) :
    (elasticsearch act rules).JobSteps body mains s [x] s' [{ x with progress := some items }] :=
  .head (.step 0 rfl (.work hx hw)) (.refl ..)

theorem JobSteps.answer (hx : x.rest = .ask (.call q) k) (hp : x.progress = some items)
    (hr : Replies rules q items reply) :
    (elasticsearch act rules).JobSteps body mains s [x] s
      [{ x with log := x.log ++ [⟨q, reply⟩], rest := k reply, progress := none }] := by
  have hstep : (elasticsearch act rules).ProcessStep body s x s
      { x with log := x.log ++ [⟨q, reply⟩], rest := k reply, progress := none } :=
    .reply hx (by rw [hp]; exact hr)
  exact .head (.step 0 rfl hstep) (.refl ..)

/-- A job of one partition that waits for a request of one line, which is handled and then
answered. -/
theorem JobSteps.single (hx : x.rest = .ask (.call ⟨[line], fp⟩) k) (hp : x.progress = none)
    (hw : Handles act rules s ⟨[line], fp⟩ [none] s' [some item])
    (hr : Replies rules ⟨[line], fp⟩ [some item] reply) :
    (elasticsearch act rules).JobSteps body mains s [x] s'
      [{ x with log := x.log ++ [⟨⟨[line], fp⟩, reply⟩], rest := k reply, progress := none }] := by
  have hwork : (elasticsearch act rules).JobSteps body mains s [x] s'
      [{ x with progress := some [some item] }] := JobSteps.work hx (by rw [hp]; exact hw)
  exact hwork.trans (JobSteps.answer hx rfl hr)

/-- The same with a request of two lines, which are handled in order. -/
theorem JobSteps.pair (hx : x.rest = .ask (.call ⟨[line, line'], fp⟩) k) (hp : x.progress = none)
    (hw : Handles act rules s ⟨[line, line'], fp⟩ [none, none] s' [some item, none])
    (hw' : Handles act rules s' ⟨[line, line'], fp⟩ [some item, none] s'' [some item, some item'])
    (hr : Replies rules ⟨[line, line'], fp⟩ [some item, some item'] reply) :
    (elasticsearch act rules).JobSteps body mains s [x] s''
      [{ x with log := x.log ++ [⟨⟨[line, line'], fp⟩, reply⟩], rest := k reply, progress := none }] := by
  have hwork : (elasticsearch act rules).JobSteps body mains s [x] s'
      [{ x with progress := some [some item, none] }] := JobSteps.work hx (by rw [hp]; exact hw)
  have hwork' : (elasticsearch act rules).JobSteps body mains s'
      [{ x with progress := some [some item, none] }] s''
      [{ x with progress := some [some item, some item'] }] := JobSteps.work hx hw'
  exact hwork.trans (hwork'.trans (JobSteps.answer hx rfl hr))

end SingleJob

/-- A line of document 0, and a delete of document 1. -/
def indexAndDelete (line : String) : Action Nat String :=
  if line = "d" then .delete 1 else .index (some 0) line

def deletingConfig : EsWriteConfig :=
  { hosts := "h", idField := some "id", hasDeletes := true, deleteFlagColumn := some "gone" }

theorem indexAndDelete_keyed : Keyed indexAndDelete ["a", "d"] := by
  refine ⟨?_, by decide⟩
  intro line _
  by_cases h : line = "d"
  · exact .inr ⟨1, if_pos h⟩
  · exact .inl ⟨0, line, if_neg h⟩

theorem Replies.all_items {Line : Type} {rules : EsRules} {q : BulkRequest Line} (items : List Item)
    (hlen : items.length = q.operations.length) (hq : q.filterPath.isProbe = false) :
    Replies rules q (items.map some) { result := .ok { items := some items } } :=
  ⟨items, rfl, hlen, fun h => absurd (hq.symm.trans h) Bool.false_ne_true,
    fun _ => ⟨items, rfl, List.prefix_refl _, fun _ => rfl⟩⟩

/-- The writer of both lines: the delete is throttled and takes effect when it is sent again. -/
theorem delete_retried (accepted : Bool) (s : EsState Nat String String) :
    ∃ (s' : EsState Nat String String) (x : WriterProcess String) (row : SummaryRow),
      (elasticsearch indexAndDelete ⟨true, true, true⟩).JobSteps (shipOne deletingConfig)
        ([{ batches := [[some "a", some "d"]] }].map (Partition.main deletingConfig)) s
        [{ rest := Partition.main deletingConfig { batches := [[some "a", some "d"]] } }] s' [x] ∧
      x.rest = .ret (.ok row) ∧ row.errors = some (if accepted then 0 else 1) ∧ row.delta = 0 ∧
      s'.store 1 = none := by
  let throttled : Item := some (.delete, { status := some 429 })
  let deleted : Item := some (.delete, { status := some 200 })
  have hdelete (status : Int) : Answers (indexAndDelete "d") (some (.delete, { status })) := by
    intro op body he
    cases Option.some_inj.mp he
    rfl
  have hindex (status : Int) : Answers (indexAndDelete "a") (some (.index, { status })) := by
    intro op body he
    cases Option.some_inj.mp he
    rfl
  have hwait (t : EsState Nat String String) (item : Item) :
      Handles indexAndDelete ⟨true, true, true⟩ t ⟨["a", "d"], .items⟩ ([some item] ++ [none]) t
        ([some item] ++ [some throttled]) :=
    .refused rfl (hdelete 429) rfl fun _ h => absurd h (by decide)
  have hagain (t : EsState Nat String String) :
      Handles indexAndDelete ⟨true, true, true⟩ t ⟨["d"], .items⟩ [none] _ [some deleted] :=
    .applied_single (hdelete 200) rfl .delete
  cases accepted with
  | true =>
    let indexed : Item := some (.index, { status := some 201 })
    have hfirst : Handles indexAndDelete ⟨true, true, true⟩ s ⟨["a", "d"], .items⟩
        ([] ++ [none, none]) _ ([] ++ [some indexed, none]) :=
      .applied rfl (hindex 201) rfl .index
    exact ⟨_, _, _, (JobSteps.pair rfl rfl hfirst (hwait _ _)
      (.all_items [indexed, throttled] rfl rfl)).trans
      (JobSteps.single rfl rfl (hagain _) (.all_items [deleted] rfl rfl)), rfl, rfl, by decide, rfl⟩
  | false =>
    let rejected : Item := some (.index, { status := some 400 })
    have hfirst : Handles indexAndDelete ⟨true, true, true⟩ s ⟨["a", "d"], .items⟩
        ([] ++ [none, none]) s ([] ++ [some rejected, none]) :=
      .refused rfl (hindex 400) rfl fun _ => trivial
    exact ⟨_, _, _, (JobSteps.pair rfl rfl hfirst (hwait _ _)
      (.all_items [rejected, throttled] rfl rfl)).trans
      (JobSteps.single rfl rfl (hagain _) (.all_items [deleted] rfl rfl)), rfl, rfl, by decide, rfl⟩

theorem accepts_of_clean_row {row : SummaryRow} (he : row.errors = some 0) (hd : row.delta = 0)
    (index : String) : (reconcileOrRaise (mergePartitionResults [row]) index).2 =
      .ok (mergePartitionResults [row]) := by
  rw [reconcileOrRaise_ok_iff, signals_mergePartitionResults, lostRows_cons, hd, List.map_singleton, he]
  exact ⟨rfl, le_refl 0⟩

/-- The delete of a stored document is throttled once, and then the verdict is clean. -/
theorem clean_verdict_retried_delete :
    ∃ (s : EsState Nat String String) (xs : List (WriterProcess String)) (rows : List SummaryRow),
      Collected xs rows ∧ rows.length = 1 ∧ s.store 0 = some "a" ∧ s.store 1 = none ∧
      Untouched indexAndDelete ["a", "d"] (fun i => if i < 3 then some "old" else none) s.store := by
  let s₀ : EsState Nat String String := ⟨fun i => if i < 3 then some "old" else none, []⟩
  obtain ⟨s, x, row, hrun, hrest, herrors, hdelta, -⟩ := delete_retried true s₀
  have hrows : Collected [x] [row] := .cons hrest .nil
  obtain ⟨hin, hother⟩ := clean_verdict indexAndDelete rfl deletingConfig
    [{ batches := [[some "a", some "d"]] }] indexAndDelete_keyed s₀ s [x] hrun [row] hrows "i" _
    (accepts_of_clean_row herrors hdelta "i")
  exact ⟨s, [x], [row], hrows, rfl, hin "a" List.mem_cons_self,
    hin "d" (List.mem_cons_of_mem _ List.mem_cons_self), hother⟩

end EsConnector
