import EsConnector.WriteAttempts

namespace EsConnector
set_option autoImplicit true

open Interaction

variable {Id Src Line : Type} {act : Line → Action Id Src} {lines : List Line}
  {st st' st₀ : Store Id Src}

/-- Every line indexes a document without an `_id`. -/
def AutoIds (act : Line → Action Id Src) (lines : List Line) : Prop :=
  ∀ line ∈ lines, ∃ src, act line = .index none src

/-- The documents with a source that are new since `st₀`. -/
def copies (st₀ st : Store Id Src) (src : Src) : Set Id := {i | st₀ i = none ∧ st i = some src}

variable [DecidableEq Id]

/-- How many of some lines have a source. -/
def rowsOf [DecidableEq Src] (act : Line → Action Id Src) (src : Src) (lines : List Line) : Nat :=
  lines.countP fun line => decide (act line = .index none src)

section Documents

variable {src src' : Src}

theorem copies_same (h₀ : st₀ i = none) :
    copies st₀ (Function.update st i (some src)) src = insert i (copies st₀ st src) := by
  ext j
  by_cases hj : j = i
  · subst hj
    simp [copies, h₀]
  · simp [copies, hj]

theorem copies_other (hi : st i = none) (hsrc : src' ≠ src) :
    copies st₀ (Function.update st i (some src')) src = copies st₀ st src := by
  ext j
  by_cases hj : j = i
  · subst hj
    simp [copies, hi, hsrc]
  · simp [copies, hj]

variable [DecidableEq Src]

/-- Each line that has taken effect has left a document of its own, and has not touched another. -/
theorem AppliesAll.delivered (h : AppliesAll act lines st₀ st) (hauto : AutoIds act lines) :
    (∀ i, st₀ i ≠ none → st i = st₀ i) ∧
      ∀ src, (copies st₀ st src).Finite ∧ (copies st₀ st src).ncard = rowsOf act src lines := by
  induction h with
  | @nil st₀ =>
    refine ⟨fun _ _ => rfl, fun src => ?_⟩
    have hempty : copies st₀ st₀ src = ∅ := by
      apply Set.eq_empty_of_forall_notMem
      rintro i ⟨hnone, hsome⟩
      rw [hnone] at hsome
      cases hsome
    rw [hempty]
    exact ⟨Set.finite_empty, Set.ncard_empty _⟩
  | @snoc lines st₀ st line st' _ ha ih =>
    obtain ⟨hkept, hcopies⟩ := ih fun l hl => hauto l (List.mem_append_left _ hl)
    obtain ⟨new, hact⟩ := hauto line (List.mem_append_right _ List.mem_cons_self)
    rw [hact] at ha
    cases ha with
    | auto hi =>
      rename_i i
      have hi₀ : st₀ i = none := by
        by_contra hne
        rw [hkept i hne] at hi
        exact hne hi
      constructor
      · intro j hj
        have hne : j ≠ i := fun he => hj (he ▸ hi₀)
        rw [Function.update_of_ne hne]
        exact hkept j hj
      · intro src
        obtain ⟨hfin, hcard⟩ := hcopies src
        rw [rowsOf, List.countP_append, List.countP_singleton, hact, ← rowsOf, ← hcard]
        by_cases hsrc : new = src
        · subst hsrc
          have hnew : i ∉ copies st₀ st new := fun hm => by
            rw [hm.2] at hi
            cases hi
          rw [copies_same hi₀, Set.ncard_insert_of_notMem hnew hfin, decide_eq_true rfl]
          exact ⟨hfin.insert i, rfl⟩
        · have hother : (.index none new : Action Id Src) ≠ .index none src := by
            intro he
            cases he
            exact hsrc rfl
          rw [copies_other hi hsrc, decide_eq_false hother]
          exact ⟨hfin, rfl⟩

end Documents

section Jobs

variable [NdjsonLine Line] {quiet : Prop}

omit [DecidableEq Id] [NdjsonLine Line] in
/-- A line without an `_id` is never a no-op. -/
theorem SettledLines.idle_eq (h : SettledLines act quiet lines c applied acks idle)
    (hauto : AutoIds act lines) : idle = 0 := by
  apply Multiset.eq_zero_of_forall_notMem
  intro line hidle
  have hline : line ∈ Multiset.ofList lines := by
    rw [h.places]
    exact Multiset.mem_add.mpr (.inr hidle)
  obtain ⟨src, hact⟩ := hauto line (Multiset.mem_coe.mp hline)
  exact h.noops line hidle (by rw [hact]; rfl)

/-- Rows without an `_id` are delivered at least once: a write that is accepted has left a document
for each of them, and duplicates come from re-sends alone. However the sends of the transport, the
chunks and the attempts at the partitions interleave, and wherever the write stands, no document that
was there has changed and no row has more copies than it can have been sent. -/
theorem rows_delivered [DecidableEq Src] (act : Line → Action Id Src) (rules : EsRules)
    (cfg : EsWriteConfig) (parts : List (Partition Line)) (hauto : AutoIds act (inputLines parts))
    (s s' : EsState Id Src Line) (as : List (WriteAttempts Line))
    (hrun : AttemptedWrite act rules cfg parts s s' as) (n : Nat)
    (hn : ∀ a ∈ as, a.all.length ≤ n) :
    (∀ i, s.store i ≠ none → s'.store i = s.store i) ∧
    (∀ src, (copies s.store s'.store src).Finite ∧ (copies s.store s'.store src).ncard ≤
      n * cfg.sendsPerAttempt * rowsOf act src (inputLines parts)) ∧
    ∀ rows index result, Reported as rows →
      (reconcileOrRaise (mergePartitionResults rows) index).2 = .ok result → ∀ src,
      rowsOf act src (inputLines parts) ≤ (copies s.store s'.store src).ncard ∧
        (Quiet cfg as → (copies s.store s'.store src).ncard = rowsOf act src (inputLines parts)) := by
  obtain ⟨applied, hsub, hall, hbound, hsettled⟩ := hrun.books
  obtain ⟨hkept, hcopies⟩ := hall.delivered fun line hline => hauto line (hsub hline)
  refine ⟨hkept, fun src => ⟨(hcopies src).1, ?_⟩, fun rows index result hrows haccept src => ?_⟩
  · rw [(hcopies src).2]
    exact hbound _ n hn
  · obtain ⟨acks, idle, hs⟩ := hsettled rows hrows (cleanRows_of_accept haccept)
    have hplaces := hs.places
    rw [hs.idle_eq hauto, add_zero] at hplaces
    rw [(hcopies src).2]
    constructor
    · have hsubperm := Multiset.coe_le.mp (hplaces ▸ hs.acked)
      exact hsubperm.countP_le _
    · intro hquiet
      have hperm := Multiset.coe_eq_coe.mp ((hs.exact hquiet).trans hplaces.symm)
      exact hperm.countP_eq _

end Jobs

def unresentConfig : EsWriteConfig where
  hosts := "h"
  transportMaxRetries := 0

/-- A row that a probe writes, and writes again when the chunk is sent a second time. -/
theorem rows_delivered_twice :
    ∃ (s : EsState Nat String String) (as : List (WriteAttempts String)) (rows : List SummaryRow),
      s.applied = ["a", "a"] ∧ Reported as rows ∧
      1 ≤ (copies (fun _ => none) s.store "a").ncard ∧
      (copies (fun _ => none) s.store "a").ncard ≤ 5 := by
  let act : String → Action Nat String := fun line => .index none line
  let item : Item := some (.index, { status := some 201 })
  let s₀ : EsState Nat String String := ⟨fun _ => none, []⟩
  let s₁ : EsState Nat String String := ⟨Function.update s₀.store 0 (some "a"), ["a"]⟩
  have hanswers : Answers (act "a") item := fun op body he => by
    cases Option.some_inj.mp he
    rfl
  have happlies (i : Nat) (st : Store Nat String) (hi : st i = none) :
      Applies (act "a") st (Function.update st i (some "a")) := .auto hi
  have hprobe : Replies ⟨true, true, true⟩ (⟨["a"], .errors⟩ : BulkRequest String) [some item]
      { result := .ok {} } :=
    ⟨[item], rfl, rfl, fun _ h => absurd h (by simp), fun h => absurd h.symm Bool.false_ne_true⟩
  have hfull : Replies ⟨true, true, true⟩ (⟨["a"], .items⟩ : BulkRequest String) [some item]
      { result := .ok { items := some [item] } } :=
    ⟨[item], rfl, rfl, fun h => absurd h Bool.false_ne_true,
      fun _ => ⟨_, rfl, List.prefix_refl _, fun _ => rfl⟩⟩
  obtain ⟨s, a, hrun, happlied, hpast, rows, hrows, haccept⟩ : ∃ (s : EsState Nat String String)
      (a : WriteAttempts String), AttemptedWrite act ⟨true, true, true⟩ unresentConfig
          [{ batches := [[some "a"]] }] s₀ s [a] ∧
        s.applied = ["a", "a"] ∧ a.past = [] ∧ ∃ rows, Reported [a] rows ∧
        (reconcileOrRaise (mergePartitionResults rows) "i").2 = .ok (mergePartitionResults rows) := by
    refine ⟨_, _, (AttemptSteps.single rfl rfl
      (.applied_single hanswers rfl (happlies 0 s₀.store rfl)) hprobe).trans
        (AttemptSteps.single rfl rfl
          (.applied_single hanswers rfl (happlies 1 s₁.store rfl)) hfull), rfl, rfl, ?_⟩
    exact ⟨_, .cons rfl .nil, rfl⟩
  have hone : ∀ b ∈ [a], b.all.length ≤ 1 := by
    intro b hb
    rw [List.mem_singleton.mp hb, Attempts.all, hpast]
    rfl
  obtain ⟨-, hcopies, haccepted⟩ := rows_delivered act ⟨true, true, true⟩ unresentConfig
    [{ batches := [[some "a"]] }] (fun line _ => ⟨line, rfl⟩) s₀ s [a] hrun 1 hone
  exact ⟨s, [a], rows, happlied, hrows, (haccepted rows "i" _ hrows haccept "a").1,
    (hcopies "a").2⟩

end EsConnector
