import Mathlib.Logic.Hydra
import EsConnector.Job

namespace Interaction
set_option autoImplicit true

open Relation

variable {S P Q T ρ α β : Type} {R : Q → Type}

/-- A program under execution comes nearer to its end: the call it waits for is one step further,
or has been answered. -/
inductive Prog.Nearer (left : Q → Option P → Nat) :
    Prog Q R α × Option P → Prog Q R α × Option P → Prop where
  | worked (k : R q → Prog Q R α) (h : left q p' < left q p) :
      Nearer left (.ask q k, p') (.ask q k, p)
  | answered (k : R q → Prog Q R α) (r : R q) : Nearer left (k r, none) (.ask q k, p)

theorem Prog.nearer_wf (left : Q → Option P → Nat) :
    WellFounded (Prog.Nearer left : Prog Q R α × Option P → Prog Q R α × Option P → Prop) := by
  apply WellFounded.intro
  rintro ⟨prog, p⟩
  induction prog generalizing p with
  | ret a =>
    apply Acc.intro
    intro y hy
    cases hy
  | ask q k ih =>
    induction hn : left q p using Nat.strong_induction_on generalizing p with
    | _ n ihn =>
      apply Acc.intro
      intro y hy
      cases hy with
      | worked _ hlt => exact ihn _ (hn ▸ hlt) _ rfl
      | answered _ r => exact ih r _

/-- The work that is left on what a program with a pool waits for. -/
def poolLeft (left : Q → Option P → Nat) : PoolQuery Q T → Option P → Nat
  | .call q, p => left q p
  | _, _ => 0

/-- A thread or the program of a process, with the progress of its call. -/
abbrev Part (P Q : Type) (R : Q → Type) (T ρ α : Type) : Type :=
  (Prog Q R ρ × Option P) ⊕ (PoolProg Q R T ρ α × Option P)

/-- A program may leave any threads behind as it comes nearer to its end. -/
def Part.Nearer (left : Q → Option P → Nat) : Part P Q R T ρ α → Part P Q R T ρ α → Prop :=
  Sum.Lex (Prog.Nearer left) (Prog.Nearer (poolLeft left))

theorem Part.nearer_wf (left : Q → Option P → Nat) :
    WellFounded (Part.Nearer left : Part P Q R T ρ α → Part P Q R T ρ α → Prop) :=
  Sum.lex_wf (Prog.nearer_wf left) (Prog.nearer_wf (poolLeft left))

def Thread.part (th : Thread P Q R ρ) : Part P Q R T ρ α := .inl (th.rest, th.progress)

def threadParts (threads : List (Thread P Q R ρ)) : Multiset (Part P Q R T ρ α) :=
  Multiset.ofList (threads.map Thread.part)

/-- What is under execution in a process. -/
def Process.parts (x : Process P Q R T ρ α) : Multiset (Part P Q R T ρ α) :=
  {Sum.inr (x.rest, x.progress)} + threadParts x.threads

def jobParts (xs : List (Process P Q R T ρ α)) : Multiset (Part P Q R T ρ α) :=
  (xs.map Process.parts).sum

theorem exists_others {l : List β} {i : Nat} {a : β} (hi : l[i]? = some a) (b : β) :
    ∃ others : List β, l.Perm (a :: others) ∧ (l.set i b).Perm (b :: others) := by
  obtain ⟨hlt, rfl⟩ := List.getElem?_eq_some_iff.mp hi
  refine ⟨l.take i ++ l.drop (i + 1), ?_, ?_⟩
  · nth_rewrite 1 [← List.take_append_drop i l, List.drop_eq_getElem_cons hlt]
    exact List.perm_middle
  · rw [List.set_eq_take_append_cons_drop, if_pos hlt]
    exact List.perm_middle

theorem threadParts_append (ths ths' : List (Thread P Q R ρ)) :
    (threadParts (ths ++ ths') : Multiset (Part P Q R T ρ α)) =
      threadParts ths + threadParts ths' := by
  rw [threadParts, List.map_append, ← Multiset.coe_add]
  rfl

theorem threadParts_perm {ths : List (Thread P Q R ρ)} (h : ths.Perm (th :: others)) :
    (threadParts ths : Multiset (Part P Q R T ρ α)) = {th.part} + threadParts others := by
  rw [threadParts, Multiset.coe_eq_coe.mpr (h.map _), List.map_cons, ← Multiset.cons_coe,
    Multiset.singleton_add]
  rfl

theorem jobParts_perm {xs ys : List (Process P Q R T ρ α)} (h : xs.Perm ys) :
    jobParts xs = jobParts ys :=
  (h.map Process.parts).sum_eq

/-- How much work the calls of a server still need, and how a call goes on until it is answered. -/
structure Server.Responsive (V : Server S P Q R) (left : Q → P → Nat) (I : Q → P → Prop) :
    Prop where
  fresh : ∀ q, I q (V.fresh q)
  keeps : ∀ s q p s' p', V.work s q p s' p' → I q p → I q p'
  work : ∀ s q p s' p', V.work s q p s' p' → left q p' < left q p
  moves : ∀ s q p, I q p → (∃ s' p', V.work s q p s' p') ∨ ∃ r, V.reply s q p r

/-- A step of one process of a job, none of which is started again. -/
inductive Server.JobMove (V : Server S P Q R) (body : T → Prog Q R ρ) :
    S × List (Process P Q R T ρ α) → S × List (Process P Q R T ρ α) → Prop where
  | step (i : Nat) (hi : xs[i]? = some x) (h : V.ProcessStep body s x s' x') :
      V.JobMove body (s, xs) (s', xs.set i x')

section Ends

variable {V : Server S P Q R} {left : Q → P → Nat} {I : Q → P → Prop} {body : T → Prog Q R ρ}
  {s s' : S}

/-- The work left on a call whose progress may not have begun. -/
def Server.leftOf (V : Server S P Q R) (left : Q → P → Nat) (q : Q) (p : Option P) : Nat :=
  left q (p.getD (V.fresh q))

theorem Server.Step.nearer (hV : V.Responsive left I) {th th' : Thread P Q R ρ}
    (h : V.Step s th s' th') :
    Prog.Nearer (V.leftOf left) (th'.rest, th'.progress) (th.rest, th.progress) := by
  cases h with
  | work hw => exact .worked _ (hV.work _ _ _ _ _ hw)
  | reply => exact .answered _ _

theorem Server.ProcessStep.nearer (hV : V.Responsive left I) {x x' : Process P Q R T ρ α}
    (h : V.ProcessStep body s x s' x') :
    CutExpand (Part.Nearer (V.leftOf left)) x'.parts x.parts := by
  have hmain {y : PoolProg Q R T ρ α × Option P}
      (hy : Prog.Nearer (poolLeft (V.leftOf left)) y (x.rest, x.progress)) :
      CutExpand (Part.Nearer (V.leftOf left)) ({Sum.inr y} + threadParts x.threads) x.parts :=
    cutExpand_single_add (.inr hy) _
  cases h with
  | work hx hw =>
    apply hmain
    rw [hx]
    exact .worked _ (hV.work _ _ _ _ _ hw)
  | reply hx hr =>
    rename_i q r k
    apply hmain
    rw [hx]
    exact .answered k r
  | submit hx =>
    rename_i task k
    -- the program leaves a new thread behind
    rw [Process.parts, Process.parts, hx, threadParts_append, add_comm (threadParts x.threads),
      ← add_assoc, cutExpand_add_right]
    apply cutExpand_singleton
    intro y hy
    rcases Multiset.mem_add.mp hy with hy | hy
    · rw [Multiset.mem_singleton.mp hy]
      exact .inr (.answered k x.submitted.length)
    · rw [Multiset.mem_singleton.mp hy]
      exact .sep _ _
  | wait hx c hc =>
    rename_i pending k
    apply hmain
    rw [hx]
    exact .answered k c
  | shutdown hx hdone =>
    rename_i k
    apply hmain
    rw [hx]
    exact .answered k ()
  | thread i hi hs =>
    rename_i th th'
    obtain ⟨others, hold, hnew⟩ := exists_others hi th'
    rw [Process.parts, Process.parts, threadParts_perm hold, threadParts_perm hnew,
      cutExpand_add_left]
    exact cutExpand_single_add (.inl (hs.nearer hV)) _

theorem Server.JobMove.nearer (hV : V.Responsive left I)
    {a b : S × List (Process P Q R T ρ α)} (h : V.JobMove body a b) :
    CutExpand (Part.Nearer (V.leftOf left)) (jobParts b.2) (jobParts a.2) := by
  cases h with
  | step i hi hs =>
    rename_i x s s' x'
    obtain ⟨others, hold, hnew⟩ := exists_others hi x'
    rw [jobParts_perm hold, jobParts_perm hnew]
    simp only [jobParts, List.map_cons, List.sum_cons]
    exact (cutExpand_add_right _).mpr (hs.nearer hV)

/-- A job whose processes are not started again comes to an end, in whatever order they take their
turns. -/
theorem Server.Responsive.jobMove_wf (hV : V.Responsive left I) :
    WellFounded fun b a : S × List (Process P Q R T ρ α) => V.JobMove body a b := by
  have hwf := InvImage.wf (fun a : S × List (Process P Q R T ρ α) => jobParts a.2)
    (Part.nearer_wf (V.leftOf left)).cutExpand
  exact Subrelation.wf (fun h => h.nearer hV) hwf

end Ends

def Thread.Over (th : Thread P Q R ρ) : Prop := ∃ a, th.rest = .ret a

/-- The program has returned and no thread is left running. -/
def Process.Over (x : Process P Q R T ρ α) : Prop :=
  (∃ a, x.rest = .ret a) ∧ ∀ th ∈ x.threads, th.Over

/-- A program waits only for tasks that are outstanding, and only when there are some. -/
def WaitsOutstanding (asks : PoolState Q R T ρ → PoolQuery Q T → Prop) : Prop :=
  ∀ g pending, asks g (.wait pending) → pending = g.outstanding ∧ pending ≠ []

section Moves

variable {V : Server S P Q R} {left : Q → P → Nat} {I : Q → P → Prop} {body : T → Prog Q R ρ}
  {legal : (q : Q) → R q → Prop} {asks : PoolState Q R T ρ → PoolQuery Q T → Prop}
  {demands : Q → Prop} {main : PoolProg Q R T ρ α} {s s' : S}

theorem Server.Responsive.keepsProgress (hV : V.Responsive left I) (demands : Q → Prop) :
    V.Keeps demands (fun _ => True) (fun _ => I) (fun _ _ => True) where
  state _ _ _ _ _ _ _ _ := trivial
  fresh _ q _ := hV.fresh q
  work _ _ _ _ _ _ hw h := hV.keeps _ _ _ _ _ hw h
  others _ _ _ _ _ _ _ _ _ _ h := h
  reply _ _ _ _ _ _ _ := trivial
  finished _ _ _ _ _ _ _ _ _ := trivial

theorem Thread.Keeping.moves (hV : V.Responsive left I) {th : Thread P Q R ρ}
    (h : th.Keeping V (fun _ => I) G s) : th.Over ∨ ∃ s' th', V.Step s th s' th' := by
  obtain ⟨rest, p, log⟩ := th
  cases rest with
  | ret a => exact .inl ⟨a, rfl⟩
  | ask q k =>
    rcases hV.moves s q _ (h.call q k rfl) with ⟨s', p', hw⟩ | ⟨r, hr⟩
    · exact .inr ⟨_, _, .work hw⟩
    · exact .inr ⟨_, _, .reply hr⟩

theorem Process.Sound.outstanding_lt {x : Process P Q R T ρ α}
    (hx : x.Sound legal asks demands body main) (hp : ∃ post, wp (poolEnv legal asks) main post {})
    (hwait : WaitsOutstanding asks) : ∀ i ∈ x.outstanding, i < x.submitted.length := by
  obtain ⟨post, hwp⟩ := hp
  apply hx.main.invariant
    (I := fun g => ∀ i ∈ g.outstanding, i < g.submitted.length) hwp
    (fun _ h => absurd h List.not_mem_nil)
  intro g q r g' hI hask hans
  cases q with
  | call q =>
    obtain ⟨-, rfl⟩ := hans
    exact hI
  | submit task =>
    obtain ⟨-, rfl⟩ := hans
    intro i hi
    rw [List.length_append, List.length_singleton]
    rcases List.mem_append.mp hi with hi | hi
    · exact (hI i hi).trans (Nat.lt_succ_self _)
    · rw [List.mem_singleton.mp hi]
      exact Nat.lt_succ_self _
  | wait pending =>
    obtain rfl := hans
    obtain ⟨rfl, -⟩ := hwait g pending hask
    intro i hi
    exact hI i (r.split.subset (List.mem_append_right _ hi))
  | shutdown =>
    obtain rfl := hans
    exact hI

/-- A task that has ended answers a wait for it. -/
def Completion.single (i : Nat) (others : List Nat) (a : ρ) : Completion (i :: others) ρ where
  done := [(i, a)]
  notDone := others
  done_ne_nil := List.cons_ne_nil _ _
  split := .refl _

/-- A process that is not over can go on. -/
theorem Process.Sound.moves (hV : V.Responsive left I) {x : Process P Q R T ρ α}
    (hx : x.Sound legal asks demands body main) (hp : ∃ post, wp (poolEnv legal asks) main post {})
    (hwait : WaitsOutstanding asks) (hkeep : x.Keeping V (fun _ => I) G s) :
    x.Over ∨ ∃ s' x', V.ProcessStep body s x s' x' := by
  by_cases hthreads : ∀ th ∈ x.threads, th.Over
  · -- only the program itself can be in progress
    cases hrest : x.rest with
    | ret a => exact .inl ⟨⟨a, hrest⟩, hthreads⟩
    | ask q k =>
      cases q with
      | call q =>
        rcases hV.moves s q _ (hkeep.call q k hrest) with ⟨s', p', hw⟩ | ⟨r, hr⟩
        · exact .inr ⟨_, _, .work hrest hw⟩
        · exact .inr ⟨_, _, .reply hrest hr⟩
      | submit task => exact .inr ⟨_, _, .submit hrest⟩
      | shutdown => exact .inr ⟨_, _, .shutdown hrest hthreads⟩
      | wait pending =>
        have hlt := hx.outstanding_lt hp hwait
        obtain ⟨post, hwp⟩ := hp
        have hmain := hx.main
        rw [hrest] at hmain
        obtain ⟨hout, hne⟩ := hwait _ _ (hmain.asks hwp)
        cases pending with
        | nil => exact absurd rfl hne
        | cons i others =>
          have hi : i < x.threads.length := by
            rw [hx.threads_length]
            exact hlt i (hout ▸ List.mem_cons_self)
          obtain ⟨a, ha⟩ := hthreads _ (List.getElem_mem hi)
          have hdone : ∀ p ∈ (Completion.single i others a).done,
              (x.threads[p.1]?).map Thread.rest = some (.ret p.2) := by
            intro p hp
            rw [List.mem_singleton.mp hp, List.getElem?_eq_getElem hi, Option.map_some, ha]
          exact .inr ⟨_, _, .wait hrest _ hdone⟩
  · obtain ⟨th, hth, hover⟩ : ∃ th ∈ x.threads, ¬th.Over := by
      simpa only [not_forall, exists_prop] using hthreads
    obtain ⟨i, hi, rfl⟩ := List.getElem_of_mem hth
    rcases (hkeep.threads _ hth).moves hV with h | ⟨s', th', hs⟩
    · exact absurd h hover
    · exact .inr ⟨_, _, .thread i (List.getElem?_eq_getElem hi) hs⟩

/-- A job goes on until all of its processes are over. -/
theorem JobSound.moves {asks : β → PoolState Q R T ρ → PoolQuery Q T → Prop}
    {main : β → PoolProg Q R T ρ α} {parts : List β} {xs : List (Process P Q R T ρ α)}
    (hV : V.Responsive left I)
    (hp : ∀ b ∈ parts, Proper legal (asks b) demands body (main b))
    (hwait : ∀ b ∈ parts, WaitsOutstanding (asks b))
    (h : JobSound legal asks demands body main V K (fun _ => I) G parts s xs) :
    (∀ x ∈ xs, x.Over) ∨ ∃ b, V.JobMove body (s, xs) b := by
  by_cases hover : ∀ x ∈ xs, x.Over
  · exact .inl hover
  · obtain ⟨x, hx, hnot⟩ : ∃ x ∈ xs, ¬x.Over := by
      simpa only [not_forall, exists_prop] using hover
    obtain ⟨i, hi, rfl⟩ := List.getElem_of_mem hx
    have hi' : i < parts.length := h.sound.length_eq ▸ hi
    have hmem := List.getElem_mem hi'
    rcases (h.sound.get hi' hi).moves hV (hp _ hmem).main (hwait _ hmem) (h.keeping _ hx)
      with hdone | ⟨s', x', hs⟩
    · exact absurd hdone hnot
    · exact .inr ⟨_, .step i (List.getElem?_eq_getElem hi) hs⟩

end Moves

section Joins

/-- The pool as seen by one who asks only whether a task may still be running. -/
def joinEnv : Env Bool (PoolQuery Q T) (PoolQuery.Reply R ρ) where
  answers joined q _ joined' := match q with
    | .submit _ => joined' = false
    | .shutdown => joined' = true
    | _ => joined' = joined

/-- The program shuts its pool down, on every path, after the last task that it submits. -/
def Joins (main : PoolProg Q R T ρ α) : Prop := wp joinEnv main (fun _ joined => joined = true) true

/-- The rest of a process joins its tasks, unless they are over. -/
def Process.Joining (x : Process P Q R T ρ α) : Prop :=
  ∃ joined, wp joinEnv x.rest (fun _ joined => joined = true) joined ∧
    (joined = true → ∀ th ∈ x.threads, th.Over)

variable {V : Server S P Q R} {body : T → Prog Q R ρ} {s s' : S} {x x' : Process P Q R T ρ α}

theorem Process.Joining.start {main : PoolProg Q R T ρ α} (h : Joins main) :
    Process.Joining ({ rest := main } : Process P Q R T ρ α) :=
  ⟨true, h, fun _ _ hth => absurd hth List.not_mem_nil⟩

theorem Process.Joining.step (hx : x.Joining) (hs : V.ProcessStep body s x s' x') :
    x'.Joining := by
  obtain ⟨joined, hwp, hover⟩ := hx
  cases hs with
  | work hr hw => exact ⟨joined, hwp, hover⟩
  | reply hr h =>
    rw [hr] at hwp
    exact ⟨joined, hwp.2 _ _ rfl, hover⟩
  | submit hr =>
    rw [hr] at hwp
    exact ⟨false, hwp.2 _ _ rfl, fun h => absurd h Bool.false_ne_true⟩
  | wait hr c hc =>
    rw [hr] at hwp
    exact ⟨joined, hwp.2 _ _ rfl, hover⟩
  | shutdown hr hdone =>
    rw [hr] at hwp
    exact ⟨true, hwp.2 _ _ rfl, fun _ => hdone⟩
  | thread i hi h =>
    refine ⟨joined, hwp, fun hj => ?_⟩
    obtain ⟨a, ha⟩ := hover hj _ (List.mem_of_getElem? hi)
    cases h with
    | work => cases ha
    | reply => cases ha

theorem Process.Joining.over (hx : x.Joining) (hr : x.rest = .ret a) : x.Over := by
  obtain ⟨joined, hwp, hover⟩ := hx
  rw [hr] at hwp
  exact ⟨⟨a, hr⟩, hover hwp⟩

/-- A process that is over does nothing more. -/
theorem Process.Over.still (hx : x.Over) : ¬V.ProcessStep body s x s' x' := by
  intro hs
  obtain ⟨⟨a, ha⟩, hthreads⟩ := hx
  cases hs with
  | work hr | reply hr | submit hr | wait hr | shutdown hr =>
    rw [ha] at hr
    cases hr
  | thread i hi h =>
    obtain ⟨b, hb⟩ := hthreads _ (List.mem_of_getElem? hi)
    cases h with
    | work => cases hb
    | reply => cases hb

theorem Server.JobStep.joining {mains : List (PoolProg Q R T ρ α)}
    {xs xs' : List (Process P Q R T ρ α)} (hj : ∀ main ∈ mains, Joins main)
    (hs : V.JobStep body mains s xs s' xs') (h : ∀ x ∈ xs, x.Joining) : ∀ x ∈ xs', x.Joining := by
  intro y hy
  cases hs with
  | step i hi hs =>
    rcases List.mem_or_eq_of_mem_set hy with hold | rfl
    · exact h y hold
    · exact (h _ (List.mem_of_getElem? hi)).step hs
  | restart i hi hm =>
    rcases List.mem_or_eq_of_mem_set hy with hold | rfl
    · exact h y hold
    · exact .start (hj _ (List.mem_of_getElem? hm))

theorem Server.Job.joining {mains : List (PoolProg Q R T ρ α)} {xs : List (Process P Q R T ρ α)}
    (hj : ∀ main ∈ mains, Joins main) (h : V.Job body mains s s' xs) : ∀ x ∈ xs, x.Joining := by
  suffices ∀ a b : S × List (Process P Q R T ρ α), (∀ x ∈ a.2, x.Joining) →
      Relation.ReflTransGen (fun a b => V.JobStep body mains a.1 a.2 b.1 b.2) a b →
      ∀ x ∈ b.2, x.Joining by
    apply this _ _ _ h
    intro x hx
    obtain ⟨main, hmain, rfl⟩ := List.mem_map.mp hx
    exact .start (hj main hmain)
  intro a b ha hab
  induction hab with
  | refl => exact ha
  | tail _ hstep ih => exact hstep.joining hj ih

end Joins

end Interaction
