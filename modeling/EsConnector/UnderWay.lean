import Mathlib.Algebra.BigOperators.Group.List.Basic
import Mathlib.Algebra.GroupWithZero.Nat
import EsConnector.Job

namespace Interaction
set_option autoImplicit true

variable {S P Q T ρ α β γ : Type} {R : Q → Type}

/-- The query that a program waits for. -/
def Prog.asked : Prog Q R α → Option Q
  | .ret _ => none
  | .ask q _ => some q

/-- The call of its own that a process waits for. -/
def Process.ownCall (x : Process P Q R T ρ α) : List Q :=
  match x.rest with
  | .ask (.call q) _ => [q]
  | _ => []

def Process.threadCalls (x : Process P Q R T ρ α) : List Q :=
  x.threads.filterMap fun th => th.rest.asked

/-- The calls that a process has under way: its own and those of its threads. -/
def Process.underWay (x : Process P Q R T ρ α) : List Q := x.ownCall ++ x.threadCalls

/-- All that a thread has asked: its finished calls and the one under way. -/
def Thread.queries (th : Thread P Q R α) : List Q := th.log.map Sigma.fst ++ th.rest.asked.toList

/-- All that a process and its threads have asked. -/
def Process.queries (x : Process P Q R T ρ α) : List Q := x.calls.map Sigma.fst ++ x.underWay

theorem Process.sum_queries (x : Process P Q R T ρ α) (w : Q → Nat) :
    (x.queries.map w).sum = ((x.log.map Sigma.fst ++ x.ownCall).map w).sum +
      (x.threads.map fun th => (th.queries.map w).sum).sum := by
  have hthreads : (((x.threads.map Thread.log).flatten.map Sigma.fst).map w).sum +
      (x.threadCalls.map w).sum = (x.threads.map fun th => (th.queries.map w).sum).sum := by
    rw [threadCalls]
    induction x.threads with
    | nil => rfl
    | cons th ths ih =>
      rw [List.filterMap_cons, List.map_cons, List.map_cons, List.sum_cons, ← ih, Thread.queries]
      cases th.rest.asked
      all_goals
        simp only [Option.toList, List.flatten_cons, List.map_append, List.sum_append,
          List.map_cons, List.sum_cons, List.map_nil, List.sum_nil]
        omega
  rw [← hthreads, queries, calls, underWay]
  simp only [List.map_append, List.sum_append]
  omega

theorem Process.ownCall_length (x : Process P Q R T ρ α) : x.ownCall.length ≤ 1 := by
  rw [ownCall]
  split
  · exact Nat.le_refl 1
  · exact Nat.zero_le _

theorem Process.mem_ownCall {x : Process P Q R T ρ α} :
    q ∈ x.ownCall ↔ ∃ k, x.rest = .ask (.call q) k := by
  rw [ownCall]
  split
  · next q' k hr =>
    constructor
    · intro h
      obtain rfl := List.mem_singleton.mp h
      exact ⟨k, hr⟩
    · rintro ⟨k', hk⟩
      cases hr.symm.trans hk
      exact List.mem_cons_self
  · next hno =>
    constructor
    · exact fun h => absurd h List.not_mem_nil
    · rintro ⟨k, hk⟩
      exact absurd hk (hno q k)

theorem Prog.asked_eq_some {p : Prog Q R α} : p.asked = some q ↔ ∃ k, p = .ask q k := by
  cases p with
  | ret a => simp [asked]
  | ask q' k =>
    constructor
    · intro h
      cases h
      exact ⟨k, rfl⟩
    · rintro ⟨k', he⟩
      cases he
      rfl

/-- What an environment allows to happen, a more liberal one allows as well. -/
theorem Env.Reach.mono {E E' : Env S Q R} (h : E.Reach s p t p')
    (hE : ∀ s q r s', E.answers s q r s' → E'.answers s q r s') : E'.Reach s p t p' := by
  induction h with
  | refl => exact .refl ..
  | step ha _ ih => exact .step (hE _ _ _ _ ha) ih

/-- A task keeps to what is proved of its program, whatever is demanded of the other tasks. -/
theorem Thread.Sound.asked {legal : (q : Q) → R q → Prop} {demands demands' : Q → Prop}
    {p : Prog Q R α} {th : Thread P Q R α} (h : th.Sound legal demands p)
    (hp : wp (callEnv legal demands') p post []) (hq : th.rest.asked = some q) : demands' q := by
  obtain ⟨k, hk⟩ := Prog.asked_eq_some.mp hq
  have hsound : th.Sound legal demands' p := Env.Reach.mono h fun _ _ _ _ ha => ha
  exact hsound.asks_only hp q k hk

section Idle

variable {legal : (q : Q) → R q → Prop} {demands : Q → Prop}
  {asks asks' : PoolState Q R T ρ → PoolQuery Q T → Prop} {body : T → Prog Q R ρ}
  {main : PoolProg Q R T ρ α} {post : α → PoolState Q R T ρ → Prop} {x : Process P Q R T ρ α}

theorem Process.Sound.main_mono (hx : x.Sound legal asks demands body main) :
    (poolEnv legal asks').Reach {} main x.toPoolState x.rest :=
  hx.main.mono fun _ _ _ _ ha => ha

theorem Process.Sound.threads_eq_nil (hx : x.Sound legal asks demands body main)
    (hwp : wp (poolEnv legal asks') main post {}) (hno : ∀ g task, ¬asks' g (.submit task)) :
    x.threads = [] := by
  have hmain : (poolEnv legal asks').Reach {} main x.toPoolState x.rest := hx.main_mono
  have hsubmitted : x.submitted = [] := by
    apply hmain.invariant (I := fun g => g.submitted = []) hwp rfl
    intro g q r g' hI hask hans
    cases q with
    | call q =>
      obtain ⟨-, rfl⟩ := hans
      exact hI
    | submit task => exact absurd hask (hno g task)
    | wait pending =>
      obtain rfl := hans
      exact hI
    | shutdown =>
      obtain rfl := hans
      exact hI
  exact List.length_eq_zero_iff.mp (hx.threads_length.trans (congrArg List.length hsubmitted))

theorem Process.Sound.own_eq_nil (hx : x.Sound legal asks demands body main)
    (hwp : wp (poolEnv legal asks') main post {}) (hno : ∀ g q, ¬asks' g (.call q)) :
    x.log = [] ∧ x.ownCall = [] := by
  have hmain : (poolEnv legal asks').Reach {} main x.toPoolState x.rest := hx.main_mono
  constructor
  · apply hmain.invariant (I := fun g => g.log = []) hwp rfl
    intro g q r g' hI hask hans
    cases q with
    | call q => exact absurd hask (hno g q)
    | submit task =>
      obtain ⟨-, rfl⟩ := hans
      exact hI
    | wait pending =>
      obtain rfl := hans
      exact hI
    | shutdown =>
      obtain rfl := hans
      exact hI
  · rw [List.eq_nil_iff_forall_not_mem]
    intro q hq
    obtain ⟨k, hk⟩ := Process.mem_ownCall.mp hq
    rw [hk] at hmain
    exact hno _ q (hmain.asks hwp)

end Idle

section Meter

variable {legal : (q : Q) → R q → Prop} {demands : Q → Prop} {fits : List Q → Prop}
  {log : List (Call Q R)}

/-- The environment that keeps a log of the calls and lets a program ask no more than fits. -/
def meterEnv (legal : (q : Q) → R q → Prop) (fits : List Q → Prop) : Env (List (Call Q R)) Q R where
  asks log q := fits (log.map Sigma.fst ++ [q])
  answers log q r log' := legal q r ∧ log' = log ++ [⟨q, r⟩]

/-- A program with a pool asks nothing but calls, and no more of them than fits. -/
def meterAsks (fits : List Q → Prop) (g : PoolState Q R T ρ) : PoolQuery Q T → Prop
  | .call q => fits (g.log.map Sigma.fst ++ [q])
  | _ => False

/-- Where all that a program asks until its end fits, what it asks until any point fits. -/
theorem wp_meter (hlegal : ∀ q, ∃ r, legal q r) (hfits : ∀ l l', l <+: l' → fits l' → fits l)
    {p : Prog Q R α} {post : α → List (Call Q R) → Prop}
    (h : wp (callEnv legal fun _ => True) p post log)
    (hpost : ∀ a log', post a log' → fits (log'.map Sigma.fst)) :
    wp (meterEnv legal fits) p post log := by
  induction p generalizing log with
  | ret a => exact h
  | ask q k ih =>
    refine ⟨?_, fun r log' hr => ih r (h.2 r log' hr)⟩
    have hanswers (log : List (Call Q R)) (q : Q) :
        ∃ r log', (callEnv legal fun _ => True).answers log q r log' := by
      obtain ⟨r, hr⟩ := hlegal q
      exact ⟨r, _, hr, rfl⟩
    obtain ⟨r, hr⟩ := hlegal q
    -- the run goes on to its end in some way
    obtain ⟨log', a, hrun⟩ := exists_completion hanswers (k r) (log ++ [⟨q, r⟩])
    have hgrows := (Env.Reach.grows hrun).map Sigma.fst
    rw [List.map_append] at hgrows
    exact hfits _ _ hgrows (hpost a log' (hrun.ensures (h.2 r _ ⟨hr, rfl⟩)))

theorem serves_meter (legal : (q : Q) → R q → Prop) (fits : List Q → Prop) :
    Serves (meterEnv legal fits) (poolEnv legal (meterAsks fits)) PoolQuery.call (fun _ r => r)
      (fun g : PoolState Q R T ρ => g.log) (fun g log => { g with log }) where
  asks _ _ h := h
  answers _ _ _ _ h := ⟨⟨h.1, by rw [h.2]⟩, by rw [h.2]⟩
  put_put _ _ _ := rfl
  put_view _ := rfl

theorem Thread.Sound.metered {p : Prog Q R α} {th : Thread P Q R α} (h : th.Sound legal demands p)
    (hp : wp (meterEnv legal fits) p (fun _ log => fits (log.map Sigma.fst)) []) :
    fits th.queries := by
  have hreach : (meterEnv legal fits).Reach [] p th.log th.rest :=
    Env.Reach.mono h fun _ _ _ _ ha => ha
  rw [Thread.queries]
  cases hr : th.rest with
  | ret a =>
    rw [hr] at hreach
    rw [Prog.asked, Option.toList_none, List.append_nil]
    exact Env.Run.ensures hreach hp
  | ask q k =>
    rw [hr] at hreach
    exact hreach.asks hp

theorem Process.Sound.metered {asks : PoolState Q R T ρ → PoolQuery Q T → Prop}
    {body : T → Prog Q R ρ} {main : PoolProg Q R T ρ α} {x : Process P Q R T ρ α}
    (h : x.Sound legal asks demands body main)
    (hp : wp (poolEnv legal (meterAsks fits)) main (fun _ g => fits (g.log.map Sigma.fst)) {}) :
    fits (x.log.map Sigma.fst ++ x.ownCall) := by
  have hreach : (poolEnv legal (meterAsks fits)).Reach {} main x.toPoolState x.rest := h.main_mono
  cases hr : x.rest with
  | ret a =>
    rw [hr] at hreach
    rw [ownCall, hr]
    simpa using Env.Run.ensures hreach hp
  | ask q k =>
    rw [hr] at hreach
    have hasks := hreach.asks hp
    cases q with
    | call q =>
      rw [ownCall, hr]
      exact hasks
    | submit task => exact hasks.elim
    | wait pending => exact hasks.elim
    | shutdown => exact hasks.elim

end Meter

/-- The threads of a process run its tasks. -/
theorem Process.Sound.runs {legal : (q : Q) → R q → Prop} {demands : Q → Prop}
    {asks : PoolState Q R T ρ → PoolQuery Q T → Prop} {body : T → Prog Q R ρ}
    {main : PoolProg Q R T ρ α} {x : Process P Q R T ρ α}
    (h : x.Sound legal asks demands body main) :
    List.Forall₂ (fun task th => Thread.Sound legal demands (body task) th) x.submitted x.threads := by
  rw [List.forall₂_iff_get]
  refine ⟨h.threads_length.symm, ?_⟩
  intro i hi hi'
  exact h.threads i _ _ (List.getElem?_eq_getElem hi') (List.getElem?_eq_getElem hi)

theorem filterMap_eq_range (l : List β) (f : β → Option γ) :
    l.filterMap f = (List.range l.length).filterMap fun i => l[i]?.bind f := by
  have hl : l.map some = (List.range l.length).map fun i => l[i]? := by
    apply List.ext_getElem
    · simp
    · intro i hi hi'
      rw [List.length_map] at hi
      simp [List.getElem?_eq_getElem hi]
  calc l.filterMap f = (l.map some).filterMap fun o => o.bind f := by
        rw [List.filterMap_map]
        rfl
    _ = _ := by
        rw [hl, List.filterMap_map]
        rfl

theorem Process.Sound.threadCalls_length {legal : (q : Q) → R q → Prop} {demands : Q → Prop}
    {asks : PoolState Q R T ρ → PoolQuery Q T → Prop} {body : T → Prog Q R ρ}
    {main : PoolProg Q R T ρ α} {x : Process P Q R T ρ α}
    (hx : x.Sound legal asks demands body main)
    (hfutures : (x.returned.map Prod.fst ++ x.outstanding).Perm (List.range x.submitted.length)) :
    x.threadCalls.length ≤ x.outstanding.length := by
  let f : Nat → Option Q := fun i => x.threads[i]?.bind fun th => th.rest.asked
  -- the threads of the futures that have come back are at their end
  have hdone : (x.returned.map Prod.fst).filterMap f = [] := by
    rw [List.filterMap_eq_nil_iff]
    intro i hi
    obtain ⟨p, hp, rfl⟩ := List.mem_map.mp hi
    obtain ⟨th, hth, hr⟩ := Option.map_eq_some_iff.mp (hx.returned p hp)
    simp only [f, hth, Option.bind_some, hr]
    rfl
  have hperm := hfutures.filterMap f
  rw [List.filterMap_append, hdone, List.nil_append, ← hx.threads_length] at hperm
  calc x.threadCalls.length = (x.outstanding.filterMap f).length := by
        rw [threadCalls, filterMap_eq_range]
        exact hperm.length_eq.symm
    _ ≤ x.outstanding.length := List.length_filterMap_le ..

theorem forall₂_flatMap_sublist {f : β → Option γ} {g : γ → List ι} {l : List β}
    {ls : List (List ι)} (h : List.Forall₂ (fun b l => ∀ c, f b = some c → (g c).Sublist l) l ls) :
    ((l.filterMap f).flatMap g).Sublist ls.flatten := by
  induction h with
  | nil => exact .refl _
  | @cons b l bs ls hb _ ih =>
    rw [List.filterMap_cons, List.flatten_cons]
    cases hf : f b with
    | none => exact ih.trans (List.sublist_append_right ..)
    | some c =>
      rw [List.flatMap_cons]
      exact (hb c hf).append ih

end Interaction
