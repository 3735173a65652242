import EsConnector.Interaction

namespace Interaction
set_option autoImplicit true

/-- What waiting for the first completion gives back: at least one finished task with its result,
and the tasks that are still outstanding. -/
structure Completion (pending : List Nat) (ρ : Type) where
  done : List (Nat × ρ)
  notDone : List Nat
  done_ne_nil : done ≠ []
  split : (done.map Prod.fst ++ notDone).Perm pending

/-- What a program with a pool asks of the outside: a call of its own, or a service of the pool. -/
inductive PoolQuery (Q T : Type) where
  | call (q : Q)
  | submit (task : T)
  | wait (pending : List Nat)
  | shutdown

@[reducible] def PoolQuery.Reply (R : Q → Type) (ρ : Type) : PoolQuery Q T → Type
  | .call q => R q
  | .submit _ => Nat
  | .wait pending => Completion pending ρ
  | .shutdown => Unit

abbrev PoolProg (Q : Type) (R : Q → Type) (T ρ α : Type) : Type :=
  Prog (PoolQuery Q T) (PoolQuery.Reply R ρ) α

/-- What a program with a pool has done so far. -/
structure PoolState (Q : Type) (R : Q → Type) (T ρ : Type) where
  log : List (Call Q R) := []
  submitted : List T := []
  outstanding : List Nat := []
  returned : List (Nat × ρ) := []

variable {S P Q T ρ α : Type} {R : Q → Type}

/-- The pool as the program sees it: tasks come back in any order and in any groups. -/
def poolEnv (legal : (q : Q) → R q → Prop) (asks : PoolState Q R T ρ → PoolQuery Q T → Prop) :
    Env (PoolState Q R T ρ) (PoolQuery Q T) (PoolQuery.Reply R ρ) where
  asks := asks
  answers g q := match q with
    | .call q => fun r g' => legal q r ∧ g' = { g with log := g.log ++ [⟨q, r⟩] }
    | .submit task => fun future g' => future = g.submitted.length ∧
      g' = { g with
        submitted := g.submitted ++ [task]
        outstanding := g.outstanding ++ [g.submitted.length] }
    | .wait _ => fun c g' =>
      g' = { g with outstanding := c.notDone, returned := g.returned ++ c.done }
    | .shutdown => fun _ g' => g' = g

/-- A server works on a call in small steps, between the steps of the other callers, and replies
at some point. -/
structure Server (S P Q : Type) (R : Q → Type) where
  fresh : Q → P
  work : S → Q → P → S → P → Prop
  reply : S → (q : Q) → P → R q → Prop

/-- A program under execution, with the progress of the call it waits for and its finished
calls. -/
structure Thread (P Q : Type) (R : Q → Type) (α : Type) where
  rest : Prog Q R α
  progress : Option P := none
  log : List (Call Q R) := []

inductive Server.Step (V : Server S P Q R) : S → Thread P Q R α → S → Thread P Q R α → Prop where
  | work (h : V.work s q (p.getD (V.fresh q)) s' p') :
      V.Step s ⟨.ask q k, p, log⟩ s' ⟨.ask q k, some p', log⟩
  | reply (h : V.reply s q (p.getD (V.fresh q)) r) :
      V.Step s ⟨.ask q k, p, log⟩ s ⟨k r, none, log ++ [⟨q, r⟩]⟩

def Server.Steps (V : Server S P Q R) (s : S) (th : Thread P Q R α) (s' : S)
    (th' : Thread P Q R α) : Prop :=
  Relation.ReflTransGen (fun a b : S × Thread P Q R α => V.Step a.1 a.2 b.1 b.2) (s, th) (s', th')

theorem Server.Steps.refl (V : Server S P Q R) (s : S) (th : Thread P Q R α) : V.Steps s th s th :=
  Relation.ReflTransGen.refl

theorem Server.Steps.head {V : Server S P Q R} {th th' th'' : Thread P Q R α}
    (h : V.Step s th s' th') (hs : V.Steps s' th' s'' th'') : V.Steps s th s'' th'' :=
  Relation.ReflTransGen.head h hs

theorem Server.Steps.trans {V : Server S P Q R} {th th' th'' : Thread P Q R α}
    (h : V.Steps s th s' th') (hs : V.Steps s' th' s'' th'') : V.Steps s th s'' th'' :=
  Relation.ReflTransGen.trans h hs

/-- A run of a single program beside its server. -/
def Server.Solo (V : Server S P Q R) (p : Prog Q R α) (s s' : S) (th : Thread P Q R α) : Prop :=
  V.Steps s { rest := p } s' th

/-- A program with a pool and the threads of its tasks, one for each task it submitted. -/
structure Process (P Q : Type) (R : Q → Type) (T ρ α : Type) extends PoolState Q R T ρ where
  rest : PoolProg Q R T ρ α
  progress : Option P := none
  threads : List (Thread P Q R ρ) := []

inductive Server.ProcessStep (V : Server S P Q R) (body : T → Prog Q R ρ) :
    S → Process P Q R T ρ α → S → Process P Q R T ρ α → Prop where
  | work (hx : x.rest = .ask (.call q) k)
      (h : V.work s q (x.progress.getD (V.fresh q)) s' p') :
      V.ProcessStep body s x s' { x with progress := some p' }
  | reply (hx : x.rest = .ask (.call q) k)
      (h : V.reply s q (x.progress.getD (V.fresh q)) r) :
      V.ProcessStep body s x s
        { x with log := x.log ++ [⟨q, r⟩], rest := k r, progress := none }
  | submit (hx : x.rest = .ask (.submit task) k) :
      V.ProcessStep body s x s
        { x with
          submitted := x.submitted ++ [task]
          outstanding := x.outstanding ++ [x.submitted.length]
          rest := k x.submitted.length
          progress := none
          threads := x.threads ++ [{ rest := body task }] }
  | wait (hx : x.rest = .ask (.wait pending) k) (c : Completion pending ρ)
      (hc : ∀ p ∈ c.done, (x.threads[p.1]?).map Thread.rest = some (.ret p.2)) :
      V.ProcessStep body s x s
        { x with
          outstanding := c.notDone
          returned := x.returned ++ c.done
          rest := k c
          progress := none }
  | shutdown (hx : x.rest = .ask .shutdown k)
      (h : ∀ th ∈ x.threads, ∃ a, th.rest = .ret a) :
      V.ProcessStep body s x s { x with rest := k (), progress := none }
  | thread (i : Nat) (hi : x.threads[i]? = some th) (h : V.Step s th s' th') :
      V.ProcessStep body s x s' { x with threads := x.threads.set i th' }

/-- Results that came back once for each thread, in whatever order. -/
theorem perm_of_futures {l : List (Nat × ρ)} {ths : List β} {f : ρ → γ} {g : β → γ}
    (h : (l.map Prod.fst).Perm (List.range ths.length))
    (hf : ∀ p ∈ l, (ths[p.1]?).map g = some (f p.2)) :
    (l.map fun p => f p.2).Perm (ths.map g) := by
  have hl : (l.map Prod.fst).map (fun i => (ths[i]?).map g) = (l.map fun p => f p.2).map some := by
    rw [List.map_map, List.map_map]
    exact List.map_congr_left hf
  have hr : (List.range ths.length).map (fun i => (ths[i]?).map g) = (ths.map g).map some := by
    apply List.ext_getElem
    · simp
    · intro i hi hi'
      rw [List.length_map, List.length_range] at hi
      simp [List.getElem?_eq_getElem hi]
  have hp := (h.map fun i => (ths[i]?).map g).filterMap id
  rw [hl, hr] at hp
  simpa using hp

section Soundness

variable {legal : (q : Q) → R q → Prop} {demands : Q → Prop}
  {asks : PoolState Q R T ρ → PoolQuery Q T → Prop} {body : T → Prog Q R ρ}
  {main : PoolProg Q R T ρ α} {V : Server S P Q R}

/-- A run of a process beside its server, from the start of its program. -/
def Server.Run (V : Server S P Q R) (body : T → Prog Q R ρ) (main : PoolProg Q R T ρ α)
    (s s' : S) (x : Process P Q R T ρ α) : Prop :=
  Relation.ReflTransGen
    (fun a b : S × Process P Q R T ρ α => V.ProcessStep body a.1 a.2 b.1 b.2)
    (s, { rest := main }) (s', x)

theorem Server.Run.start (V : Server S P Q R) (body : T → Prog Q R ρ)
    (main : PoolProg Q R T ρ α) (s : S) : V.Run body main s s { rest := main } := .refl

theorem Server.Run.step {V : Server S P Q R} {body : T → Prog Q R ρ} {main : PoolProg Q R T ρ α}
    (h : V.Run body main s s' x) (hs : V.ProcessStep body s' x s'' x') :
    V.Run body main s s'' x' := h.tail hs

/-- The finished calls of a process and of its threads. -/
def Process.calls (x : Process P Q R T ρ α) : List (Call Q R) :=
  x.log ++ (x.threads.map Thread.log).flatten

/-- A thread has run as its program does on its own against legal replies. -/
def Thread.Sound (legal : (q : Q) → R q → Prop) (demands : Q → Prop) (p : Prog Q R α)
    (th : Thread P Q R α) : Prop :=
  (callEnv legal demands).Reach [] p th.log th.rest

theorem Thread.Sound.step (hV : ∀ s q p r, V.reply s q p r → legal q r)
    {th : Thread P Q R ρ} (hth : th.Sound legal demands p) (h : V.Step s th s' th') :
    th'.Sound legal demands p := by
  cases h with
  | work h => exact hth
  | reply h => exact hth.snoc ⟨hV _ _ _ _ h, rfl⟩

theorem Thread.Sound.steps (hV : ∀ s q p r, V.reply s q p r → legal q r)
    {th : Thread P Q R ρ} (hth : th.Sound legal demands p) (h : V.Steps s th s' th') :
    th'.Sound legal demands p := by
  suffices ∀ a b : S × Thread P Q R ρ, a.2.Sound legal demands p →
      Relation.ReflTransGen (fun a b => V.Step a.1 a.2 b.1 b.2) a b → b.2.Sound legal demands p from
    this (s, th) (s', th') hth h
  intro a b ha hab
  induction hab with
  | refl => exact ha
  | tail _ hstep ih => exact ih.step hV hstep

theorem Thread.Sound.solo (hV : ∀ s q p r, V.reply s q p r → legal q r)
    {th : Thread P Q R ρ} (h : V.Solo p s s' th) : th.Sound legal demands p := by
  have hstart : Thread.Sound legal demands p ({ rest := p } : Thread P Q R ρ) := .refl _ _
  exact hstart.steps hV h

theorem Thread.Sound.asks_only {th : Thread P Q R ρ} {post : ρ → List (Call Q R) → Prop}
    (h : th.Sound legal demands p) (hp : wp (callEnv legal demands) p post []) (q : Q)
    (k : R q → Prog Q R ρ) (hr : th.rest = .ask q k) : demands q := by
  rw [Thread.Sound, hr] at h
  exact h.asks hp

theorem Thread.Sound.replies {th : Thread P Q R ρ} (h : th.Sound legal demands p) :
    ∀ c ∈ th.log, legal c.1 c.2 :=
  Env.Reach.replies h fun _ hc => absurd hc List.not_mem_nil

/-- What every step with an allowed call keeps holds throughout the run of a proved program. -/
theorem Server.Steps.invariant {I : S → Thread P Q R ρ → Prop} {post : ρ → List (Call Q R) → Prop}
    (hV : ∀ s q p r, V.reply s q p r → legal q r) (hp : wp (callEnv legal demands) p post [])
    {th : Thread P Q R ρ} (hth : th.Sound legal demands p) (h : V.Steps s th s' th') (h₀ : I s th)
    (hstep : ∀ s th s' th', (∀ q k, th.rest = .ask q k → demands q) →
      (∀ q k, th'.rest = .ask q k → demands q) → I s th → V.Step s th s' th' → I s' th') :
    I s' th' := by
  suffices ∀ a b : S × Thread P Q R ρ, a.2.Sound legal demands p → I a.1 a.2 →
      Relation.ReflTransGen (fun a b => V.Step a.1 a.2 b.1 b.2) a b → I b.1 b.2 from
    this (s, th) (s', th') hth h₀ h
  intro a b ha hI hab
  induction hab with
  | refl => exact hI
  | tail hsteps hs ih =>
    have hsound := ha.steps hV hsteps
    exact hstep _ _ _ _ (hsound.asks_only hp) ((hsound.step hV hs).asks_only hp) ih hs

/-- What links a process to the runs its program and its tasks have on their own. -/
structure Process.Sound (legal : (q : Q) → R q → Prop)
    (asks : PoolState Q R T ρ → PoolQuery Q T → Prop) (demands : Q → Prop)
    (body : T → Prog Q R ρ) (main : PoolProg Q R T ρ α) (x : Process P Q R T ρ α) : Prop where
  main : (poolEnv legal asks).Reach {} main x.toPoolState x.rest
  threads_length : x.threads.length = x.submitted.length
  threads : ∀ (i : Nat) (th : Thread P Q R ρ) (task : T), x.threads[i]? = some th →
    x.submitted[i]? = some task → th.Sound legal demands (body task)
  returned : ∀ p ∈ x.returned, (x.threads[p.1]?).map Thread.rest = some (.ret p.2)

theorem Process.Sound.start :
    Process.Sound legal asks demands body main ({ rest := main } : Process P Q R T ρ α) where
  main := .refl ..
  threads_length := rfl
  threads i th task h := by simp at h
  returned p hp := absurd hp List.not_mem_nil

/-- Every interleaving of the program, its tasks and the server is, seen from the program and from
each task, a run of its own. -/
theorem Process.Sound.step (hV : ∀ s q p r, V.reply s q p r → legal q r)
    {x x' : Process P Q R T ρ α} (hx : x.Sound legal asks demands body main)
    (h : V.ProcessStep body s x s' x') : x'.Sound legal asks demands body main := by
  have hmain := hx.main
  cases h with
  | work hr h => exact ⟨hmain, hx.threads_length, hx.threads, hx.returned⟩
  | reply hr h =>
    rw [hr] at hmain
    exact ⟨hmain.snoc ⟨hV _ _ _ _ h, rfl⟩, hx.threads_length, hx.threads, hx.returned⟩
  | submit hr =>
    rw [hr] at hmain
    refine ⟨hmain.snoc ⟨rfl, rfl⟩, ?_, ?_, ?_⟩
    · simp [hx.threads_length]
    · intro i th task hi ht
      rcases Nat.lt_or_ge i x.threads.length with hlt | hge
      · rw [List.getElem?_append_left hlt] at hi
        rw [List.getElem?_append_left (hx.threads_length ▸ hlt)] at ht
        exact hx.threads i th task hi ht
      · rw [List.getElem?_append_right hge] at hi
        rw [List.getElem?_append_right (hx.threads_length ▸ hge), ← hx.threads_length] at ht
        cases hk : i - x.threads.length with
        | zero =>
          rw [hk] at hi ht
          cases hi
          cases ht
          exact .refl ..
        | succ n => simp [hk] at hi
    · intro p hp
      obtain ⟨th, hth, he⟩ := Option.map_eq_some_iff.mp (hx.returned p hp)
      have hlt := (List.getElem?_eq_some_iff.mp hth).1
      rw [List.getElem?_append_left hlt, hth]
      exact congrArg some he
  | wait hr c hc =>
    rw [hr] at hmain
    refine ⟨hmain.snoc rfl, hx.threads_length, hx.threads, ?_⟩
    intro p hp
    rcases List.mem_append.mp hp with hp | hp
    · exact hx.returned p hp
    · exact hc p hp
  | shutdown hr h =>
    rw [hr] at hmain
    exact ⟨hmain.snoc rfl, hx.threads_length, hx.threads, hx.returned⟩
  | thread i hi h =>
    refine ⟨hmain, by simp [hx.threads_length], ?_, ?_⟩
    · intro j th task hj ht
      rw [List.getElem?_set] at hj
      split at hj
      · next hij =>
        split at hj
        · cases hj
          exact (hx.threads i _ task hi (hij ▸ ht)).step hV h
        · cases hj
      · exact hx.threads j th task hj ht
    · intro p hp
      have hret := hx.returned p hp
      by_cases hij : i = p.1
      · subst hij
        rw [hi] at hret
        have hfin := Option.some_inj.mp hret
        cases h <;> simp at hfin
      · rw [List.getElem?_set_ne hij]
        exact hret

theorem Process.Sound.run (hV : ∀ s q p r, V.reply s q p r → legal q r)
    {x : Process P Q R T ρ α} (h : V.Run body main s s' x) :
    x.Sound legal asks demands body main := by
  suffices ∀ a b : S × Process P Q R T ρ α, a.2.Sound legal asks demands body main →
      Relation.ReflTransGen (fun a b => V.ProcessStep body a.1 a.2 b.1 b.2) a b →
      b.2.Sound legal asks demands body main from this _ _ .start h
  intro a b ha hab
  induction hab with
  | refl => exact ha
  | tail _ hstep ih => exact ih.step hV hstep

/-- A finished thread has run to the end. -/
theorem Process.Sound.finished {x : Process P Q R T ρ α}
    (hx : x.Sound legal asks demands body main) (hp : p ∈ x.returned) :
    ∃ th task, x.threads[p.1]? = some th ∧ x.submitted[p.1]? = some task ∧
      (callEnv legal demands).Run [] (body task) th.log p.2 := by
  obtain ⟨th, hth, he⟩ := Option.map_eq_some_iff.mp (hx.returned p hp)
  have hlt := (List.getElem?_eq_some_iff.mp hth).1
  have htask := List.getElem?_eq_getElem (hx.threads_length ▸ hlt)
  refine ⟨th, _, hth, htask, ?_⟩
  have hr := hx.threads p.1 th _ hth htask
  rw [Thread.Sound, he] at hr
  exact hr

end Soundness

end Interaction
