import EsConnector.Job

namespace Interaction
set_option autoImplicit true

variable {S P Q T ρ α β : Type} {R : Q → Type}

/-- A server that replies at once, and always the same to a call. -/
def instantServer (answer : (q : Q) → R q) : Server Unit Unit Q R where
  fresh _ := ()
  work _ _ _ _ _ := False
  reply _ q _ r := r = answer q

/-- A part of a run of a process beside its server. -/
def Server.Goes (V : Server S P Q R) (body : T → Prog Q R ρ) (s : S) (x : Process P Q R T ρ α)
    (s' : S) (x' : Process P Q R T ρ α) : Prop :=
  Relation.ReflTransGen
    (fun a b : S × Process P Q R T ρ α => V.ProcessStep body a.1 a.2 b.1 b.2) (s, x) (s', x')

theorem Server.Goes.step {V : Server S P Q R} {body : T → Prog Q R ρ}
    {x x' x'' : Process P Q R T ρ α} (hs : V.ProcessStep body s x s' x')
    (h : V.Goes body s' x' s'' x'') : V.Goes body s x s'' x'' :=
  .head hs h

theorem Server.Goes.trans {V : Server S P Q R} {body : T → Prog Q R ρ}
    {x x' x'' : Process P Q R T ρ α} (h : V.Goes body s x s' x')
    (h' : V.Goes body s' x' s'' x'') : V.Goes body s x s'' x'' :=
  Relation.ReflTransGen.trans h h'

/-- What a thread does on its own it does in its process. -/
theorem Server.Steps.goes {V : Server S P Q R} {body : T → Prog Q R ρ}
    {x : Process P Q R T ρ α} {th th' : Thread P Q R ρ} (h : V.Steps s th s' th')
    (hi : x.threads[i]? = some th) :
    V.Goes body s x s' { x with threads := x.threads.set i th' } := by
  suffices ∀ a b : S × Thread P Q R ρ, ∀ x : Process P Q R T ρ α, x.threads[i]? = some a.2 →
      Relation.ReflTransGen (fun a b => V.Step a.1 a.2 b.1 b.2) a b →
      V.Goes body a.1 x b.1 { x with threads := x.threads.set i b.2 } from
    this (s, th) (s', th') x hi h
  intro a b x ha hab
  induction hab using Relation.ReflTransGen.head_induction_on generalizing x with
  | refl =>
    obtain ⟨hlt, he⟩ := List.getElem?_eq_some_iff.mp ha
    rw [← he, List.set_getElem_self]
    exact .refl
  | @head a c hstep _ ih =>
    have hlt := (List.getElem?_eq_some_iff.mp ha).1
    have hrest := ih { x with threads := x.threads.set i c.2 } (List.getElem?_set_self hlt)
    dsimp only at hrest
    rw [List.set_set] at hrest
    exact .step (.thread i ha hstep) hrest

theorem instant_ends (answer : (q : Q) → R q) (p : Prog Q R α) (log : List (Call Q R)) :
    ∃ a log', (instantServer answer).Steps () ⟨p, none, log⟩ () ⟨.ret a, none, log'⟩ := by
  induction p generalizing log with
  | ret a => exact ⟨a, log, .refl _ _ _⟩
  | ask q k ih =>
    obtain ⟨a, log', hsteps⟩ := ih (answer q) (log ++ [⟨q, answer q⟩])
    exact ⟨a, log', .head (.reply rfl) hsteps⟩

/-- Every submitted task has a thread, and all threads have come to their ends. -/
structure Process.Idle (x : Process P Q R T ρ α) : Prop where
  length : x.threads.length = x.submitted.length
  ended : ∀ th ∈ x.threads, ∃ a, th.rest = .ret a

theorem Process.Idle.result {x : Process P Q R T ρ α} (h : x.Idle)
    (hi : i < x.submitted.length) : ∃ a, (x.threads[i]?).map Thread.rest = some (.ret a) := by
  have hlt : i < x.threads.length := h.length ▸ hi
  obtain ⟨a, ha⟩ := h.ended _ (List.getElem_mem hlt)
  exact ⟨a, by rw [List.getElem?_eq_getElem hlt, Option.map_some, ha]⟩

/-- Finished tasks can all be reported as done at once. -/
theorem Process.Idle.exists_completion {x : Process P Q R T ρ α} (h : x.Idle)
    (hne : pending ≠ []) (hlt : ∀ i ∈ pending, i < x.submitted.length) :
    ∃ c : Completion pending ρ,
      ∀ p ∈ c.done, (x.threads[p.1]?).map Thread.rest = some (.ret p.2) := by
  have hresult (i : {i // i ∈ pending}) : ∃ a, (x.threads[i.1]?).map Thread.rest =
      some (.ret a) := h.result (hlt i.1 i.2)
  choose f hf using hresult
  refine ⟨⟨pending.attach.map fun i => (i.1, f i), [], by simpa using hne, by simp⟩, ?_⟩
  intro p hp
  obtain ⟨i, -, rfl⟩ := List.mem_map.mp hp
  exact hf i

section Runs

variable {answer : (q : Q) → R q} {legal : (q : Q) → R q → Prop}
  {asks : PoolState Q R T ρ → PoolQuery Q T → Prop} {I : PoolState Q R T ρ → Prop}
  {body : T → Prog Q R ρ} {K : β → PoolProg Q R T ρ α}

/-- Beside a server that replies at once a proved program gets through its first part. `I` is the
invariant that bounds the futures it waits for. -/
theorem instant_goes (hlegal : ∀ q, legal q (answer q))
    (hI : ∀ g q r g', I g → asks g q → (poolEnv legal asks).answers g q r g' → I g')
    (hwait : ∀ g pending, I g → asks g (.wait pending) →
      pending ≠ [] ∧ ∀ i ∈ pending, i < g.submitted.length)
    (p : PoolProg Q R T ρ β) {post : β → PoolState Q R T ρ → Prop}
    {x : Process Unit Q R T ρ α} (hx : x.rest = p >>= K) (hidle : x.Idle)
    (hinv : I x.toPoolState) (hp : wp (poolEnv legal asks) p post x.toPoolState) :
    ∃ x' b, (instantServer answer).Goes body () x () x' ∧ x'.rest = K b ∧ x'.Idle ∧
      post b x'.toPoolState := by
  induction p generalizing x with
  | ret b => exact ⟨x, b, .refl, hx, hidle, hp⟩
  | ask q k ih =>
    obtain ⟨hask, hnext⟩ := hp
    cases q with
    | call q =>
      have hans : (poolEnv legal asks).answers x.toPoolState (.call q) (answer q)
          { x.toPoolState with log := x.log ++ [⟨q, answer q⟩] } := ⟨hlegal q, rfl⟩
      obtain ⟨x', b, hgoes, hend⟩ := ih (answer q)
        (x := { x with log := x.log ++ [⟨q, answer q⟩], rest := k (answer q) >>= K,
                       progress := none })
        rfl ⟨hidle.length, hidle.ended⟩ (hI _ _ _ _ hinv hask hans) (hnext _ _ hans)
      exact ⟨x', b, .step (.reply hx rfl) hgoes, hend⟩
    | submit task =>
      obtain ⟨a, log', hsteps⟩ := instant_ends answer (body task) []
      let g : PoolState Q R T ρ :=
        { x.toPoolState with
          submitted := x.submitted ++ [task]
          outstanding := x.outstanding ++ [x.submitted.length] }
      have hans : (poolEnv legal asks).answers x.toPoolState (.submit task) x.submitted.length g :=
        ⟨rfl, rfl⟩
      let x₁ : Process Unit Q R T ρ α :=
        { g with
          rest := k x.submitted.length >>= K
          threads := x.threads ++ [{ rest := body task }] }
      have hth : x₁.threads[x.threads.length]? = some { rest := body task } := by simp [x₁]
      -- the new thread runs to its end before the program goes on
      have hthread := (Server.Goes.step (.submit hx) (.refl)).trans (hsteps.goes hth)
      have hset : x₁.threads.set x.threads.length ⟨.ret a, none, log'⟩ =
          x.threads ++ [⟨.ret a, none, log'⟩] := by simp [x₁]
      rw [hset] at hthread
      have hidle₁ : Process.Idle { x₁ with threads := x.threads ++ [⟨.ret a, none, log'⟩] } := by
        refine ⟨by simp [x₁, g, hidle.length], ?_⟩
        intro th hmem
        rcases List.mem_append.mp hmem with hmem | hmem
        · exact hidle.ended th hmem
        · rw [List.mem_singleton.mp hmem]
          exact ⟨a, rfl⟩
      obtain ⟨x', b, hgoes, hend⟩ := ih x.submitted.length
        (x := { x₁ with threads := x.threads ++ [⟨.ret a, none, log'⟩] })
        rfl hidle₁ (hI _ _ _ _ hinv hask hans) (hnext _ _ hans)
      exact ⟨x', b, hthread.trans hgoes, hend⟩
    | wait pending =>
      obtain ⟨hne, hlt⟩ := hwait _ _ hinv hask
      obtain ⟨c, hc⟩ := hidle.exists_completion hne hlt
      have hans : (poolEnv legal asks).answers x.toPoolState (.wait pending) c
          { x.toPoolState with outstanding := c.notDone, returned := x.returned ++ c.done } := rfl
      obtain ⟨x', b, hgoes, hend⟩ := ih c
        (x := { x with outstanding := c.notDone, returned := x.returned ++ c.done,
                       rest := k c >>= K, progress := none })
        rfl ⟨hidle.length, hidle.ended⟩ (hI _ _ _ _ hinv hask hans) (hnext _ _ hans)
      exact ⟨x', b, .step (.wait hx c hc) hgoes, hend⟩
    | shutdown =>
      have hans : (poolEnv legal asks).answers x.toPoolState .shutdown () x.toPoolState := rfl
      obtain ⟨x', b, hgoes, hend⟩ := ih () (x := { x with rest := k () >>= K, progress := none })
        rfl ⟨hidle.length, hidle.ended⟩ hinv (hnext _ _ hans)
      exact ⟨x', b, .step (.shutdown hx hidle.ended) hgoes, hend⟩

end Runs

end Interaction
