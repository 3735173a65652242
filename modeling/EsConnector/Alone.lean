import EsConnector.Pool

namespace Interaction
set_option autoImplicit true

variable {S P Q T ρ α : Type} {R : Q → Type}

/-- The work of a server on one call, with no other caller in between. -/
def Server.Works (V : Server S P Q R) (q : Q) (s : S) (p : P) (s' : S) (p' : P) : Prop :=
  Relation.ReflTransGen (fun a b : S × P => V.work a.1 q a.2 b.1 b.2) (s, p) (s', p')

/-- A server as its only caller sees it: a call is one step. -/
def Server.env (V : Server S P Q R) : Env S Q R where
  answers s q r s' := ∃ p, V.Works q s (V.fresh q) s' p ∧ V.reply s' q p r

/-- The environment of a program that has no use for its pool. -/
def Env.callsOnly (E : Env S Q R) : Env S (PoolQuery Q T) (PoolQuery.Reply R ρ) where
  asks s q := match q with
    | .call q => E.asks s q
    | _ => False
  answers s q := match q with
    | .call q => fun r s' => E.answers s q r s'
    | _ => fun _ _ => False

theorem serves_callsOnly (E : Env S Q R) :
    Serves E (E.callsOnly : Env S (PoolQuery Q T) (PoolQuery.Reply R ρ)) PoolQuery.call
      (fun _ r => r) id (fun _ s => s) where
  asks _ _ h := h
  answers _ _ _ _ h := ⟨h, rfl⟩
  put_put _ _ _ := rfl
  put_view _ := rfl

variable {V : Server S P Q R} {body : T → Prog Q R ρ} {main : PoolProg Q R T ρ α} {s₀ s s' : S}
  {x x' : Process P Q R T ρ α}

/-- The calls so far were steps of the server, and the call that is waited for is being worked on. -/
structure AloneSoFar (V : Server S P Q R) (main : PoolProg Q R T ρ α) (s₀ s : S)
    (x : Process P Q R T ρ α) (s₁ : S) : Prop where
  reach : V.env.callsOnly.Reach s₀ main s₁ x.rest
  threads : x.threads = []
  working : ∀ q k, x.rest = .ask (.call q) k →
    V.Works q s₁ (V.fresh q) s (x.progress.getD (V.fresh q))
  returned : ∀ a, x.rest = .ret a → s₁ = s

theorem AloneSoFar.step {post : α → S → Prop} (hp : wp V.env.callsOnly main post s₀)
    (h : AloneSoFar V main s₀ s x s₁) (hs : V.ProcessStep body s x s' x') :
    ∃ s₁', AloneSoFar V main s₀ s' x' s₁' := by
  have hreach := h.reach
  cases hs with
  | work hx hw =>
    refine ⟨s₁, hreach, h.threads, ?_, ?_⟩
    · intro q k hr
      rw [hx] at hr
      cases hr
      exact (h.working _ _ hx).tail hw
    · intro a ha
      rw [hx] at ha
      cases ha
  | reply hx hr =>
    rw [hx] at hreach
    exact ⟨s, hreach.snoc ⟨_, h.working _ _ hx, hr⟩, h.threads, fun _ _ _ => .refl, fun _ _ => rfl⟩
  | submit hx =>
    rw [hx] at hreach
    exact (hreach.asks hp).elim
  | wait hx =>
    rw [hx] at hreach
    exact (hreach.asks hp).elim
  | shutdown hx =>
    rw [hx] at hreach
    exact (hreach.asks hp).elim
  | thread i hi =>
    rw [h.threads] at hi
    cases hi

/-- What a program without a pool establishes against its server as an environment, it establishes
beside the server. -/
theorem Server.Run.ensures_alone {post : α → S → Prop} (hp : wp V.env.callsOnly main post s₀)
    (h : V.Run body main s₀ s x) (hx : x.rest = .ret a) : post a s := by
  suffices ∀ a b : S × Process P Q R T ρ α, (∃ s₁, AloneSoFar V main s₀ a.1 a.2 s₁) →
      Relation.ReflTransGen (fun a b => V.ProcessStep body a.1 a.2 b.1 b.2) a b →
      ∃ s₁, AloneSoFar V main s₀ b.1 b.2 s₁ by
    obtain ⟨s₁, hso⟩ := this (s₀, { rest := main }) (s, x)
      ⟨s₀, .refl .., rfl, fun _ _ _ => .refl, fun _ _ => rfl⟩ h
    have hreach := hso.reach
    have hs : s₁ = s := hso.returned a hx
    rw [hx, hs] at hreach
    exact Env.Run.ensures hreach hp
  intro a b ha hab
  induction hab with
  | refl => exact ha
  | tail _ hstep ih =>
    obtain ⟨s₁, hso⟩ := ih
    exact hso.step hp hstep

theorem Server.Run.works {k : R q → PoolProg Q R T ρ α} (h : V.Run body main s₀ s x)
    (hx : x.rest = .ask (.call q) k)
    (hw : V.Works q s (x.progress.getD (V.fresh q)) s' p') :
    ∃ x', V.Run body main s₀ s' x' ∧ x'.rest = .ask (.call q) k ∧
      x'.progress.getD (V.fresh q) = p' := by
  suffices ∀ a b : S × P, (∃ x, V.Run body main s₀ a.1 x ∧ x.rest = .ask (.call q) k ∧
        x.progress.getD (V.fresh q) = a.2) →
      Relation.ReflTransGen (fun a b => V.work a.1 q a.2 b.1 b.2) a b →
      ∃ x, V.Run body main s₀ b.1 x ∧ x.rest = .ask (.call q) k ∧
        x.progress.getD (V.fresh q) = b.2 from
    this _ _ ⟨x, h, hx, rfl⟩ hw
  intro a b ha hab
  induction hab with
  | refl => exact ha
  | tail _ hstep ih =>
    obtain ⟨x, hrun, hrest, hprogress⟩ := ih
    exact ⟨_, hrun.step (.work hrest (hprogress ▸ hstep)), hrest, rfl⟩

/-- Each execution against a server as an environment is a run beside it. -/
theorem Env.Reach.beside {p p' : PoolProg Q R T ρ α} (h : V.env.callsOnly.Reach s p s' p')
    (hrun : ∃ x, V.Run body main s₀ s x ∧ x.rest = p ∧ x.progress = none) :
    ∃ x, V.Run body main s₀ s' x ∧ x.rest = p' ∧ x.progress = none := by
  induction h with
  | refl => exact hrun
  | @step s q r s' _ k _ _ ha _ ih =>
    cases q with
    | call q =>
      obtain ⟨x, hrun, hx, hidle⟩ := hrun
      obtain ⟨progress, hworks, hreply⟩ := ha
      have hstart : x.progress.getD (V.fresh q) = V.fresh q := by rw [hidle, Option.getD_none]
      rw [← hstart] at hworks
      obtain ⟨x', hrun', hx', hprogress⟩ := hrun.works hx hworks
      rw [← hprogress] at hreply
      exact ih ⟨_, hrun'.step (.reply hx' hreply), rfl, rfl⟩
    | _ => exact ha.elim

/-- A program that is proved against an environment which always answers has an execution, in any
environment that may give these answers. -/
theorem exists_run {Q' : Type} {R' : Q' → Type} {E E' : Env S Q' R'}
    (hE : ∀ s q, E'.asks s q → ∃ r s', E'.answers s q r s' ∧ E.answers s q r s')
    {p : Prog Q' R' α} {post : α → S → Prop} {s : S} (h : wp E' p post s) :
    ∃ a t, E.Run s p t a ∧ post a t := by
  induction p generalizing s with
  | ret a => exact ⟨a, s, .refl _ _, h⟩
  | ask q k ih =>
    obtain ⟨r, s', hr, hv⟩ := hE s q h.1
    obtain ⟨a, t, hrun, hpost⟩ := ih r (h.2 r s' hr)
    exact ⟨a, t, .step hv hrun, hpost⟩

end Interaction
