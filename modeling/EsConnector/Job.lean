import Mathlib.Data.List.Forall2
import EsConnector.Pool

namespace Interaction
set_option autoImplicit true

variable {S P Q T ρ α β : Type} {R : Q → Type}

/-- What the server keeps while it works on allowed calls: a fact about its state, one about the
calls in progress and one about the finished calls. -/
structure Server.Keeps (V : Server S P Q R) (demands : Q → Prop) (K : S → Prop)
    (I : S → Q → P → Prop) (G : S → Call Q R → Prop) : Prop where
  state : ∀ s q p s' p', demands q → V.work s q p s' p' → K s → K s'
  fresh : ∀ s q, demands q → I s q (V.fresh q)
  work : ∀ s q p s' p', demands q → V.work s q p s' p' → I s q p → I s' q p'
  others : ∀ s q p s' p' q' p'', demands q → demands q' → V.work s q p s' p' → I s q' p'' →
    I s' q' p''
  reply : ∀ s q p r, demands q → V.reply s q p r → I s q p → G s ⟨q, r⟩
  finished : ∀ s q p s' p' c, demands q → V.work s q p s' p' → G s c → G s' c

def Thread.Waits (th : Thread P Q R α) (q : Q) : Prop := ∃ k, th.rest = .ask q k

/-- A call that the process or one of its threads waits for. -/
def Process.Waits (x : Process P Q R T ρ α) (q : Q) : Prop :=
  (∃ k, x.rest = .ask (.call q) k) ∨ ∃ th ∈ x.threads, th.Waits q

structure Thread.Keeping (V : Server S P Q R) (I : S → Q → P → Prop) (G : S → Call Q R → Prop)
    (s : S) (th : Thread P Q R α) : Prop where
  call : ∀ q k, th.rest = .ask q k → I s q (th.progress.getD (V.fresh q))
  log : ∀ c ∈ th.log, G s c

structure Process.Keeping (V : Server S P Q R) (I : S → Q → P → Prop) (G : S → Call Q R → Prop)
    (s : S) (x : Process P Q R T ρ α) : Prop where
  call : ∀ q k, x.rest = .ask (.call q) k → I s q (x.progress.getD (V.fresh q))
  log : ∀ c ∈ x.log, G s c
  threads : ∀ th ∈ x.threads, th.Keeping V I G s

section Keeps

variable {V : Server S P Q R} {demands : Q → Prop} {K : S → Prop} {I : S → Q → P → Prop}
  {G : S → Call Q R → Prop} {body : T → Prog Q R ρ} {s s' : S}

theorem Thread.Keeping.start (hK : V.Keeps demands K I G) {p : Prog Q R α}
    (hd : ∀ q, Thread.Waits ({ rest := p } : Thread P Q R α) q → demands q) :
    Thread.Keeping V I G s ({ rest := p } : Thread P Q R α) where
  call q k hr := hK.fresh s q (hd q ⟨k, hr⟩)
  log _ hc := absurd hc List.not_mem_nil

theorem Thread.Keeping.others (hK : V.Keeps demands K I G) {th : Thread P Q R α}
    (hd : ∀ q, th.Waits q → demands q) (hq : demands q) (hw : V.work s q p s' p')
    (h : th.Keeping V I G s) : th.Keeping V I G s' where
  call q' k hr := hK.others s q p s' p' q' _ hq (hd q' ⟨k, hr⟩) hw (h.call q' k hr)
  log c hc := hK.finished s q p s' p' c hq hw (h.log c hc)

theorem Thread.Keeping.step (hK : V.Keeps demands K I G) {th th' : Thread P Q R α}
    (hd : ∀ q, th.Waits q → demands q) (hd' : ∀ q, th'.Waits q → demands q)
    (hs : V.Step s th s' th') (h : th.Keeping V I G s) : th'.Keeping V I G s' := by
  cases hs with
  | work hw =>
    have hq := hd _ ⟨_, rfl⟩
    refine ⟨fun q k hr => ?_, fun c hc => hK.finished _ _ _ _ _ c hq hw (h.log c hc)⟩
    cases hr
    exact hK.work _ _ _ _ _ hq hw (h.call _ _ rfl)
  | reply hr =>
    have hq := hd _ ⟨_, rfl⟩
    refine ⟨fun q k hk => hK.fresh _ q (hd' q ⟨k, hk⟩), ?_⟩
    intro c hc
    rcases List.mem_append.mp hc with hc | hc
    · exact h.log c hc
    · rw [List.mem_singleton.mp hc]
      exact hK.reply _ _ _ _ hq hr (h.call _ _ rfl)

/-- A step of a thread leaves the server alone or is work on the call the thread waits for. -/
theorem Server.Step.effect {th th' : Thread P Q R α} (h : V.Step s th s' th') :
    s' = s ∨ ∃ q p p', th.Waits q ∧ V.work s q p s' p' := by
  cases h with
  | work hw => exact .inr ⟨_, _, _, ⟨_, rfl⟩, hw⟩
  | reply => exact .inl rfl

theorem Server.ProcessStep.effect {x x' : Process P Q R T ρ α}
    (h : V.ProcessStep body s x s' x') : s' = s ∨ ∃ q p p', x.Waits q ∧ V.work s q p s' p' := by
  cases h with
  | work hx hw => exact .inr ⟨_, _, _, .inl ⟨_, hx⟩, hw⟩
  | reply => exact .inl rfl
  | submit => exact .inl rfl
  | wait => exact .inl rfl
  | shutdown => exact .inl rfl
  | thread i hi hs =>
    rcases hs.effect with he | ⟨q, p, p', hwait, hw⟩
    · exact .inl he
    · exact .inr ⟨q, p, p', .inr ⟨_, List.mem_of_getElem? hi, hwait⟩, hw⟩

theorem Process.Keeping.others (hK : V.Keeps demands K I G) {x : Process P Q R T ρ α}
    (hd : ∀ q, x.Waits q → demands q) (hq : demands q) (hw : V.work s q p s' p')
    (h : x.Keeping V I G s) : x.Keeping V I G s' where
  call q' k hr := hK.others s q p s' p' q' _ hq (hd q' (.inl ⟨k, hr⟩)) hw (h.call q' k hr)
  log c hc := hK.finished s q p s' p' c hq hw (h.log c hc)
  threads th hth :=
    (h.threads th hth).others hK (fun q hw => hd q (.inr ⟨th, hth, hw⟩)) hq hw

theorem Process.Keeping.start (hK : V.Keeps demands K I G) {main : PoolProg Q R T ρ α}
    (hd : ∀ q, Process.Waits ({ rest := main } : Process P Q R T ρ α) q → demands q) :
    Process.Keeping V I G s ({ rest := main } : Process P Q R T ρ α) where
  call q k hr := hK.fresh s q (hd q (.inl ⟨k, hr⟩))
  log _ hc := absurd hc List.not_mem_nil
  threads _ hth := absurd hth List.not_mem_nil

theorem Process.Keeping.step (hK : V.Keeps demands K I G) {x x' : Process P Q R T ρ α}
    (hd : ∀ q, x.Waits q → demands q) (hd' : ∀ q, x'.Waits q → demands q)
    (hs : V.ProcessStep body s x s' x') (h : x.Keeping V I G s) : x'.Keeping V I G s' := by
  cases hs with
  | work hx hw =>
    have hq := hd _ (.inl ⟨_, hx⟩)
    have hframe := h.others hK hd hq hw
    refine ⟨fun q k hr => ?_, hframe.log, hframe.threads⟩
    rw [hx] at hr
    cases hr
    exact hK.work _ _ _ _ _ hq hw (h.call _ _ hx)
  | reply hx hr =>
    have hq := hd _ (.inl ⟨_, hx⟩)
    refine ⟨fun q k hk => hK.fresh _ q (hd' q (.inl ⟨k, hk⟩)), fun c hc => ?_, h.threads⟩
    rcases List.mem_append.mp hc with hc | hc
    · exact h.log c hc
    · rw [List.mem_singleton.mp hc]
      exact hK.reply _ _ _ _ hq hr (h.call _ _ hx)
  | submit hx =>
    refine ⟨fun q k hk => hK.fresh _ q (hd' q (.inl ⟨k, hk⟩)), h.log, ?_⟩
    intro th hth
    rcases List.mem_append.mp hth with hold | hnew
    · exact h.threads th hold
    · rw [List.mem_singleton.mp hnew]
      rw [List.mem_singleton.mp hnew] at hth
      exact .start hK fun q hw => hd' q (.inr ⟨_, hth, hw⟩)
  | wait hx c hc => exact ⟨fun q k hk => hK.fresh _ q (hd' q (.inl ⟨k, hk⟩)), h.log, h.threads⟩
  | shutdown hx hdone =>
    exact ⟨fun q k hk => hK.fresh _ q (hd' q (.inl ⟨k, hk⟩)), h.log, h.threads⟩
  | thread i hi hs =>
    rename_i th th'
    have hmem := List.mem_of_getElem? hi
    have hlt := (List.getElem?_eq_some_iff.mp hi).1
    have hth' : th' ∈ x.threads.set i th' := List.mem_set hlt th'
    have hdth (q) (hw : th.Waits q) : demands q := hd q (.inr ⟨th, hmem, hw⟩)
    have hdth' (q) (hw : th'.Waits q) : demands q := hd' q (.inr ⟨th', hth', hw⟩)
    have hrest : x.Keeping V I G s' := by
      rcases hs.effect with rfl | ⟨q, p, p', hwait, hw⟩
      · exact h
      · exact h.others hK hd (hdth q hwait) hw
    refine ⟨hrest.call, hrest.log, ?_⟩
    intro th'' hth''
    rcases List.mem_or_eq_of_mem_set hth'' with hold | rfl
    · exact hrest.threads th'' hold
    · exact (h.threads th hmem).step hK hdth hdth' hs

end Keeps

section Solo

variable {V : Server S P Q R} {legal : (q : Q) → R q → Prop} {demands : Q → Prop} {K : S → Prop}
  {I : S → Q → P → Prop} {G : S → Call Q R → Prop} {s s' : S}
  {post : α → List (Call Q R) → Prop} {th th' : Thread P Q R α} {p : Prog Q R α}

/-- What allowed work keeps of the server holds throughout a run. -/
theorem Server.Steps.state (hV : ∀ s q p r, V.reply s q p r → legal q r)
    (hp : wp (callEnv legal demands) p post []) (hth : th.Sound legal demands p)
    (h : V.Steps s th s' th')
    (hK : ∀ s q p s' p', demands q → V.work s q p s' p' → K s → K s') (hs : K s) : K s' := by
  apply h.invariant (I := fun s _ => K s) hV hp hth hs
  intro s th s' th' hd _ hs hstep
  rcases hstep.effect with rfl | ⟨q, p, p', ⟨k, hr⟩, hw⟩
  · exact hs
  · exact hK _ _ _ _ _ (hd q k hr) hw hs

theorem Server.Solo.keeping (hV : ∀ s q p r, V.reply s q p r → legal q r)
    (hp : wp (callEnv legal demands) p post []) (hK : V.Keeps demands K I G)
    (h : V.Solo p s s' th) : th.Keeping V I G s' := by
  have hstart : Thread.Sound legal demands p ({ rest := p } : Thread P Q R α) := .refl _ _
  apply h.invariant (I := fun s th => th.Keeping V I G s) hV hp hstart
    (.start hK fun q ⟨k, hr⟩ => hstart.asks_only hp q k hr)
  intro s th s' th' hd hd' hkeep hstep
  exact hkeep.step hK (fun q ⟨k, hr⟩ => hd q k hr) (fun q ⟨k, hr⟩ => hd' q k hr) hstep

end Solo

/-- Whatever a program and its tasks ask the server is allowed. -/
structure Proper (legal : (q : Q) → R q → Prop)
    (asks : PoolState Q R T ρ → PoolQuery Q T → Prop) (demands : Q → Prop)
    (body : T → Prog Q R ρ) (main : PoolProg Q R T ρ α) : Prop where
  main : ∃ post, wp (poolEnv legal asks) main post {}
  call : ∀ g q, asks g (.call q) → demands q
  task : ∀ g task, asks g (.submit task) → ∃ post, wp (callEnv legal demands) (body task) post []

theorem Process.Sound.demands {legal : (q : Q) → R q → Prop} {demands : Q → Prop}
    {asks : PoolState Q R T ρ → PoolQuery Q T → Prop} {body : T → Prog Q R ρ}
    {main : PoolProg Q R T ρ α} {x : Process P Q R T ρ α}
    (hx : x.Sound legal asks demands body main) (hp : Proper legal asks demands body main) :
    ∀ q, x.Waits q → demands q := by
  obtain ⟨post, hwp⟩ := hp.main
  have hmain := hx.main
  rintro q (⟨k, hr⟩ | ⟨th, hth, k, hr⟩)
  · rw [hr] at hmain
    exact hp.call _ q (hmain.asks hwp)
  · -- every submitted task was asked for, so its program is proper
    have htasks : ∀ task ∈ x.submitted, ∃ post, wp (callEnv legal demands) (body task) post [] := by
      apply hmain.invariant
        (I := fun g => ∀ task ∈ g.submitted, ∃ post, wp (callEnv legal demands) (body task) post [])
        hwp (fun _ h => absurd h List.not_mem_nil)
      intro g q' r g' hI hask hans
      cases q' with
      | call q =>
        obtain ⟨-, rfl⟩ := hans
        exact hI
      | submit task =>
        obtain ⟨-, rfl⟩ := hans
        intro t ht
        rcases List.mem_append.mp ht with ht | ht
        · exact hI t ht
        · rw [List.mem_singleton.mp ht]
          exact hp.task g task hask
      | wait pending =>
        obtain rfl := hans
        exact hI
      | shutdown =>
        obtain rfl := hans
        exact hI
    obtain ⟨i, hi, rfl⟩ := List.getElem_of_mem hth
    have hi' : i < x.submitted.length := hx.threads_length ▸ hi
    obtain ⟨post', hbody⟩ := htasks _ (List.getElem_mem hi')
    have hsound := hx.threads i _ _ (List.getElem?_eq_getElem hi) (List.getElem?_eq_getElem hi')
    rw [Thread.Sound, hr] at hsound
    exact hsound.asks hbody

theorem Process.mem_calls {x : Process P Q R T ρ α} {c : Call Q R} :
    c ∈ x.calls ↔ c ∈ x.log ∨ ∃ th ∈ x.threads, c ∈ th.log := by
  simp [Process.calls]

/-- A call that a step finishes was waited for. -/
theorem Server.ProcessStep.calls {V : Server S P Q R} {body : T → Prog Q R ρ}
    {x x' : Process P Q R T ρ α} (h : V.ProcessStep body s x s' x') :
    ∀ c ∈ x'.calls, c ∈ x.calls ∨ x.Waits c.1 := by
  intro c hc
  cases h with
  | work hx hwork => exact .inl hc
  | reply hx hr =>
    rcases Process.mem_calls.mp hc with hc | hc
    · rcases List.mem_append.mp hc with hc | hc
      · exact .inl (Process.mem_calls.mpr (.inl hc))
      · rw [List.mem_singleton.mp hc]
        exact .inr (.inl ⟨_, hx⟩)
    · exact .inl (Process.mem_calls.mpr (.inr hc))
  | submit hx =>
    rcases Process.mem_calls.mp hc with hc | ⟨th, hth, hc⟩
    · exact .inl (Process.mem_calls.mpr (.inl hc))
    · rcases List.mem_append.mp hth with hth | hth
      · exact .inl (Process.mem_calls.mpr (.inr ⟨th, hth, hc⟩))
      · rw [List.mem_singleton.mp hth] at hc
        exact absurd hc List.not_mem_nil
  | wait hx completion hdone => exact .inl hc
  | shutdown hx hended => exact .inl hc
  | thread i hi hs =>
    have hmem := List.mem_of_getElem? hi
    rcases Process.mem_calls.mp hc with hc | ⟨th, hth, hlog⟩
    · exact .inl (Process.mem_calls.mpr (.inl hc))
    · rcases List.mem_or_eq_of_mem_set hth with hth | rfl
      · exact .inl (Process.mem_calls.mpr (.inr ⟨th, hth, hlog⟩))
      · cases hs with
        | work hwork => exact .inl (Process.mem_calls.mpr (.inr ⟨_, hmem, hlog⟩))
        | reply hr =>
          rcases List.mem_append.mp hlog with hlog | hlog
          · exact .inl (Process.mem_calls.mpr (.inr ⟨_, hmem, hlog⟩))
          · rw [List.mem_singleton.mp hlog]
            exact .inr (.inr ⟨_, hmem, _, rfl⟩)

/-- Every finished call was waited for earlier in the run. -/
theorem Server.Run.calls_waited {V : Server S P Q R} {body : T → Prog Q R ρ}
    {main : PoolProg Q R T ρ α} {x : Process P Q R T ρ α} {D : Q → Prop}
    (h : V.Run body main s s' x)
    (hw : ∀ s' x, V.Run body main s s' x → ∀ q, x.Waits q → D q) : ∀ c ∈ x.calls, D c.1 := by
  suffices ∀ b : S × Process P Q R T ρ α,
      Relation.ReflTransGen (fun a b => V.ProcessStep body a.1 a.2 b.1 b.2)
        (s, { rest := main }) b → ∀ c ∈ b.2.calls, D c.1 from this (s', x) h
  intro b hb
  induction hb with
  | refl =>
    intro c hc
    rcases Process.mem_calls.mp hc with hc | ⟨th, hth, -⟩
    · exact absurd hc List.not_mem_nil
    · exact absurd hth List.not_mem_nil
  | @tail b b' hab hstep ih =>
    intro c hc
    rcases hstep.calls c hc with hc | hc
    · exact ih c hc
    · exact hw b.1 b.2 hab c.1 hc

/-- A job: the processes of its parts take turns beside one server, and a part may be started
again at any point. -/
inductive Server.JobStep (V : Server S P Q R) (body : T → Prog Q R ρ)
    (mains : List (PoolProg Q R T ρ α)) :
    S → List (Process P Q R T ρ α) → S → List (Process P Q R T ρ α) → Prop where
  | step (i : Nat) (hi : xs[i]? = some x) (h : V.ProcessStep body s x s' x') :
      V.JobStep body mains s xs s' (xs.set i x')
  | restart (i : Nat) (hi : xs[i]? = some x) (hm : mains[i]? = some main) :
      V.JobStep body mains s xs s (xs.set i { rest := main })

def Server.JobSteps (V : Server S P Q R) (body : T → Prog Q R ρ)
    (mains : List (PoolProg Q R T ρ α)) (s : S) (xs : List (Process P Q R T ρ α)) (s' : S)
    (xs' : List (Process P Q R T ρ α)) : Prop :=
  Relation.ReflTransGen
    (fun a b : S × List (Process P Q R T ρ α) => V.JobStep body mains a.1 a.2 b.1 b.2)
    (s, xs) (s', xs')

theorem Server.JobSteps.refl (V : Server S P Q R) (body : T → Prog Q R ρ)
    (mains : List (PoolProg Q R T ρ α)) (s : S) (xs : List (Process P Q R T ρ α)) :
    V.JobSteps body mains s xs s xs :=
  Relation.ReflTransGen.refl

theorem Server.JobSteps.head {V : Server S P Q R} {body : T → Prog Q R ρ}
    {mains : List (PoolProg Q R T ρ α)} {xs xs' xs'' : List (Process P Q R T ρ α)}
    (h : V.JobStep body mains s xs s' xs') (hs : V.JobSteps body mains s' xs' s'' xs'') :
    V.JobSteps body mains s xs s'' xs'' :=
  Relation.ReflTransGen.head h hs

theorem Server.JobSteps.trans {V : Server S P Q R} {body : T → Prog Q R ρ}
    {mains : List (PoolProg Q R T ρ α)} {xs xs' xs'' : List (Process P Q R T ρ α)}
    (h : V.JobSteps body mains s xs s' xs') (hs : V.JobSteps body mains s' xs' s'' xs'') :
    V.JobSteps body mains s xs s'' xs'' :=
  Relation.ReflTransGen.trans h hs

/-- A run of a job from the start of its parts. -/
def Server.Job (V : Server S P Q R) (body : T → Prog Q R ρ) (mains : List (PoolProg Q R T ρ α))
    (s s' : S) (xs : List (Process P Q R T ρ α)) : Prop :=
  V.JobSteps body mains s (mains.map fun main => { rest := main }) s' xs

/-- What links a job to the runs of its parts. -/
structure JobSound (legal : (q : Q) → R q → Prop)
    (asks : β → PoolState Q R T ρ → PoolQuery Q T → Prop) (demands : Q → Prop)
    (body : T → Prog Q R ρ) (main : β → PoolProg Q R T ρ α) (V : Server S P Q R) (K : S → Prop)
    (I : S → Q → P → Prop) (G : S → Call Q R → Prop) (parts : List β) (s : S)
    (xs : List (Process P Q R T ρ α)) : Prop where
  sound : List.Forall₂ (fun b x => Process.Sound legal (asks b) demands body (main b) x) parts xs
  keeping : ∀ x ∈ xs, x.Keeping V I G s
  state : K s

section Jobs

variable {legal : (q : Q) → R q → Prop} {demands : Q → Prop}
  {asks : β → PoolState Q R T ρ → PoolQuery Q T → Prop} {body : T → Prog Q R ρ}
  {main : β → PoolProg Q R T ρ α} {V : Server S P Q R} {K : S → Prop} {I : S → Q → P → Prop}
  {G : S → Call Q R → Prop} {parts : List β} {s s' : S} {xs xs' : List (Process P Q R T ρ α)}

theorem forall₂_set {rel : β → γ → Prop} {l : List β} {l' : List γ} (h : List.Forall₂ rel l l')
    (hi : l'[i]? = some x) (hset : ∀ b, l[i]? = some b → rel b x → rel b x') :
    List.Forall₂ rel l (l'.set i x') := by
  induction h generalizing i with
  | nil => simp at hi
  | cons hrel h ih =>
    cases i with
    | zero =>
      cases hi
      exact .cons (hset _ rfl hrel) h
    | succ i => exact .cons hrel (ih hi hset)

theorem JobSound.start (hK : V.Keeps demands K I G)
    (hp : ∀ b ∈ parts, Proper legal (asks b) demands body (main b)) (hs : K s) :
    JobSound legal asks demands body main V K I G parts s
      (parts.map fun b => { rest := main b }) where
  sound := by
    rw [List.forall₂_map_right_iff, List.forall₂_same]
    exact fun b _ => Process.Sound.start
  keeping x hx := by
    obtain ⟨b, hb, rfl⟩ := List.mem_map.mp hx
    exact .start hK (Process.Sound.start.demands (hp b hb))
  state := hs

theorem demands_of_sound (hp : ∀ b ∈ parts, Proper legal (asks b) demands body (main b))
    (h : List.Forall₂ (fun b x => Process.Sound legal (asks b) demands body (main b) x) parts xs) :
    ∀ x ∈ xs, ∀ q, x.Waits q → demands q := by
  intro x hx
  obtain ⟨i, hi, rfl⟩ := List.getElem_of_mem hx
  have hi' : i < parts.length := h.length_eq ▸ hi
  exact (h.get hi' hi).demands (hp _ (List.getElem_mem hi'))

/-- A step of one part keeps what is known of all parts. -/
theorem JobSound.step (hV : ∀ s q p r, V.reply s q p r → legal q r) (hK : V.Keeps demands K I G)
    (hp : ∀ b ∈ parts, Proper legal (asks b) demands body (main b))
    (h : JobSound legal asks demands body main V K I G parts s xs)
    (hs : V.JobStep body (parts.map main) s xs s' xs') :
    JobSound legal asks demands body main V K I G parts s' xs' := by
  have hd := demands_of_sound hp h.sound
  cases hs with
  | step i hi hs =>
    rename_i x x'
    have hsound := forall₂_set h.sound hi fun b _ hb => hb.step hV hs
    have hmem := List.mem_of_getElem? hi
    have hmem' : x' ∈ xs.set i x' := List.mem_set (List.getElem?_eq_some_iff.mp hi).1 x'
    have hothers : (∀ y ∈ xs, y.Keeping V I G s') ∧ K s' := by
      rcases hs.effect with rfl | ⟨q, p, p', hwait, hw⟩
      · exact ⟨h.keeping, h.state⟩
      · have hq := hd x hmem q hwait
        exact ⟨fun y hy => (h.keeping y hy).others hK (hd y hy) hq hw,
          hK.state _ _ _ _ _ hq hw h.state⟩
    refine ⟨hsound, fun y hy => ?_, hothers.2⟩
    rcases List.mem_or_eq_of_mem_set hy with hold | rfl
    · exact hothers.1 y hold
    · exact (h.keeping x hmem).step hK (hd x hmem) (demands_of_sound hp hsound y hmem') hs
  | restart i hi hm =>
    obtain ⟨b, hb, rfl⟩ := Option.map_eq_some_iff.mp ((List.getElem?_map ..).symm.trans hm)
    refine ⟨forall₂_set h.sound hi ?_, ?_, h.state⟩
    · intro b' hb' _
      rw [hb] at hb'
      cases hb'
      exact .start
    · intro y hy
      rcases List.mem_or_eq_of_mem_set hy with hold | rfl
      · exact h.keeping y hold
      · exact .start hK (Process.Sound.start.demands (hp b (List.mem_of_getElem? hb)))

theorem JobSound.steps (hV : ∀ s q p r, V.reply s q p r → legal q r) (hK : V.Keeps demands K I G)
    (hp : ∀ b ∈ parts, Proper legal (asks b) demands body (main b)) (hs : K s)
    (h : V.Job body (parts.map main) s s' xs) :
    JobSound legal asks demands body main V K I G parts s' xs := by
  suffices ∀ a b : S × List (Process P Q R T ρ α),
      JobSound legal asks demands body main V K I G parts a.1 a.2 →
      Relation.ReflTransGen (fun a b => V.JobStep body (parts.map main) a.1 a.2 b.1 b.2) a b →
      JobSound legal asks demands body main V K I G parts b.1 b.2 by
    refine this _ _ ?_ h
    rw [List.map_map]
    exact .start hK hp hs
  intro a b ha hab
  induction hab with
  | refl => exact ha
  | tail _ hstep ih => exact ih.step hV hK hp hstep

end Jobs

end Interaction
