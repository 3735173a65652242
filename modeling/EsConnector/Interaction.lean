import Mathlib.Logic.Relation

namespace Interaction
set_option autoImplicit true

/-- A program that asks its environment queries and goes on with the replies. -/
inductive Prog (Q : Type) (R : Q → Type) (α : Type) where
  | ret (a : α)
  | ask (q : Q) (k : R q → Prog Q R α)

namespace Prog

variable {Q : Type} {R : Q → Type}

def bind (p : Prog Q R α) (f : α → Prog Q R β) : Prog Q R β :=
  match p with
  | .ret a => f a
  | .ask q k => .ask q fun r => (k r).bind f

instance : Monad (Prog Q R) where
  pure := .ret
  bind := bind

/-- The program that asks one query and returns its reply. -/
def query (q : Q) : Prog Q R (R q) := .ask q .ret

/-- Run a program where its queries are some of the queries of a larger interface. -/
def embed {Q' : Type} {R' : Q' → Type} (e : Q → Q') (back : ∀ q, R' (e q) → R q) :
    Prog Q R α → Prog Q' R' α
  | .ret a => .ret a
  | .ask q k => .ask (e q) fun r => (k (back q r)).embed e back

/-- Run a program against a fixed answer to each query, and keep the queries it asked. -/
def eval (answer : (q : Q) → R q) : Prog Q R α → α × List Q
  | .ret a => (a, [])
  | .ask q k =>
    let (a, asked) := (k (answer q)).eval answer
    (a, q :: asked)

theorem bind_def (p : Prog Q R α) (f : α → Prog Q R β) : p >>= f = p.bind f := rfl

theorem bind_assoc (p : Prog Q R α) (f : α → Prog Q R β) (g : β → Prog Q R γ) :
    (p >>= f) >>= g = p >>= fun a => f a >>= g := by
  simp only [bind_def]
  induction p with
  | ret a => rfl
  | ask q k ih =>
    simp only [bind]
    congr 1
    funext r
    exact ih r

@[simp] theorem eval_pure (answer : (q : Q) → R q) (a : α) :
    (pure a : Prog Q R α).eval answer = (a, []) := rfl

@[simp] theorem eval_query (answer : (q : Q) → R q) (q : Q) :
    (query q : Prog Q R (R q)).eval answer = (answer q, [q]) := rfl

@[simp] theorem eval_bind (answer : (q : Q) → R q) (p : Prog Q R α) (f : α → Prog Q R β) :
    (p >>= f).eval answer = (((f (p.eval answer).1).eval answer).1,
      (p.eval answer).2 ++ ((f (p.eval answer).1).eval answer).2) := by
  simp only [bind_def]
  induction p with
  | ret a => rfl
  | ask q k ih =>
    simp only [bind, eval, ih]
    rfl

end Prog

/-- An environment: what it may be asked, and how it may answer. -/
structure Env (S : Type) (Q : Type) (R : Q → Type) where
  asks : S → Q → Prop := fun _ _ => True
  answers : S → (q : Q) → R q → S → Prop

variable {S : Type} {Q : Type} {R : Q → Type}

/-- The partial executions of a program in an environment. -/
inductive Env.Reach (E : Env S Q R) : S → Prog Q R α → S → Prog Q R α → Prop where
  | refl (s p) : E.Reach s p s p
  | step (h : E.answers s q r s') (hr : E.Reach s' (k r) t p) : E.Reach s (.ask q k) t p

/-- The complete executions. -/
def Env.Run (E : Env S Q R) (s : S) (p : Prog Q R α) (t : S) (a : α) : Prop :=
  E.Reach s p t (.ret a)

/-- The weakest precondition for asking only what is allowed and ending in `post`. -/
def wp (E : Env S Q R) : Prog Q R α → (α → S → Prop) → S → Prop
  | .ret a, post, s => post a s
  | .ask q k, post, s => E.asks s q ∧ ∀ r s', E.answers s q r s' → wp E (k r) post s'

variable {E : Env S Q R} {post post' : α → S → Prop}

@[simp] theorem wp_ret (a : α) : wp E (.ret a : Prog Q R α) post s = post a s := rfl

@[simp] theorem wp_pure (a : α) : wp E (pure a : Prog Q R α) post s = post a s := rfl

theorem wp_query {q : Q} {post : R q → S → Prop} : wp E (Prog.query q) post s =
    (E.asks s q ∧ ∀ r s', E.answers s q r s' → post r s') := rfl

theorem wp_bind {post : β → S → Prop} (p : Prog Q R α) (f : α → Prog Q R β) :
    wp E (p >>= f) post s ↔ wp E p (fun a => wp E (f a) post) s := by
  simp only [Prog.bind_def]
  induction p generalizing s with
  | ret a => exact Iff.rfl
  | ask q k ih =>
    simp only [Prog.bind, wp]
    exact and_congr_right fun _ => forall₃_congr fun r s' _ => ih r

theorem wp_mono (h : wp E p post s) (hp : ∀ a t, post a t → post' a t) : wp E p post' s := by
  induction p generalizing s with
  | ret a => exact hp a s h
  | ask q k ih => exact ⟨h.1, fun r s' hr => ih r (h.2 r s' hr)⟩

theorem wp_of_asks (h : ∀ s q, E.asks s q) (p : Prog Q R α) (s : S) :
    wp E p (fun _ _ => True) s := by
  induction p generalizing s with
  | ret a => trivial
  | ask q k ih => exact ⟨h s q, fun r s' _ => ih r s'⟩

theorem Env.Reach.wp (hr : E.Reach s p t p') (h : wp E p post s) : wp E p' post t := by
  induction hr with
  | refl => exact h
  | step ha _ ih => exact ih (h.2 _ _ ha)

theorem Env.Reach.of_ret (h : E.Reach s (.ret a : Prog Q R α) t p) : t = s ∧ p = .ret a := by
  cases h
  exact ⟨rfl, rfl⟩

/-- A proved program meets its postcondition at the end of every execution. -/
theorem Env.Run.ensures (hr : E.Run s p t a) (h : Interaction.wp E p post s) : post a t :=
  hr.wp h

/-- A proved program asks only what is allowed, at every point of every execution. -/
theorem Env.Reach.asks (hr : E.Reach s p t (.ask q k)) (h : Interaction.wp E p post s) :
    E.asks t q :=
  (hr.wp h).1

theorem Env.Reach.trans (h : E.Reach s p t p') (h' : E.Reach t p' u p'') :
    E.Reach s p u p'' := by
  induction h with
  | refl => exact h'
  | step ha _ ih => exact .step ha (ih h')

theorem Env.Reach.snoc (h : E.Reach s p t (.ask q k)) (ha : E.answers t q r u) :
    E.Reach s p u (k r) :=
  h.trans (.step ha (.refl u (k r)))

/-- What holds at the start and survives every allowed query holds at every point of a run. -/
theorem Env.Reach.invariant {I : S → Prop} (hr : E.Reach s p t p')
    (h : Interaction.wp E p post s) (hI : I s)
    (hstep : ∀ s q r s', I s → E.asks s q → E.answers s q r s' → I s') : I t := by
  induction hr with
  | refl => exact hI
  | step ha _ ih => exact ih (h.2 _ _ ha) (hstep _ _ _ _ hI h.1 ha)

/-- Against an environment that always answers every program returns. -/
theorem exists_completion (hE : ∀ s q, ∃ r s', E.answers s q r s') (p : Prog Q R α) (s : S) :
    ∃ t a, E.Run s p t a := by
  induction p generalizing s with
  | ret a => exact ⟨s, a, .refl ..⟩
  | ask q k ih =>
    obtain ⟨r, s', ha⟩ := hE s q
    obtain ⟨t, a, hr⟩ := ih r s'
    exact ⟨t, a, .step ha hr⟩

/-- A proved program returns, where what it may ask is answered. -/
theorem exists_run_of_wp (hE : ∀ s q, E.asks s q → ∃ r s', E.answers s q r s') (h : wp E p post s) :
    ∃ t a, E.Run s p t a := by
  induction p generalizing s with
  | ret a => exact ⟨s, a, .refl ..⟩
  | ask q k ih =>
    obtain ⟨r, s', ha⟩ := hE s q h.1
    obtain ⟨t, a, hr⟩ := ih r (h.2 r s' ha)
    exact ⟨t, a, .step ha hr⟩

theorem wp_of_run (hE : ∀ s q, E.asks s q) (h : ∀ t a, E.Run s p t a → post a t) :
    wp E p post s := by
  induction p generalizing s with
  | ret a => exact h s a (.refl ..)
  | ask q k ih => exact ⟨hE s q, fun r s' ha => ih r fun t a hr => h t a (.step ha hr)⟩

/-- An environment with a fixed answer to each query. -/
def fixedEnv (answer : (q : Q) → R q) : Env Unit Q R where
  answers _ q r _ := r = answer q

theorem fixedEnv_run {answer : (q : Q) → R q} (h : (fixedEnv answer).Run () p () a) :
    a = (p.eval answer).1 := by
  induction p with
  | ret b =>
    obtain ⟨-, hret⟩ := h.of_ret
    cases hret
    rfl
  | ask q k ih =>
    cases h with
    | step ha hr =>
      cases ha
      exact ih _ hr

/-- A completed call with its reply. -/
abbrev Call (Q : Type) (R : Q → Type) : Type := Σ q : Q, R q

/-- The environment that keeps a log of the calls. Each reply only has to be legal for its query. -/
def callEnv (legal : (q : Q) → R q → Prop) (demands : Q → Prop) : Env (List (Call Q R)) Q R where
  asks _ q := demands q
  answers log q r log' := legal q r ∧ log' = log ++ [⟨q, r⟩]

theorem Env.Reach.replies {legal : (q : Q) → R q → Prop} {demands : Q → Prop}
    {log log' : List (Call Q R)} {p p' : Prog Q R α}
    (h : (callEnv legal demands).Reach log p log' p') (hlog : ∀ c ∈ log, legal c.1 c.2) :
    ∀ c ∈ log', legal c.1 c.2 := by
  induction h with
  | refl => exact hlog
  | step ha _ ih =>
    obtain ⟨hl, rfl⟩ := ha
    apply ih
    intro c hc
    rcases List.mem_append.mp hc with hc | hc
    · exact hlog c hc
    · rw [List.mem_singleton.mp hc]
      exact hl

/-- The log of calls only grows. -/
theorem Env.Reach.grows {legal : (q : Q) → R q → Prop} {demands : Q → Prop}
    {log log' : List (Call Q R)} {p p' : Prog Q R α}
    (h : (callEnv legal demands).Reach log p log' p') : log <+: log' := by
  induction h with
  | refl => exact List.prefix_rfl
  | step ha _ ih =>
    rw [ha.2] at ih
    exact (List.prefix_append ..).trans ih

/-- The calls that a program adds to the log have legal replies. -/
theorem wp_legal {legal : (q : Q) → R q → Prop} {demands : Q → Prop} {p : Prog Q R α}
    {log : List (Call Q R)} {post : α → List (Call Q R) → Prop}
    (h : wp (callEnv legal demands) p post log) :
    wp (callEnv legal demands) p (fun a log' => post a log' ∧
      ∃ calls, log' = log ++ calls ∧ ∀ c ∈ calls, legal c.1 c.2) log := by
  induction p generalizing log with
  | ret a => exact ⟨h, [], (List.append_nil _).symm, fun _ hc => absurd hc List.not_mem_nil⟩
  | ask q k ih =>
    refine ⟨h.1, ?_⟩
    rintro r _ ⟨hr, rfl⟩
    apply wp_mono (ih r (h.2 r _ ⟨hr, rfl⟩))
    rintro a log' ⟨hpost, calls, rfl, hcalls⟩
    refine ⟨hpost, ⟨q, r⟩ :: calls, List.append_assoc .., ?_⟩
    intro c hc
    rcases List.mem_cons.mp hc with rfl | hc
    · exact hr
    · exact hcalls c hc

section Embed

variable {S' : Type} {Q' : Type} {R' : Q' → Type} {E' : Env S' Q' R'} {e : Q → Q'}
  {back : ∀ q, R' (e q) → R q}

/-- The larger environment serves the embedded queries as the smaller one does on the part of
its state that `view` shows, and changes nothing else. -/
structure Serves (E : Env S Q R) (E' : Env S' Q' R') (e : Q → Q')
    (back : ∀ q, R' (e q) → R q) (view : S' → S) (put : S' → S → S') : Prop where
  asks : ∀ s q, E.asks (view s) q → E'.asks s (e q)
  answers : ∀ s q r s', E'.answers s (e q) r s' →
    E.answers (view s) q (back q r) (view s') ∧ s' = put s (view s')
  put_put : ∀ s c d, put (put s c) d = put s d
  put_view : ∀ s, put s (view s) = s

theorem wp_embed (hS : Serves E E' e back view put) {p : Prog Q R α}
    {post : α → S' → Prop} (h : wp E p (fun a c => post a (put s c)) (view s)) :
    wp E' (p.embed e back) post s := by
  induction p generalizing s with
  | ret a =>
    simpa only [Prog.embed, wp_ret, hS.put_view] using h
  | ask q k ih =>
    refine ⟨hS.asks _ _ h.1, fun r s' hr => ih _ ?_⟩
    obtain ⟨ha, he⟩ := hS.answers _ _ _ _ hr
    apply wp_mono (h.2 _ _ ha)
    intro a t ht
    rw [he, hS.put_put]
    exact ht

end Embed

end Interaction
