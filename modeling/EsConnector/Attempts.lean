import Mathlib.Algebra.BigOperators.Group.List.Basic
import EsConnector.Progress
import EsConnector.UnderWay

namespace Interaction
set_option autoImplicit true

variable {S P Q T ρ α β M : Type} {R : Q → Type}

/-- The attempts at one part of a job: those that were given up, as they stood then, and the one
that is running. -/
structure Attempts (P Q : Type) (R : Q → Type) (T ρ α : Type) where
  past : List (Process P Q R T ρ α) := []
  now : Process P Q R T ρ α

def Attempts.all (a : Attempts P Q R T ρ α) : List (Process P Q R T ρ α) := a.past ++ [a.now]

/-- A step of a job that keeps the attempts that are given up. -/
inductive Server.AttemptStep (V : Server S P Q R) (body : T → Prog Q R ρ)
    (mains : List (PoolProg Q R T ρ α)) :
    S → List (Attempts P Q R T ρ α) → S → List (Attempts P Q R T ρ α) → Prop where
  | step (i : Nat) (hi : as[i]? = some a) (h : V.ProcessStep body s a.now s' x') :
      V.AttemptStep body mains s as s' (as.set i { a with now := x' })
  | restart (i : Nat) (hi : as[i]? = some a) (hm : mains[i]? = some main) :
      V.AttemptStep body mains s as s (as.set i { past := a.all, now := { rest := main } })

/-- A run of a job from the start of its parts, with all its attempts. -/
def Server.AttemptedJob (V : Server S P Q R) (body : T → Prog Q R ρ)
    (mains : List (PoolProg Q R T ρ α)) (s s' : S) (as : List (Attempts P Q R T ρ α)) : Prop :=
  Relation.ReflTransGen
    (fun a b : S × List (Attempts P Q R T ρ α) => V.AttemptStep body mains a.1 a.2 b.1 b.2)
    (s, mains.map fun main => { now := { rest := main } }) (s', as)

section Attempted

variable {V : Server S P Q R} {body : T → Prog Q R ρ} {mains : List (PoolProg Q R T ρ α)}
  {s s' : S} {as as' : List (Attempts P Q R T ρ α)} {xs xs' : List (Process P Q R T ρ α)}

theorem Server.AttemptStep.job (h : V.AttemptStep body mains s as s' as') :
    V.JobStep body mains s (as.map Attempts.now) s' (as'.map Attempts.now) := by
  have hnow {i : Nat} {a : Attempts P Q R T ρ α} (hi : as[i]? = some a) :
      (as.map Attempts.now)[i]? = some a.now := by
    rw [List.getElem?_map, hi, Option.map_some]
  cases h with
  | step i hi h =>
    rw [List.map_set]
    exact .step i (hnow hi) h
  | restart i hi hm =>
    rw [List.map_set]
    exact .restart i (hnow hi) hm

theorem Server.AttemptedJob.job (h : V.AttemptedJob body mains s s' as) :
    V.Job body mains s s' (as.map Attempts.now) := by
  suffices ∀ b : S × List (Attempts P Q R T ρ α),
      Relation.ReflTransGen (fun a b => V.AttemptStep body mains a.1 a.2 b.1 b.2)
        (s, mains.map fun main => { now := { rest := main } }) b →
      V.Job body mains s b.1 (b.2.map Attempts.now) from this (s', as) h
  intro b hb
  induction hb with
  | refl =>
    rw [List.map_map]
    exact Relation.ReflTransGen.refl
  | tail _ hstep ih => exact Relation.ReflTransGen.tail ih hstep.job

section Sound

variable {legal : (q : Q) → R q → Prop} {demands : Q → Prop}
  {asks : β → PoolState Q R T ρ → PoolQuery Q T → Prop} {main : β → PoolProg Q R T ρ α}
  {parts : List β}

/-- Every attempt is a run of its own part. -/
def Attempted (legal : (q : Q) → R q → Prop) (demands : Q → Prop)
    (asks : β → PoolState Q R T ρ → PoolQuery Q T → Prop) (body : T → Prog Q R ρ)
    (main : β → PoolProg Q R T ρ α) (b : β) (a : Attempts P Q R T ρ α) : Prop :=
  ∀ x ∈ a.all, x.Sound legal (asks b) demands body (main b)

theorem Attempted.start (b : β) : Attempted legal demands asks body main b
    ({ now := { rest := main b } } : Attempts P Q R T ρ α) := by
  intro x hx
  obtain rfl := List.mem_singleton.mp hx
  exact .start

theorem Server.AttemptStep.attempted (hV : ∀ s q p r, V.reply s q p r → legal q r)
    (h : V.AttemptStep body (parts.map main) s as s' as')
    (has : List.Forall₂ (Attempted legal demands asks body main) parts as) :
    List.Forall₂ (Attempted legal demands asks body main) parts as' := by
  cases h with
  | step i hi hs =>
    apply forall₂_set has hi
    intro b hb hsound x hx
    rcases List.mem_append.mp hx with hpast | hnow
    · exact hsound x (List.mem_append_left _ hpast)
    · obtain rfl := List.mem_singleton.mp hnow
      exact (hsound _ (List.mem_append_right _ List.mem_cons_self)).step hV hs
  | restart i hi hm =>
    apply forall₂_set has hi
    intro b hb hsound x hx
    rcases List.mem_append.mp hx with hpast | hnow
    · exact hsound x hpast
    · rw [List.getElem?_map, hb] at hm
      cases hm
      obtain rfl := List.mem_singleton.mp hnow
      exact .start

theorem Server.AttemptedJob.attempted (hV : ∀ s q p r, V.reply s q p r → legal q r)
    (h : V.AttemptedJob body (parts.map main) s s' as) :
    List.Forall₂ (Attempted legal demands asks body main) parts as := by
  suffices ∀ b : S × List (Attempts P Q R T ρ α),
      Relation.ReflTransGen (fun a b => V.AttemptStep body (parts.map main) a.1 a.2 b.1 b.2)
        (s, (parts.map main).map fun main => { now := { rest := main } }) b →
      List.Forall₂ (Attempted legal demands asks body main) parts b.2 from this (s', as) h
  intro b hb
  induction hb with
  | refl =>
    rw [List.map_map, List.forall₂_map_right_iff, List.forall₂_same]
    exact fun b _ => .start b
  | tail _ hstep ih => exact hstep.attempted hV ih

end Sound

end Attempted

variable [AddCommMonoid M]

/-- What the effects on a server are made of: what a call in progress has made of them so far, and
what its reply lets know about that. -/
structure Server.Accountable (V : Server S P Q R) (effects : S → M) (made : Q → P → M)
    (I : Q → P → Prop) (shows : Call Q R → M → Prop) : Prop where
  fresh : ∀ q, I q (V.fresh q) ∧ made q (V.fresh q) = 0
  work : ∀ s q p s' p', V.work s q p s' p' → I q p →
    I q p' ∧ ∃ new, effects s' = effects s + new ∧ made q p' = made q p + new
  reply : ∀ s q p r, V.reply s q p r → I q p → shows ⟨q, r⟩ (made q p)

/-- The call that a thread waits for, with its progress. -/
def Thread.current (V : Server S P Q R) (th : Thread P Q R α) : Option (Q × P) :=
  match th.rest with
  | .ret _ => none
  | .ask q _ => some (q, th.progress.getD (V.fresh q))

/-- The call of its own that a process waits for, with its progress. -/
def Process.current (V : Server S P Q R) (x : Process P Q R T ρ α) : Option (Q × P) :=
  match x.rest with
  | .ask (.call q) _ => some (q, x.progress.getD (V.fresh q))
  | _ => none

def madeBy (made : Q → P → M) : Option (Q × P) → M
  | none => 0
  | some (q, p) => made q p

/-- The effects of finished calls and of the call in progress add up to `total`. -/
structure Posted (made : Q → P → M) (I : Q → P → Prop) (shows : Call Q R → M → Prop)
    (log : List (Call Q R)) (current : Option (Q × P)) (total : M) : Prop where
  call : ∀ q p, current = some (q, p) → I q p
  entries : ∃ entries, List.Forall₂ shows log entries ∧ total = entries.sum + madeBy made current

/-- What a process and its threads have made adds up to `total`. -/
def Process.Posts (V : Server S P Q R) (made : Q → P → M) (I : Q → P → Prop)
    (shows : Call Q R → M → Prop) (x : Process P Q R T ρ α) (total : M) : Prop :=
  ∃ own threads, Posted made I shows x.log (x.current V) own ∧
    List.Forall₂ (fun th t => Posted made I shows (Thread.log th) (th.current V) t) x.threads
      threads ∧ total = own + threads.sum

/-- What all attempts at a part have made adds up to `total`. -/
def Attempts.Posts (V : Server S P Q R) (made : Q → P → M) (I : Q → P → Prop)
    (shows : Call Q R → M → Prop) (a : Attempts P Q R T ρ α) (total : M) : Prop :=
  ∃ past now, List.Forall₂ (Process.Posts V made I shows) a.past past ∧
    a.now.Posts V made I shows now ∧ total = past.sum + now

theorem exists_post {rel : β → M → Prop} {xs : List β} {ts : List M} (h : List.Forall₂ rel xs ts)
    (hi : xs[i]? = some x) : ∃ t, rel x t ∧ ∀ x' new, rel x' (t + new) →
      ∃ ts', List.Forall₂ rel (xs.set i x') ts' ∧ ts'.sum = ts.sum + new := by
  induction h generalizing i with
  | nil => simp at hi
  | @cons y t ys ts hrel h ih =>
    cases i with
    | zero =>
      cases hi
      refine ⟨t, hrel, fun x' new hnew => ⟨_, .cons hnew h, ?_⟩⟩
      rw [List.sum_cons, List.sum_cons, add_right_comm]
    | succ i =>
      obtain ⟨t', ht', hpost⟩ := ih hi
      refine ⟨t', ht', fun x' new hnew => ?_⟩
      obtain ⟨ts', hts', hsum⟩ := hpost x' new hnew
      refine ⟨t :: ts', .cons hrel hts', ?_⟩
      rw [List.sum_cons, List.sum_cons, hsum, add_assoc]

section Posting

variable {V : Server S P Q R} {effects : S → M} {made : Q → P → M} {I : Q → P → Prop}
  {shows : Call Q R → M → Prop} {log : List (Call Q R)} {total : M} {s s' : S} {q : Q} {p p' : P}
  {r : R q} {body : T → Prog Q R ρ}

theorem Posted.nothing (made : Q → P → M) (I : Q → P → Prop) (shows : Call Q R → M → Prop) :
    Posted made I shows [] none 0 where
  call _ _ h := nomatch h
  entries := ⟨[], .nil, (add_zero _).symm⟩

theorem Posted.opens (hV : V.Accountable effects made I shows)
    (h : Posted made I shows log none total) (hcall : ∀ q p, current = some (q, p) → p = V.fresh q) :
    Posted made I shows log current total where
  call q p hc := by
    rw [hcall q p hc]
    exact (hV.fresh q).1
  entries := by
    obtain ⟨entries, hlog, htotal⟩ := h.entries
    refine ⟨entries, hlog, htotal.trans ?_⟩
    cases current with
    | none => rfl
    | some c =>
      obtain ⟨q, p⟩ := c
      rw [madeBy, madeBy, hcall q p rfl, (hV.fresh q).2]

theorem Posted.work (hV : V.Accountable effects made I shows)
    (h : Posted made I shows log (some (q, p)) total) (hw : V.work s q p s' p') :
    ∃ new, effects s' = effects s + new ∧ Posted made I shows log (some (q, p')) (total + new) := by
  obtain ⟨hI, new, heffects, hmade⟩ := hV.work s q p s' p' hw (h.call q p rfl)
  obtain ⟨entries, hlog, htotal⟩ := h.entries
  refine ⟨new, heffects, fun q p he => by cases he; exact hI, entries, hlog, ?_⟩
  rw [htotal, madeBy, madeBy, hmade, add_assoc]

theorem Posted.reply (hV : V.Accountable effects made I shows)
    (h : Posted made I shows log (some (q, p)) total) (hr : V.reply s q p r) :
    Posted made I shows (log ++ [⟨q, r⟩]) none total where
  call _ _ he := nomatch he
  entries := by
    obtain ⟨entries, hlog, htotal⟩ := h.entries
    have hshows := hV.reply s q p r hr (h.call q p rfl)
    refine ⟨entries ++ [made q p], List.rel_append hlog (.cons hshows .nil), ?_⟩
    rw [htotal, List.sum_append, List.sum_singleton, madeBy, madeBy, add_zero]

theorem Thread.current_new (V : Server S P Q R) (rest : Prog Q R α) (log : List (Call Q R)) :
    ∀ q p, Thread.current V ({ rest, log } : Thread P Q R α) = some (q, p) → p = V.fresh q := by
  intro q p h
  cases rest with
  | ret a => cases h
  | ask q' k =>
    cases h
    rfl

theorem Process.current_new (V : Server S P Q R) {x : Process P Q R T ρ α}
    (hx : x.progress = none) : ∀ q p, x.current V = some (q, p) → p = V.fresh q := by
  intro q p h
  rw [current] at h
  split at h
  · cases h
    rw [hx]
    rfl
  · cases h

theorem Server.Step.posts (hV : V.Accountable effects made I shows) {th th' : Thread P Q R α}
    (hs : V.Step s th s' th') (h : Posted made I shows th.log (th.current V) total) :
    ∃ new, effects s' = effects s + new ∧
      Posted made I shows th'.log (th'.current V) (total + new) := by
  cases hs with
  | work hw => exact h.work hV hw
  | reply hr =>
    refine ⟨0, (add_zero _).symm, ?_⟩
    rw [add_zero]
    exact (h.reply hV hr).opens hV (Thread.current_new V _ _)

/-- What a step of a process adds to the effects it adds to what the process has made. -/
theorem Server.ProcessStep.posts (hV : V.Accountable effects made I shows)
    {x x' : Process P Q R T ρ α} (hs : V.ProcessStep body s x s' x')
    (h : x.Posts V made I shows total) :
    ∃ new, effects s' = effects s + new ∧ x'.Posts V made I shows (total + new) := by
  obtain ⟨own, threads, hown, hthreads, rfl⟩ := h
  -- the program goes on without a call of its own
  have hgo (hcur : x.current V = none) (rest : PoolProg Q R T ρ α) :
      Posted made I shows x.log ({ x with rest, progress := none }.current V) own := by
    rw [hcur] at hown
    exact hown.opens hV (Process.current_new V rfl)
  cases hs with
  | work hx hw =>
    rw [Process.current, hx] at hown
    obtain ⟨new, heffects, hown'⟩ := hown.work hV hw
    refine ⟨new, heffects, own + new, threads, ?_, hthreads, add_right_comm ..⟩
    rw [Process.current]
    simp only [hx]
    exact hown'
  | reply hx hr =>
    rw [Process.current, hx] at hown
    refine ⟨0, (add_zero _).symm, own, threads, ?_, hthreads, add_zero _⟩
    exact (hown.reply hV hr).opens hV (Process.current_new V rfl)
  | submit hx =>
    rename_i task k
    have hcur : x.current V = none := by rw [Process.current, hx]
    refine ⟨0, (add_zero _).symm, own, threads ++ [0], hgo hcur _, ?_, by simp⟩
    exact List.rel_append hthreads (.cons
      ((Posted.nothing made I shows).opens hV (Thread.current_new V (body task) [])) .nil)
  | wait hx c hc =>
    have hcur : x.current V = none := by rw [Process.current, hx]
    exact ⟨0, (add_zero _).symm, own, threads, hgo hcur _, hthreads, add_zero _⟩
  | shutdown hx hdone =>
    have hcur : x.current V = none := by rw [Process.current, hx]
    exact ⟨0, (add_zero _).symm, own, threads, hgo hcur _, hthreads, add_zero _⟩
  | thread i hi hs =>
    obtain ⟨t, ht, hpost⟩ := exists_post hthreads hi
    obtain ⟨new, heffects, ht'⟩ := hs.posts hV ht
    obtain ⟨threads', hthreads', hsum⟩ := hpost _ new ht'
    refine ⟨new, heffects, own, threads', hown, hthreads', ?_⟩
    rw [hsum, add_assoc]

theorem Process.Posts.start (hV : V.Accountable effects made I shows)
    (main : PoolProg Q R T ρ α) :
    Process.Posts V made I shows ({ rest := main } : Process P Q R T ρ α) 0 :=
  ⟨0, [], (Posted.nothing made I shows).opens hV (Process.current_new V rfl), .nil,
    (add_zero _).symm⟩

variable {mains : List (PoolProg Q R T ρ α)} {as as' : List (Attempts P Q R T ρ α)}

theorem Server.AttemptStep.posts (hV : V.Accountable effects made I shows)
    (hs : V.AttemptStep body mains s as s' as')
    (h : List.Forall₂ (Attempts.Posts V made I shows) as totals) :
    ∃ new totals', effects s' = effects s + new ∧ totals'.sum = totals.sum + new ∧
      List.Forall₂ (Attempts.Posts V made I shows) as' totals' := by
  cases hs with
  | step i hi hs =>
    rename_i a x'
    obtain ⟨_, ⟨past, now, hpast, hnow, rfl⟩, hpost⟩ := exists_post h hi
    obtain ⟨new, heffects, hnow'⟩ := hs.posts hV hnow
    obtain ⟨totals', htotals', hsum⟩ :=
      hpost { a with now := x' } new ⟨past, now + new, hpast, hnow', add_assoc ..⟩
    exact ⟨new, totals', heffects, hsum, htotals'⟩
  | restart i hi hm =>
    rename_i a main
    obtain ⟨_, ⟨past, now, hpast, hnow, rfl⟩, hpost⟩ := exists_post h hi
    have hgiven : List.Forall₂ (Process.Posts V made I shows) a.all (past ++ [now]) :=
      List.rel_append hpast (.cons hnow .nil)
    obtain ⟨totals', htotals', hsum⟩ := hpost { past := a.all, now := { rest := main } } 0
      ⟨past ++ [now], 0, hgiven, .start hV main, by rw [List.sum_append, List.sum_singleton]⟩
    exact ⟨0, totals', (add_zero _).symm, hsum, htotals'⟩

/-- The effects of a job are what its attempts have made. -/
theorem Server.AttemptedJob.posts (hV : V.Accountable effects made I shows)
    (h : V.AttemptedJob body mains s s' as) :
    ∃ totals, effects s' = effects s + totals.sum ∧
      List.Forall₂ (Attempts.Posts V made I shows) as totals := by
  suffices ∀ b : S × List (Attempts P Q R T ρ α),
      Relation.ReflTransGen (fun a b => V.AttemptStep body mains a.1 a.2 b.1 b.2)
        (s, mains.map fun main => { now := { rest := main } }) b →
      ∃ totals, effects b.1 = effects s + totals.sum ∧
        List.Forall₂ (Attempts.Posts V made I shows) b.2 totals from this (s', as) h
  intro b hb
  induction hb with
  | refl =>
    refine ⟨mains.map fun _ => 0, by simp, ?_⟩
    rw [List.forall₂_map_right_iff, List.forall₂_map_left_iff, List.forall₂_same]
    exact fun main _ => ⟨[], 0, .nil, .start hV main, (add_zero _).symm⟩
  | tail _ hstep ih =>
    obtain ⟨totals, heffects, htotals⟩ := ih
    obtain ⟨new, totals', heffects', hsum, htotals'⟩ := hstep.posts hV htotals
    exact ⟨totals', by rw [heffects', heffects, hsum, add_assoc], htotals'⟩

theorem Thread.current_query (V : Server S P Q R) (th : Thread P Q R α) :
    (th.current V).map Prod.fst = th.rest.asked := by
  cases hr : th.rest with
  | ret a => simp [current, Prog.asked, hr]
  | ask q k => simp [current, Prog.asked, hr]

theorem Process.current_query (V : Server S P Q R) (x : Process P Q R T ρ α) :
    ((x.current V).map Prod.fst).toList = x.ownCall := by
  cases hr : x.rest with
  | ret a => simp [current, ownCall, hr]
  | ask q k => cases q <;> simp [current, ownCall, hr]

section Weights

variable {f : M →+ Nat} {w : Q → Nat}

/-- No more has been made than the calls carry. -/
theorem Posted.le (hshows : ∀ c m, shows c m → f m ≤ w c.1) (hmade : ∀ q p, I q p → f (made q p) ≤ w q)
    (h : Posted made I shows log current total) :
    f total ≤ ((log.map Sigma.fst ++ (current.map Prod.fst).toList).map w).sum := by
  obtain ⟨entries, hlog, rfl⟩ := h.entries
  have hentries : f entries.sum ≤ ((log.map Sigma.fst).map w).sum := by
    clear h
    induction hlog with
    | nil => simp
    | cons hs _ ih =>
      rw [List.sum_cons, map_add, List.map_cons, List.map_cons, List.sum_cons]
      exact Nat.add_le_add (hshows _ _ hs) ih
  have hcurrent : f (madeBy made current) ≤ ((current.map Prod.fst).toList.map w).sum := by
    cases current with
    | none => simp [madeBy]
    | some c => simpa [madeBy] using hmade c.1 c.2 (h.call c.1 c.2 rfl)
  rw [map_add, List.map_append, List.sum_append]
  exact Nat.add_le_add hentries hcurrent

theorem Process.Posts.le (hshows : ∀ c m, shows c m → f m ≤ w c.1)
    (hmade : ∀ q p, I q p → f (made q p) ≤ w q) {x : Process P Q R T ρ α}
    (h : x.Posts V made I shows total) : f total ≤ (x.queries.map w).sum := by
  obtain ⟨own, totals, hown, hthreads, rfl⟩ := h
  have hmain := hown.le hshows hmade
  rw [x.current_query V] at hmain
  have hpool : f totals.sum ≤ (x.threads.map fun th => (th.queries.map w).sum).sum := by
    clear hown hmain
    generalize x.threads = ths at hthreads
    induction hthreads with
    | nil => simp
    | @cons th t ths ts ht _ ih =>
      have hth := ht.le hshows hmade
      rw [th.current_query V] at hth
      rw [List.sum_cons, map_add, List.map_cons, List.sum_cons]
      exact Nat.add_le_add hth ih
  rw [map_add, x.sum_queries w]
  exact Nat.add_le_add hmain hpool

end Weights

theorem Process.Over.underWay {x : Process P Q R T ρ α} (h : x.Over) : x.underWay = [] := by
  obtain ⟨⟨a, ha⟩, hthreads⟩ := h
  rw [Process.underWay, ownCall, ha, threadCalls, List.nil_append, List.filterMap_eq_nil_iff]
  intro th hth
  obtain ⟨b, hb⟩ := hthreads th hth
  rw [hb]
  rfl

/-- What a process has made that is over shows in its calls. -/
theorem Process.Posts.finished {x : Process P Q R T ρ α} (h : x.Posts V made I shows total)
    (hover : x.Over) :
    ∃ entries, List.Forall₂ shows x.calls entries ∧ total = entries.sum := by
  obtain ⟨own, totals, hown, hthreads, rfl⟩ := h
  obtain ⟨hidle, hpool⟩ := List.append_eq_nil_iff.mp hover.underWay
  have hmain : madeBy made (x.current V) = 0 := by
    rw [← x.current_query V] at hidle
    cases hcur : x.current V with
    | none => rfl
    | some c => simp [hcur] at hidle
  obtain ⟨entries, hlog, rfl⟩ := hown.entries
  have hths : ∃ entries', List.Forall₂ shows (x.threads.map Thread.log).flatten entries' ∧
      totals.sum = entries'.sum := by
    rw [threadCalls, List.filterMap_eq_nil_iff] at hpool
    clear hown hidle hmain hover
    generalize x.threads = ths at hthreads hpool
    induction hthreads with
    | nil => exact ⟨[], .nil, rfl⟩
    | @cons th t ths ts ht _ ih =>
      obtain ⟨rest, hrest, hsum⟩ := ih fun th' hth' => hpool th' (List.mem_cons_of_mem _ hth')
      obtain ⟨own, hown, rfl⟩ := ht.entries
      have hnone := hpool th List.mem_cons_self
      rw [← th.current_query V, Option.map_eq_none_iff] at hnone
      refine ⟨own ++ rest, List.rel_append hown hrest, ?_⟩
      rw [List.sum_cons, hsum, hnone, madeBy, add_zero, List.sum_append]
  obtain ⟨entries', hlog', hsum⟩ := hths
  refine ⟨entries ++ entries', List.rel_append hlog hlog', ?_⟩
  rw [hmain, hsum, add_zero, List.sum_append]

end Posting

end Interaction
