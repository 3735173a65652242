import EsConnector.Attempts

namespace Interaction
set_option autoImplicit true

variable {S P Q T ρ α β M : Type} {R : Q → Type}

/-- Work on a request that is sent more than once: one of its sends is worked on, or the request is
sent again. -/
inductive Server.ResendWork (V : Server S P Q R) (k : Nat) : S → Q → List P → S → List P → Prop where
  | work (i : Nat) (hi : ps[i]? = some p) (h : V.work s q p s' p') :
      V.ResendWork k s q ps s' (ps.set i p')
  | resend (h : ps.length ≤ k) : V.ResendWork k s q ps s (ps ++ [V.fresh q])

/-- The server behind a transport that sends each request again at most `k` times, while its sends
before go on. The last one is answered. -/
def Server.resending (V : Server S P Q R) (k : Nat) : Server S (List P) Q R where
  fresh q := [V.fresh q]
  work := V.ResendWork k
  reply s q ps r := ∃ p, ps.getLast? = some p ∧ V.reply s q p r

section Keeps

variable {V : Server S P Q R} {demands : Q → Prop} {K : S → Prop} {I : S → Q → P → Prop}
  {G : S → Call Q R → Prop}

/-- What a server keeps it keeps behind any transport. -/
theorem Server.Keeps.resending (hK : V.Keeps demands K I G) (k : Nat) :
    (V.resending k).Keeps demands K (fun s q ps => ∀ p ∈ ps, I s q p) G where
  state s q ps s' ps' hq hw hs := by
    cases hw with
    | work i hi h => exact hK.state _ _ _ _ _ hq h hs
    | resend => exact hs
  fresh s q hq p hp := by
    obtain rfl := List.mem_singleton.mp hp
    exact hK.fresh s q hq
  work s q ps s' ps' hq hw hI p hp := by
    cases hw with
    | work i hi h =>
      rcases List.mem_or_eq_of_mem_set hp with hold | rfl
      · exact hK.others _ _ _ _ _ _ _ hq hq h (hI p hold)
      · exact hK.work _ _ _ _ _ hq h (hI _ (List.mem_of_getElem? hi))
    | resend =>
      rcases List.mem_append.mp hp with hold | hnew
      · exact hI p hold
      · obtain rfl := List.mem_singleton.mp hnew
        exact hK.fresh s q hq
  others s q ps s' ps' q' ps'' hq hq' hw hI p hp := by
    cases hw with
    | work i hi h => exact hK.others _ _ _ _ _ _ _ hq hq' h (hI p hp)
    | resend => exact hI p hp
  reply s q ps r hq hr hI := by
    obtain ⟨p, hlast, hr⟩ := hr
    exact hK.reply s q p r hq hr (hI p (List.mem_of_getLast? hlast))
  finished s q ps s' ps' c hq hw hG := by
    cases hw with
    | work i hi h => exact hK.finished _ _ _ _ _ c hq h hG
    | resend => exact hG

theorem Process.Keeping.calls {x : Process P Q R T ρ α} (h : x.Keeping V I G s) :
    ∀ c ∈ x.calls, G s c := by
  intro c hc
  rcases Process.mem_calls.mp hc with hlog | ⟨th, hth, hlog⟩
  · exact h.log c hlog
  · exact (h.threads th hth).log c hlog

end Keeps

variable [AddCommMonoid M]

theorem sum_map_set {f : P → M} {ps : List P} (hi : ps[i]? = some p) (h : f p' = f p + new) :
    ((ps.set i p').map f).sum = (ps.map f).sum + new := by
  induction ps generalizing i with
  | nil => simp at hi
  | cons p₀ ps ih =>
    cases i with
    | zero =>
      cases hi
      rw [List.set_cons_zero, List.map_cons, List.map_cons, List.sum_cons, List.sum_cons, h,
        add_right_comm]
    | succ i =>
      rw [List.set_cons_succ, List.map_cons, List.map_cons, List.sum_cons, List.sum_cons, ih hi,
        add_assoc]

/-- What the sends of a call have made: those before the last one, and the one that was answered. -/
def Resent (made : Q → P → M) (I : Q → P → Prop) (shows : Call Q R → M → Prop) (k : Nat)
    (c : Call Q R) (m : M) : Prop :=
  ∃ (before : List P) (last : M), before.length ≤ k ∧ (∀ p ∈ before, I c.1 p) ∧ shows c last ∧
    m = (before.map (made c.1)).sum + last

/-- A server that keeps its books keeps them behind any transport. -/
theorem Server.Accountable.resending {V : Server S P Q R} {effects : S → M} {made : Q → P → M}
    {I : Q → P → Prop} {shows : Call Q R → M → Prop} (hV : V.Accountable effects made I shows)
    (k : Nat) : (V.resending k).Accountable effects (fun q ps => (ps.map (made q)).sum)
      (fun q ps => ps.length ≤ k + 1 ∧ ∀ p ∈ ps, I q p) (Resent made I shows k) where
  fresh q := by
    obtain ⟨hI, hmade⟩ := hV.fresh q
    refine ⟨⟨Nat.le_add_left 1 k, fun p hp => ?_⟩, ?_⟩
    · obtain rfl := List.mem_singleton.mp hp
      exact hI
    · exact (List.sum_singleton ..).trans hmade
  work s q ps s' ps' hw h := by
    obtain ⟨hlen, hI⟩ := h
    cases hw with
    | work i hi hw =>
      obtain ⟨hI', new, heffects, hmade⟩ := hV.work _ _ _ _ _ hw (hI _ (List.mem_of_getElem? hi))
      refine ⟨⟨by rwa [List.length_set], fun p hp => ?_⟩, new, heffects, sum_map_set hi hmade⟩
      rcases List.mem_or_eq_of_mem_set hp with hold | rfl
      · exact hI p hold
      · exact hI'
    | resend hroom =>
      obtain ⟨hfresh, hmade⟩ := hV.fresh q
      refine ⟨⟨?_, fun p hp => ?_⟩, 0, (add_zero _).symm, ?_⟩
      · rw [List.length_append]
        exact Nat.add_le_add_right hroom 1
      · rcases List.mem_append.mp hp with hold | hnew
        · exact hI p hold
        · obtain rfl := List.mem_singleton.mp hnew
          exact hfresh
      · rw [List.map_append, List.sum_append, List.map_singleton, List.sum_singleton, hmade]
  reply s q ps r hr h := by
    obtain ⟨hlen, hI⟩ := h
    obtain ⟨p, hlast, hr⟩ := hr
    obtain ⟨before, rfl⟩ : ∃ before, ps = before ++ [p] :=
      ⟨_, (List.dropLast_append_getLast? p hlast).symm⟩
    refine ⟨before, made q p, ?_, ?_, hV.reply s q p r hr (hI p ?_), ?_⟩
    · rw [List.length_append, List.length_singleton] at hlen
      exact Nat.le_of_succ_le_succ hlen
    · exact fun p' hp' => hI p' (List.mem_append_left _ hp')
    · exact List.mem_append_right _ List.mem_cons_self
    · rw [List.map_append, List.sum_append, List.map_singleton, List.sum_singleton]

end Interaction
