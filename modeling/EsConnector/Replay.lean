import Mathlib.Logic.Relation

namespace Replay
set_option autoImplicit true

variable {Key W : Type}

/-- Write the values a patch names over a store. -/
def overlay (p : Key → Option W) (st : Key → W) : Key → W := fun i => (p i).getD (st i)

/-- The first patches of a sequence, one over the other. -/
def overlays (patch : Nat → Key → Option W) : Nat → (Key → W) → Key → W
  | 0, st => st
  | k + 1, st => overlay (patch k) (overlays patch k st)

/-- A consumer that delivers patches at least once each: while it stands at a patch only the keys
of that patch change, in any way, and it moves on once all of them are as the patch wants them. -/
inductive Step (patch : Nat → Key → Option W) : Nat × (Key → W) → Nat × (Key → W) → Prop where
  | write (h : ∀ i, patch k i = none → st' i = st i) : Step patch (k, st) (k, st')
  | commit (h : ∀ i w, patch k i = some w → st i = w) : Step patch (k, st) (k + 1, st)

/-- The store agrees with the patches up to the checkpoint outside the current patch. -/
def Agrees (patch : Nat → Key → Option W) (st₀ : Key → W) (c : Nat × (Key → W)) : Prop :=
  ∀ i, patch c.1 i = none → c.2 i = overlays patch c.1 st₀ i

variable {patch : Nat → Key → Option W} {st₀ : Key → W} {c c' : Nat × (Key → W)}

/-- Outside the patch a step leaves the store alone, and inside it a commit has put it in place. -/
theorem Step.overlays_eq (h : Step patch (k, st) (k + 1, st'))
    (hst : Agrees patch st₀ (k, st)) : st' = overlays patch (k + 1) st₀ := by
  cases h with
  | commit h =>
    funext i
    rw [overlays, overlay]
    cases hp : patch k i with
    | none => exact hst i hp
    | some w => exact h i w hp

theorem Step.agrees (h : Step patch c c') (hc : Agrees patch st₀ c) : Agrees patch st₀ c' := by
  cases h with
  | write h => exact fun i hi => (h i hi).trans (hc i hi)
  | commit h => exact fun i _ => congrFun ((Step.commit h).overlays_eq hc) i

end Replay
