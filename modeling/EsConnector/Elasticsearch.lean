import Mathlib.Data.Set.Card
import EsConnector.Pool
import EsConnector.BulkResponse

namespace EsConnector
set_option autoImplicit true

open Interaction

/-- What a line asks of Elasticsearch. Without an `_id` an index request gets a new one. -/
inductive Action (Id Src : Type) where
  | index (id : Option Id) (source : Src)
  | create (id : Id) (source : Src)
  | delete (id : Id)
deriving DecidableEq, Repr

def Action.opType {Id Src : Type} : Action Id Src → OpType
  | .index .. => .index
  | .create .. => .create
  | .delete _ => .delete

/-- The documents of an index. -/
abbrev Store (Id Src : Type) : Type := Id → Option Src

variable {Id Src Line : Type} [DecidableEq Id]

/-- An action that takes effect. -/
inductive Applies : Action Id Src → Store Id Src → Store Id Src → Prop where
  | index : Applies (.index (some i) src) st (Function.update st i (some src))
  | auto (h : st i = none) : Applies (.index none src) st (Function.update st i (some src))
  | create (h : st i = none) : Applies (.create i src) st (Function.update st i (some src))
  | delete : Applies (.delete i) st (Function.update st i none)

/-- An action that can only add a document. -/
def Action.Adds {Id Src : Type} : Action Id Src → Prop
  | .index none _ => True
  | .create _ _ => True
  | _ => False

/-- The ids that are new since `st₀`. -/
def newIds (st₀ st : Store Id Src) : Set Id := {i | st₀ i = none ∧ st i ≠ none}

/-- Documents have only been added since `st₀`, and there are `n` of them. -/
structure Grown (st₀ st : Store Id Src) (n : Nat) : Prop where
  kept : ∀ i, st₀ i ≠ none → st i = st₀ i
  finite : (newIds st₀ st).Finite
  card : (newIds st₀ st).ncard = n

omit [DecidableEq Id] in
theorem Grown.refl (st : Store Id Src) : Grown st st 0 := by
  have hempty : newIds st st = ∅ := Set.eq_empty_of_forall_notMem fun i hi => hi.2 hi.1
  refine ⟨fun _ _ => rfl, ?_, ?_⟩
  · rw [hempty]
    exact Set.finite_empty
  · rw [hempty, Set.ncard_empty]

theorem Action.Adds.fresh {a : Action Id Src} {st st' : Store Id Src} (hadds : a.Adds)
    (h : Applies a st st') :
    ∃ i src, st i = none ∧ st' = Function.update st i (some src) := by
  cases h with
  | index => exact absurd hadds id
  | auto h => exact ⟨_, _, h, rfl⟩
  | create h => exact ⟨_, _, h, rfl⟩
  | delete => exact absurd hadds id

theorem Grown.step {a : Action Id Src} {st₀ st st' : Store Id Src} (h : Grown st₀ st n)
    (hadds : a.Adds) (ha : Applies a st st') : Grown st₀ st' (n + 1) := by
  obtain ⟨i, src, hi, rfl⟩ := hadds.fresh ha
  have hi₀ : st₀ i = none := by
    by_contra hne
    rw [h.kept i hne] at hi
    exact hne hi
  have hnew : newIds st₀ (Function.update st i (some src)) = insert i (newIds st₀ st) := by
    ext j
    by_cases hj : j = i
    · subst hj
      simp [newIds, hi₀]
    · simp [newIds, hj]
  refine ⟨?_, ?_, ?_⟩
  · intro j hj
    have hne : j ≠ i := fun he => hj (he ▸ hi₀)
    rw [Function.update_of_ne hne]
    exact h.kept j hj
  · rw [hnew]
    exact h.finite.insert i
  · rw [hnew, Set.ncard_insert_of_notMem (fun hm => hm.2 hi) h.finite, h.card]

/-- A delete answers 404 only for an absent document, a create 409 only for a present one. -/
def HonestStatus (a : Action Id Src) (st : Store Id Src) (status : Int) : Prop :=
  match a with
  | .index .. => True
  | .create i _ => status = 409 → st i ≠ none
  | .delete i => status = 404 → st i = none

/-- The index, and the lines that have taken effect so far. -/
structure EsState (Id Src Line : Type) where
  store : Store Id Src
  applied : List Line := []

/-- The assumptions about Elasticsearch that differ between results: whether a send may raise,
whether a response has an item for every line, and whether the no-op statuses are honest. -/
structure EsRules where
  mayRaise : Bool
  allItems : Bool
  honest : Bool

/-- An item answers for a line under the key of its action, unless it is the empty item. -/
def Answers (a : Action Id Src) (item : Item) : Prop :=
  ∀ op body, item = some (op, body) → op = a.opType

/-- The items of a request so far, `none` for a line that has not been handled. -/
abbrev Handled : Type := List (Option Item)

/-- Elasticsearch handles the lines of a request one by one in any order. A line takes effect if
and only if its item is 2xx. -/
inductive Handles (act : Line → Action Id Src) (rules : EsRules) :
    EsState Id Src Line → BulkRequest Line → Handled → EsState Id Src Line → Handled → Prop where
  | applied (hl : q.operations[done.length]? = some line) (hop : Answers (act line) item)
      (hok : (itemOutcome item).ok = true) (ha : Applies (act line) s.store st) :
      Handles act rules s q (done ++ none :: rest) ⟨st, s.applied ++ [line]⟩
        (done ++ some item :: rest)
  | refused (hl : q.operations[done.length]? = some line) (hop : Answers (act line) item)
      (hok : (itemOutcome item).ok = false)
      (hh : rules.honest = true →
        HonestStatus (act line) s.store (itemOutcome item).body.statusCode) :
      Handles act rules s q (done ++ none :: rest) s (done ++ some item :: rest)

/-- A call either raises, whatever has been handled by then, or answers truthfully once every line
has been handled. -/
def Replies (rules : EsRules) (q : BulkRequest Line) (progress : Handled) (reply : BulkReply) :
    Prop :=
  match reply.result with
  | .error _ => rules.mayRaise = true
  | .ok resp => ∃ done : List Item, progress = done.map some ∧
      done.length = q.operations.length ∧
      (q.filterPath.isProbe = true → resp.errors = some false →
        ∀ item ∈ done, (itemOutcome item).ok = true) ∧
      (q.filterPath.isProbe = false → ∃ items, resp.items = some items ∧
        items <+: done ∧ (rules.allItems = true → items = done))

def elasticsearch (act : Line → Action Id Src) (rules : EsRules) :
    Server (EsState Id Src Line) Handled (BulkRequest Line) (fun _ => BulkReply) where
  fresh q := List.replicate q.operations.length none
  work := Handles act rules
  reply _ := Replies rules

/-- The lines of a request that have taken effect. -/
def appliedOf (ops : List Line) (progress : Handled) : List Line :=
  ((ops.zip progress).filter fun p => p.2.any fun item => (itemOutcome item).ok).map Prod.fst

theorem appliedOf_append (h : ops.length = progress.length) :
    appliedOf (ops ++ ops') (progress ++ progress') =
      appliedOf (ops : List Line) progress ++ appliedOf ops' progress' := by
  unfold appliedOf
  rw [List.zip_append h, List.filter_append, List.map_append]

theorem appliedOf_cons (line : Line) (ops : List Line) (b : Option Item) (progress : Handled) :
    appliedOf (line :: ops) (b :: progress) =
      (if b.any fun item => (itemOutcome item).ok then [line] else []) ++
        appliedOf ops progress := by
  unfold appliedOf
  rw [List.zip_cons_cons, List.filter_cons]
  split <;> simp_all

theorem appliedOf_replicate (ops : List Line) :
    appliedOf ops (List.replicate ops.length none) = [] := by
  induction ops with
  | nil => rfl
  | cons line ops ih =>
    rw [List.length_cons, List.replicate_succ, appliedOf_cons, ih]
    rfl

/-- Splitting a request at the line that is handled. -/
theorem split_at_line {ops : List Line} {n : Nat} (hl : ops[n]? = some line) :
    ∃ ops₁ ops₂ : List Line, ops = ops₁ ++ line :: ops₂ ∧ ops₁.length = n := by
  obtain ⟨hlt, rfl⟩ := List.getElem?_eq_some_iff.mp hl
  refine ⟨ops.take n, ops.drop (n + 1), ?_, ?_⟩
  · rw [← List.drop_eq_getElem_cons hlt, List.take_append_drop]
  · rw [List.length_take]
    omega

section Handling

variable {act : Line → Action Id Src} {rules : EsRules} {s s' : EsState Id Src Line}
  {q : BulkRequest Line} {p p' : Handled}

/-- What one step of handling does: at most one line, a line of the request, takes effect. -/
theorem Handles.appliedOf (h : Handles act rules s q p s' p')
    (hlen : p.length = q.operations.length) :
    p'.length = q.operations.length ∧
      ∃ new, s'.applied = s.applied ++ new ∧
        (EsConnector.appliedOf q.operations p ++ new).Perm
          (EsConnector.appliedOf q.operations p') := by
  cases h with
  | applied hl hop hok ha =>
    obtain ⟨ops₁, ops₂, hops, hlen₁⟩ := split_at_line hl
    refine ⟨by simpa using hlen, [_], rfl, ?_⟩
    rw [hops, appliedOf_append hlen₁, appliedOf_append hlen₁, appliedOf_cons, appliedOf_cons]
    simp only [Option.any_none, Option.any_some, hok, if_true, Bool.false_eq_true, if_false,
      List.nil_append, List.append_assoc]
    exact List.Perm.append_left _ List.perm_append_comm
  | refused hl hop hok hh =>
    obtain ⟨ops₁, ops₂, hops, hlen₁⟩ := split_at_line hl
    refine ⟨by simpa using hlen, [], by simp, ?_⟩
    rw [hops, appliedOf_append hlen₁, appliedOf_append hlen₁, appliedOf_cons, appliedOf_cons]
    simp [hok]

theorem Handles.applied_single {line : Line} (hop : Answers (act line) item)
    (hok : (itemOutcome item).ok = true) (ha : Applies (act line) s.store st) :
    Handles act rules s ⟨[line], fp⟩ [none] ⟨st, s.applied ++ [line]⟩ [some item] := by
  have h : Handles act rules s ⟨[line], fp⟩ ([] ++ none :: []) ⟨st, s.applied ++ [line]⟩
      ([] ++ some item :: []) := .applied rfl hop hok ha
  exact h

theorem Handles.refused_single {line : Line} (hop : Answers (act line) item)
    (hok : (itemOutcome item).ok = false)
    (hh : rules.honest = true →
      HonestStatus (act line) s.store (itemOutcome item).body.statusCode) :
    Handles act rules s ⟨[line], fp⟩ [none] s [some item] := by
  have h : Handles act rules s ⟨[line], fp⟩ ([] ++ none :: []) s ([] ++ some item :: []) :=
    .refused rfl hop hok hh
  exact h

/-- A request of one line that is handled and then answered. -/
theorem Steps.single {k : BulkReply → Prog (BulkRequest Line) (fun _ => BulkReply) α}
    {line : Line} (hw : Handles act rules s ⟨[line], fp⟩ [none] s' [some item])
    (hr : Replies rules ⟨[line], fp⟩ [some item] reply) :
    (elasticsearch act rules).Steps s ⟨.ask ⟨[line], fp⟩ k, none, log⟩ s'
      ⟨k reply, none, log ++ [⟨⟨[line], fp⟩, reply⟩]⟩ :=
  .head (.work hw) (.head (.reply hr) (.refl ..))

end Handling

end EsConnector
