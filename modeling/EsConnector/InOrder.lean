import EsConnector.Alone
import EsConnector.CleanVerdict

namespace EsConnector
set_option autoImplicit true

open Interaction

variable {Id Src Line : Type} {act : Line → Action Id Src}

/-- An action that decides alone what is stored under an id of its own. -/
def Action.Sets (a : Action Id Src) : Prop := (∃ i src, a = .index (some i) src) ∨ ∃ i, a = .delete i

/-- What an action leaves under its id. -/
def Action.value : Action Id Src → Option Src
  | .index _ src => some src
  | .create _ src => some src
  | .delete _ => none

theorem inEffect_iff (h : (act line).Sets) (hi : (act line).id = some i) :
    InEffect act line st ↔ st i = (act line).value := by
  rw [InEffect]
  rcases h with ⟨j, src, he⟩ | ⟨j, he⟩ <;> rw [he] at hi ⊢ <;> cases hi <;> rfl

/-- The line that names `i` last. -/
def LastNamed (act : Line → Action Id Src) (i : Id) (lines : List Line) (last : Line) : Prop :=
  ∃ before after, lines = before ++ last :: after ∧ (act last).id = some i ∧
    ∀ line ∈ after, (act line).id ≠ some i

/-- No line names `i`. -/
def Unnamed (act : Line → Action Id Src) (i : Id) (lines : List Line) : Prop :=
  ∀ line ∈ lines, (act line).id ≠ some i

theorem LastNamed.mem (h : LastNamed act i lines last) : last ∈ lines := by
  obtain ⟨before, after, rfl, -, -⟩ := h
  simp

theorem LastNamed.named (h : LastNamed act i lines last) : (act last).id = some i := by
  obtain ⟨before, after, -, hi, -⟩ := h
  exact hi

theorem Unnamed.append (h : Unnamed act i lines) (h' : Unnamed act i lines') :
    Unnamed act i (lines ++ lines') :=
  fun line hl => (List.mem_append.mp hl).elim (h line) (h' line)

theorem LastNamed.prepend (h : LastNamed act i lines' last) (lines : List Line) :
    LastNamed act i (lines ++ lines') last := by
  obtain ⟨before, after, rfl, hi, hafter⟩ := h
  exact ⟨lines ++ before, after, by simp, hi, hafter⟩

theorem LastNamed.extend (h : LastNamed act i lines last) (h' : Unnamed act i lines') :
    LastNamed act i (lines ++ lines') last := by
  obtain ⟨before, after, rfl, hi, hafter⟩ := h
  exact ⟨before, after ++ lines', by simp, hi, Unnamed.append hafter h'⟩

/-- An id is either named by no line or named last by one. -/
theorem unnamed_or_lastNamed (act : Line → Action Id Src) (i : Id) (lines : List Line) :
    Unnamed act i lines ∨ ∃ last, LastNamed act i lines last := by
  induction lines with
  | nil => exact .inl fun line hl => absurd hl List.not_mem_nil
  | cons line lines ih =>
    rcases ih with hun | ⟨last, hlast⟩
    · by_cases hi : (act line).id = some i
      · exact .inr ⟨line, [], lines, rfl, hi, hun⟩
      · exact .inl (List.forall_mem_cons.mpr ⟨hi, hun⟩)
    · exact .inr ⟨last, hlast.prepend [line]⟩

theorem LastNamed.unique (h : LastNamed act i lines last) (h' : LastNamed act i lines last') :
    last = last' := by
  obtain ⟨before, after, rfl, hi, hafter⟩ := h
  obtain ⟨before', after', he, hi', hafter'⟩ := h'
  rcases List.append_eq_append_iff.mp he with ⟨mid, rfl, hmid⟩ | ⟨mid, rfl, hmid⟩
  · cases mid with
    | nil => exact (List.cons.inj hmid).1
    | cons line mid =>
      obtain ⟨-, rfl⟩ := List.cons.inj hmid
      exact absurd hi' (hafter last' (by simp))
  · cases mid with
    | nil => exact (List.cons.inj hmid).1.symm
    | cons line mid =>
      obtain ⟨-, rfl⟩ := List.cons.inj hmid
      exact absurd hi (hafter' last (by simp))

variable [DecidableEq Id]

theorem Applies.sets (ha : Applies (act line) st st') (h : (act line).Sets)
    (hi : (act line).id = some i) : st' = Function.update st i (act line).value := by
  rcases h with ⟨j, src, he⟩ | ⟨j, he⟩
  all_goals
    rw [he] at ha hi ⊢
    cases hi
    cases ha
    rfl

/-- A line is handled: it takes effect if and only if its item is 2xx, and the no-op statuses are
honest. -/
inductive HandlesLine (act : Line → Action Id Src) :
    Store Id Src → Line → Item → Store Id Src → Prop where
  | applied (hop : Answers (act line) item) (hok : (itemOutcome item).ok = true)
      (ha : Applies (act line) st st') : HandlesLine act st line item st'
  | refused (hop : Answers (act line) item) (hok : (itemOutcome item).ok = false)
      (hh : HonestStatus (act line) st (itemOutcome item).body.statusCode) :
      HandlesLine act st line item st

/-- An answer that gives every line its item and reports in its flag whether one failed. -/
def RepliesInFull (q : BulkRequest Line) (items : List Item) (reply : BulkReply) : Prop :=
  items.length = q.operations.length ∧ ∃ resp, reply.result = .ok resp ∧
    (q.filterPath.isProbe = true → ∃ flag, resp.errors = some flag ∧
      (flag = false → ∀ item ∈ items, (itemOutcome item).outcome ≠ .error) ∧
      (flag = true → ∃ item ∈ items, (itemOutcome item).ok = false)) ∧
    (q.filterPath.isProbe = false → resp.items = some items)

/-- An Elasticsearch that handles the lines of a request in order, never makes a send raise and
answers truthfully. -/
def orderedElasticsearch (act : Line → Action Id Src) :
    Server (Store Id Src) (List Item) (BulkRequest Line) (fun _ => BulkReply) where
  fresh _ := []
  work st q items st' items' := ∃ line item, q.operations[items.length]? = some line ∧
    HandlesLine act st line item st' ∧ items' = items ++ [item]
  reply _ := RepliesInFull

/-- All lines of a request are handled, the first one first. -/
inductive HandlesAll (act : Line → Action Id Src) :
    Store Id Src → List Line → List Item → Store Id Src → Prop where
  | nil : HandlesAll act st [] [] st
  | cons (h : HandlesLine act st line item st₁) (hr : HandlesAll act st₁ lines items st') :
      HandlesAll act st (line :: lines) (item :: items) st'

theorem HandlesAll.length_eq (h : HandlesAll act st lines items st') :
    items.length = lines.length := by
  induction h with
  | nil => rfl
  | cons _ _ ih => rw [List.length_cons, List.length_cons, ih]

theorem HandlesAll.append (h : HandlesAll act st lines items st₁)
    (h' : HandlesAll act st₁ lines' items' st') :
    HandlesAll act st (lines ++ lines') (items ++ items') st' := by
  induction h with
  | nil => exact h'
  | cons h _ ih => exact .cons h (ih h')

theorem HandlesAll.split (h : HandlesAll act st (lines ++ lines') items st') :
    ∃ items₁ items₂ st₁, items = items₁ ++ items₂ ∧ HandlesAll act st lines items₁ st₁ ∧
      HandlesAll act st₁ lines' items₂ st' := by
  induction lines generalizing st items with
  | nil => exact ⟨[], items, st, rfl, .nil, h⟩
  | cons line lines ih =>
    cases h with
    | cons h hr =>
      obtain ⟨items₁, items₂, st₁, rfl, h₁, h₂⟩ := ih hr
      exact ⟨_ :: items₁, items₂, st₁, rfl, .cons h h₁, h₂⟩

/-- A line does not touch an id it does not name. -/
theorem HandlesLine.frame (h : HandlesLine act st line item st') (hs : (act line).Sets)
    (hi : (act line).id ≠ some i) : st' i = st i := by
  cases h with
  | refused => rfl
  | applied _ _ ha => exact (ha.keyed hs).2 i hi

theorem HandlesAll.frame (h : HandlesAll act st lines items st')
    (hs : ∀ line ∈ lines, (act line).Sets) (hi : Unnamed act i lines) : st' i = st i := by
  induction h with
  | nil => rfl
  | cons h _ ih =>
    obtain ⟨hline, hlines⟩ := List.forall_mem_cons.mp hs
    obtain ⟨hne, hun⟩ := List.forall_mem_cons.mp hi
    rw [ih hlines hun, h.frame hline hne]

/-- A line whose item is no error is in effect, whether it was applied or had nothing to delete. -/
theorem HandlesLine.effect (h : HandlesLine act st line item st') (hs : (act line).Sets)
    (hi : (act line).id = some i) (hno : (itemOutcome item).outcome ≠ .error) :
    st' i = (act line).value := by
  cases h with
  | applied _ _ ha => rw [ha.sets hs hi, Function.update_self]
  | refused hop hok hh =>
    cases item with
    | none => exact absurd rfl hno
    | some item =>
      obtain ⟨op, body⟩ := item
      obtain rfl := hop op body rfl
      simp only [itemOutcome] at hok hh hno
      rcases hs with ⟨j, src, he⟩ | ⟨j, he⟩ <;> rw [he] at hno hh hi ⊢ <;> cases hi
      · simp [classifyBulkResult, hok, Action.opType] at hno
      · have hstatus : body.statusCode = 404 := by
          by_contra hne
          simp [classifyBulkResult, hok, hne, Action.opType] at hno
        exact hh hstatus

theorem handlesAll_of_works {st st' : Store Id Src} {q : BulkRequest Line}
    (h : (orderedElasticsearch act).Works q st [] st' items) :
    HandlesAll act st (q.operations.take items.length) items st' := by
  suffices ∀ a b : Store Id Src × List Item,
      HandlesAll act st (q.operations.take a.2.length) a.2 a.1 →
      Relation.ReflTransGen
        (fun a b => (orderedElasticsearch act).work a.1 q a.2 b.1 b.2) a b →
      HandlesAll act st (q.operations.take b.2.length) b.2 b.1 from
    this (st, []) (st', items) .nil h
  intro a b ha hab
  induction hab with
  | refl => exact ha
  | @tail b c _ hstep ih =>
    obtain ⟨line, item, hl, hline, hc⟩ := hstep
    rw [hc, List.length_append, List.length_singleton, List.take_add_one, hl]
    exact ih.append (.cons hline .nil)

theorem HandlesAll.works {q : BulkRequest Line} (h : HandlesAll act st lines items st')
    (done : List Line) (before : List Item) (hq : q.operations = done ++ lines)
    (hlen : before.length = done.length) :
    (orderedElasticsearch act).Works q st before st' (before ++ items) := by
  induction h generalizing done before with
  | nil =>
    rw [List.append_nil]
    exact .refl
  | @cons st line item st₁ lines items st' h _ ih =>
    have hl : q.operations[before.length]? = some line := by
      rw [hq, hlen, List.getElem?_append_right le_rfl, Nat.sub_self]
      rfl
    have hrest := ih (done ++ [line]) (before ++ [item]) (by simp [hq]) (by simp [hlen])
    rw [List.append_assoc] at hrest
    exact .head ⟨line, item, hl, h, rfl⟩ hrest

/-- A call is the handling of all its lines and one full answer. -/
theorem orderedElasticsearch_answers {st st' : Store Id Src} {q : BulkRequest Line} :
    (orderedElasticsearch act).env.answers st q reply st' ↔
      ∃ items, HandlesAll act st q.operations items st' ∧ RepliesInFull q items reply := by
  constructor
  · rintro ⟨items, hw, hr⟩
    have hall := handlesAll_of_works hw
    rw [hr.1, List.take_length] at hall
    exact ⟨items, hall, hr⟩
  · rintro ⟨items, hall, hr⟩
    exact ⟨items, hall.works [] [] rfl rfl, hr⟩

end EsConnector
