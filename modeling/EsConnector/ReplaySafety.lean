import EsConnector.StreamPolicies

namespace EsConnector
set_option autoImplicit true

open Interaction

variable {Id Src Line : Type} [DecidableEq Id] {act : Line → Action Id Src}

section Invariant

variable [NdjsonLine Line] {rules : EsRules} {cfg : EsWriteConfig} {hasOnBatch : Bool}
  {callback : Callback} {batch : Nat → List (Option Line)} {σ σ' : StreamState Id Src Line}
  {st₀ : Store Id Src}

/-- What the stream has made of the store so far. -/
def StreamState.progress (σ : StreamState Id Src Line) : Nat × Store Id Src :=
  (σ.checkpoint, σ.es.store)

def patches (act : Line → Action Id Src) (batch : Nat → List (Option Line)) :
    Nat → Id → Option (Option Src) :=
  fun k => patchOf act (batch k).reduceOption

omit [NdjsonLine Line] in
/-- A consumer that excuses nothing writes the current patch, or has written it. -/
theorem Passing.replays (hk : ∀ k, Keyed act (batch k).reduceOption) {v v' : StreamView Id Src}
    (h : Passing act index hasOnBatch .raise batch v v') :
    Replay.Step (patches act batch) (v.checkpoint, v.store) (v'.checkpoint, v'.store) := by
  cases h with
  | stay hu _ => exact .write fun i hi => hu i (patchOf_eq_none.mp hi)
  | pass _ hdone =>
    exact .commit fun i w hw => InEffect.of_patch (hk _) (hdone not_false) hw

/-- A micro-batch that has not been attempted has just become the current one. -/
theorem StreamStep.untried (hs : StreamStep act rules cfg hasOnBatch callback batch σ σ')
    (h₀ : σ'.attempts = 0) :
    σ'.attempt = none ∧ σ'.es = σ.es ∧ (σ'.checkpoint = σ.checkpoint + 1 ∨
      σ.attempts = 0 ∧ σ'.checkpoint = σ.checkpoint) ∨
    σ.attempts = 0 ∧ σ.attempt ≠ none := by
  cases hs with
  | start hnone => cases h₀
  | giveUp => exact .inl ⟨rfl, rfl, .inr ⟨h₀, rfl⟩⟩
  | commit ha => exact .inl ⟨rfl, rfl, .inl rfl⟩
  | isEmpty ha | writeStarts ha | job ha | writeEnds ha | writeRaises ha | onBatch ha | log ha =>
    exact .inr ⟨h₀, by simp [ha]⟩

/-- What a run of the stream keeps. -/
structure StreamInvariant (act : Line → Action Id Src) (rules : EsRules) (cfg : EsWriteConfig)
    (hasOnBatch : Bool) (callback : Callback) (batch : Nat → List (Option Line)) (st₀ : Store Id Src)
    (σ : StreamState Id Src Line) : Prop where
  sound : ∃ events, PolicySound act rules cfg hasOnBatch .raise callback batch ⟨σ, events⟩
  agrees : Replay.Agrees (patches act batch) st₀ σ.progress
  untried : σ.attempts = 0 → σ.attempt = none ∧
    σ.es.store = Replay.overlays (patches act batch) σ.checkpoint st₀

theorem Callback.Unmasking.unmaskingFor_raise (h : callback.Unmasking index) :
    callback.UnmaskingFor .raise index :=
  fun batchId _ result' hresult hpass => h batchId _ result' hresult hpass

/-- A step of the stream is a step of the one with the policy that raises, which refines the
consumer of patches. -/
theorem StreamInvariant.step (hhonest : rules.honest = true)
    (hcallback : callback.Unmasking cfg.index)
    (hk : ∀ k, Keyed act (batch k).reduceOption)
    (h : StreamInvariant act rules cfg hasOnBatch callback batch st₀ σ)
    (hs : StreamStep act rules cfg hasOnBatch callback batch σ σ') :
    StreamInvariant act rules cfg hasOnBatch callback batch st₀ σ' := by
  obtain ⟨events, hsound⟩ := h.sound
  obtain ⟨events', hpolicy⟩ := policyStep_raise_iff.mpr hs
  obtain ⟨hsound', hpassing⟩ :=
    hpolicy.refines hhonest hcallback.unmaskingFor_raise hk hsound
  have hreplay : Replay.Step (patches act batch) σ.progress σ'.progress := hpassing.replays hk
  refine ⟨⟨events', hsound'⟩, hreplay.agrees h.agrees, ?_⟩
  intro h₀
  rcases hs.untried h₀ with ⟨hnone, hes, hnew | ⟨hold, hsame⟩⟩ | ⟨hold, hsome⟩
  · refine ⟨hnone, ?_⟩
    rw [StreamState.progress, StreamState.progress, hnew] at hreplay
    rw [hnew]
    exact hreplay.overlays_eq h.agrees
  · rw [hes, hsame]
    exact ⟨hnone, (h.untried hold).2⟩
  · exact absurd (h.untried hold).1 hsome

/-- The store is what the micro-batches before the checkpoint, each applied once and in order, make
of the initial one, except for documents of the micro-batch that is being attempted. -/
def StreamedSafely (act : Line → Action Id Src) (batch : Nat → List (Option Line))
    (st₀ : Store Id Src) (σ : StreamState Id Src Line) : Prop :=
  (∀ i, (∀ line ∈ (batch σ.checkpoint).reduceOption, (act line).id ≠ some i) →
    σ.es.store i = afterBatches act batch σ.checkpoint st₀ i) ∧
  (σ.attempts = 0 → σ.es.store = afterBatches act batch σ.checkpoint st₀)

/-- With `on_error='raise'` a stream loses nothing and replays safely in every state of every run,
as long as its callback does not make a failed result look clean. -/
theorem streaming_replays_safely (act : Line → Action Id Src) (hhonest : rules.honest = true)
    (cfg : EsWriteConfig) (hasOnBatch : Bool) (callback : Callback)
    (hcallback : callback.Unmasking cfg.index) (batch : Nat → List (Option Line))
    (hk : ∀ k, Keyed act (batch k).reduceOption) (es : EsState Id Src Line)
    (σ : StreamState Id Src Line)
    (hrun : Relation.ReflTransGen (StreamStep act rules cfg hasOnBatch callback batch) { es } σ) :
    StreamedSafely act batch es.store σ := by
  have hinv : StreamInvariant act rules cfg hasOnBatch callback batch es.store σ := by
    induction hrun with
    | refl =>
      exact ⟨⟨[], fun a ha => (by cases ha)⟩, fun _ _ => rfl, fun _ => ⟨rfl, rfl⟩⟩
    | tail _ hs ih => exact ih.step hhonest hcallback hk hs
  rw [StreamedSafely, afterBatches_overlays hk]
  exact ⟨fun i hi => hinv.agrees i (patchOf_eq_none.mpr hi), fun h₀ => (hinv.untried h₀).2⟩

theorem StreamStep.jobs {parts : List (Partition Line)} {xs xs' : List (WriterProcess Line)}
    (ha : σ.attempt = some ⟨rest, some (parts, xs)⟩)
    (hs : (elasticsearch act rules).JobSteps (shipOne cfg) (parts.map (Partition.main cfg))
      σ.es xs es xs') :
    Relation.ReflTransGen (StreamStep act rules cfg hasOnBatch callback batch) σ
      { σ with es, attempt := some ⟨rest, some (parts, xs')⟩ } := by
  let at_ (a : EsState Id Src Line × List (WriterProcess Line)) : StreamState Id Src Line :=
    { σ with es := a.1, attempt := some ⟨rest, some (parts, a.2)⟩ }
  have h : Relation.ReflTransGen (StreamStep act rules cfg hasOnBatch callback batch)
      (at_ (σ.es, xs)) (at_ (es, xs')) :=
    hs.lift at_ fun a b hab => .job rfl hab
  dsimp only [at_] at h
  rwa [← ha] at h

end Invariant

/-- A micro-batch of one line whose first attempt is cut short after its send. -/
theorem streaming_replays_safely_after_crash :
    ∃ σ : StreamState Nat String String, σ.checkpoint = 1 ∧
      StreamedSafely (fun line => .index (some 0) line) (fun k => if k = 0 then [some "a"] else [])
        (fun _ => none) σ := by
  let act : String → Action Nat String := fun line => .index (some 0) line
  let batch : Nat → List (Option String) := fun k => if k = 0 then [some "a"] else []
  let item : Item := some (.index, { status := some 201 })
  have hwork (es : EsState Nat String String) :
      Handles act ⟨true, true, true⟩ es ⟨["a"], .errors⟩ [none] _ [some item] :=
    .applied_single (fun op body he => by cases Option.some_inj.mp he; rfl) rfl .index
  have hreply : Replies ⟨true, true, true⟩ (⟨["a"], .errors⟩ : BulkRequest String) [some item]
      { result := .ok { errors := some false } } :=
    ⟨[item], rfl, rfl, fun _ _ => by simp [item, itemOutcome, isOk, ItemBody.statusCode],
      fun h => absurd h.symm Bool.false_ne_true⟩
  have hparts : (([{ batches := [[some "a"]] }] : List (Partition String)).flatMap
      Partition.rows).Perm [some "a"] := .refl _
  have hkeyed (k : Nat) : Keyed act (batch k).reduceOption := by
    cases k with
    | zero => exact ⟨fun _ _ => .inl ⟨0, _, rfl⟩, List.nodup_singleton _⟩
    | succ k => exact ⟨fun _ h => absurd h List.not_mem_nil, List.nodup_nil⟩
  obtain ⟨σ, hrun, hdone⟩ : ∃ σ : StreamState Nat String String, Relation.ReflTransGen
      (StreamStep act ⟨true, true, true⟩ { hosts := "h", idField := some "id" } false
        (fun _ _ _ => False) batch) { es := ⟨fun _ => none, []⟩ } σ ∧ σ.checkpoint = 1 :=
    ⟨_, ((Relation.ReflTransGen.refl.tail (.start rfl)).tail (.isEmpty rfl)).tail
      (.writeStarts rfl hparts)
      |>.trans (StreamStep.jobs rfl (JobSteps.single rfl rfl (hwork _) hreply))
      |>.tail .giveUp |>.tail (.start rfl) |>.tail (.isEmpty rfl)
      |>.tail (.writeStarts rfl hparts)
      |>.trans (StreamStep.jobs rfl (JobSteps.single rfl rfl (hwork _) hreply))
      |>.tail (.writeEnds rfl (.cons rfl .nil)) |>.tail (.commit rfl), rfl⟩
  exact ⟨σ, hdone, streaming_replays_safely act rfl _ _ _ (fun _ _ _ h => h.elim) batch hkeyed _ σ
    hrun⟩

/-- A callback that sets `errors` to 0 hides a rejected line from `reconcile_or_raise`: the
checkpoint moves past a micro-batch that is not in the index. -/
theorem streaming_loses_behind_callback :
    ∃ σ : StreamState Nat String String,
      Relation.ReflTransGen
        (StreamStep (fun line => .index (some 0) line) ⟨true, true, true⟩
          { hosts := "h", idField := some "id", bypassFastPath := true } true
          (fun _ result reply => reply = .ok { result with errors := some 0 })
          (fun k => if k = 0 then [some "a"] else [])) { es := ⟨fun _ => none, []⟩ } σ ∧
      σ.checkpoint = 1 ∧
      ¬StreamedSafely (fun line => .index (some 0) line) (fun k => if k = 0 then [some "a"] else [])
        (fun _ => none) σ := by
  let act : String → Action Nat String := fun line => .index (some 0) line
  let es : EsState Nat String String := ⟨fun _ => none, []⟩
  let item : Item := some (.index, { status := some 400 })
  have hwork : Handles act ⟨true, true, true⟩ es ⟨["a"], .items⟩ [none] es [some item] :=
    .refused_single (fun op body he => by cases Option.some_inj.mp he; rfl) rfl fun _ => trivial
  have hreply : Replies ⟨true, true, true⟩ (⟨["a"], .items⟩ : BulkRequest String) [some item]
      { result := .ok { items := some [item] } } :=
    ⟨[item], rfl, rfl, fun h => absurd h Bool.false_ne_true,
      fun _ => ⟨_, rfl, List.prefix_refl _, fun _ => rfl⟩⟩
  have hparts : (([{ batches := [[some "a"]] }] : List (Partition String)).flatMap
      Partition.rows).Perm [some "a"] := .refl _
  refine ⟨_, ((Relation.ReflTransGen.refl.tail (.start rfl)).tail (.isEmpty rfl)).tail
    (.writeStarts rfl hparts) |>.trans (StreamStep.jobs rfl (JobSteps.single rfl rfl hwork hreply))
    |>.tail (.writeEnds rfl (.cons rfl .nil)) |>.tail (.onBatch rfl rfl) |>.tail (.commit rfl),
    rfl, ?_⟩
  rintro ⟨-, hexact⟩
  exact absurd (congrFun (hexact rfl) 0) (by decide)

end EsConnector
