import EsConnector.CleanVerdict
import EsConnector.Replay
import EsConnector.Stream

namespace EsConnector
set_option autoImplicit true

open Interaction

variable {Id Src Line : Type} [DecidableEq Id] {act : Line → Action Id Src} {lines : List Line}

/-- What an action makes of the store. -/
def Action.run : Action Id Src → Store Id Src → Store Id Src
  | .index (some i) src, st => Function.update st i (some src)
  | .index none _, st => st
  | .create i src, st => if st i = none then Function.update st i (some src) else st
  | .delete i, st => Function.update st i none

/-- The lines of a batch applied once each in order. -/
def applyLines (act : Line → Action Id Src) (lines : List Line) (st : Store Id Src) :
    Store Id Src :=
  lines.foldl (fun st line => (act line).run st) st

/-- What a batch wants of the documents it names. -/
def patchOf (act : Line → Action Id Src) (lines : List Line) : Id → Option (Option Src) := fun i =>
  (lines.find? fun line => (act line).id = some i).map fun line =>
    match act line with
    | .index _ src => some src
    | .create _ src => some src
    | .delete _ => none

theorem patchOf_eq_none : patchOf act lines i = none ↔ ∀ line ∈ lines, (act line).id ≠ some i := by
  simp [patchOf]

theorem InEffect.of_patch (hk : Keyed act lines) (h : ∀ line ∈ lines, InEffect act line st)
    (hp : patchOf act lines i = some w) : st i = w := by
  obtain ⟨line, hfind, rfl⟩ := Option.map_eq_some_iff.mp hp
  have hid : (act line).id = some i := by simpa using List.find?_some hfind
  have hline := List.mem_of_find?_eq_some hfind
  have hin := h line hline
  rcases hk.action line hline with ⟨j, src, he⟩ | ⟨j, he⟩
  all_goals
    simp only [InEffect, he, Action.id] at hin hid ⊢
    cases hid
    exact hin

theorem applyLines_overlay (hk : Keyed act lines) (st : Store Id Src) :
    applyLines act lines st = Replay.overlay (patchOf act lines) st := by
  induction lines generalizing st with
  | nil => rfl
  | cons line rest ih =>
    have hrest : Keyed act rest := hk.sublist (List.sublist_cons_self line rest)
    have hnot : (act line).id ∉ rest.map fun line => (act line).id :=
      (List.nodup_cons.mp hk.distinct).1
    rw [applyLines, List.foldl_cons]
    change applyLines act rest _ = _
    rw [ih hrest]
    funext i
    simp only [Replay.overlay]
    by_cases hid : (act line).id = some i
    · have hnone : patchOf act rest i = none := by
        rw [patchOf_eq_none]
        intro other ho he
        exact hnot (List.mem_map.mpr ⟨other, ho, he.trans hid.symm⟩)
      have hfind : (line :: rest).find? (fun line => (act line).id = some i) = some line := by
        rw [List.find?_cons, decide_eq_true hid]
      rw [hnone, Option.getD_none, patchOf, hfind, Option.map_some, Option.getD_some]
      rcases hk.action line List.mem_cons_self with ⟨j, src, he⟩ | ⟨j, he⟩
      all_goals
        simp only [he, Action.id] at hid
        cases hid
        simp [he, Action.run]
    · have hfind : patchOf act (line :: rest) i = patchOf act rest i := by
        simp only [patchOf, List.find?_cons, decide_eq_false hid]
      rw [hfind]
      congr 1
      rcases hk.action line List.mem_cons_self with ⟨j, src, he⟩ | ⟨j, he⟩
      all_goals
        simp only [he, Action.id] at hid
        rw [he, Action.run, Function.update_of_ne fun hij => hid (congrArg some hij.symm)]

/-- The store after the first batches of a stream, each applied once. -/
def afterBatches (act : Line → Action Id Src) (batch : Nat → List (Option Line)) :
    Nat → Store Id Src → Store Id Src
  | 0, st => st
  | k + 1, st => applyLines act (batch k).reduceOption (afterBatches act batch k st)

theorem afterBatches_overlays {batch : Nat → List (Option Line)}
    (hk : ∀ k, Keyed act (batch k).reduceOption) (k : Nat) (st : Store Id Src) :
    afterBatches act batch k st =
      Replay.overlays (fun k => patchOf act (batch k).reduceOption) k st := by
  induction k with
  | zero => rfl
  | succ k ih => rw [afterBatches, applyLines_overlay (hk k), ih, Replay.overlays]

/-- An attempt at a micro-batch: what is left of `_foreach_batch` and, while its write runs, the
Spark job with its partitions. -/
structure Attempt (Line : Type) where
  rest : StreamProg (Except BatchError Unit)
  job : Option (List (Partition Line) × List (WriterProcess Line)) := none

/-- A streaming query: its checkpoint is the number of micro-batches that are done. -/
structure StreamState (Id Src Line : Type) where
  es : EsState Id Src Line
  checkpoint : Nat := 0
  attempts : Nat := 0
  attempt : Option (Attempt Line) := none

/-- What an `on_batch` callback may do with a result: raise, or return and leave the dictionary in
some state. -/
abbrev Callback : Type := Int → WriteResult → Except CallbackError WriteResult → Prop

def Accepts (index : String) (result : WriteResult) : Prop :=
  ∃ r, (reconcileOrRaise result index).2 = .ok r

/-- The callback never turns a result that `reconcile_or_raise` rejects into one it accepts. -/
def Callback.Unmasking (callback : Callback) (index : String) : Prop :=
  ∀ batchId result result', callback batchId result (.ok result') → Accepts index result' →
    Accepts index result

section System

variable [NdjsonLine Line]

/-- Structured Streaming with `on_error='raise'`: a micro-batch is attempted until `_foreach_batch`
returns normally. Its rows may be split into partitions and Arrow batches anew each time, the write
may raise, and an attempt may end at any point. -/
inductive StreamStep (act : Line → Action Id Src) (rules : EsRules) (cfg : EsWriteConfig)
    (hasOnBatch : Bool) (callback : Callback) (batch : Nat → List (Option Line)) :
    StreamState Id Src Line → StreamState Id Src Line → Prop where
  | start (h : σ.attempt = none) : StreamStep act rules cfg hasOnBatch callback batch σ
      { σ with
        attempts := σ.attempts + 1
        attempt := some { rest := foreachBatch cfg.index hasOnBatch .raise σ.checkpoint } }
  | isEmpty (h : σ.attempt = some { rest := .ask .isEmpty k }) :
      StreamStep act rules cfg hasOnBatch callback batch σ
        { σ with attempt := some { rest := k (batch σ.checkpoint).isEmpty } }
  | writeStarts (h : σ.attempt = some { rest := .ask .bulkWrite k })
      (hparts : (parts.flatMap Partition.rows).Perm (batch σ.checkpoint)) :
      StreamStep act rules cfg hasOnBatch callback batch σ
        { σ with attempt := some ⟨.ask .bulkWrite k,
            some (parts, parts.map fun p => { rest := p.main cfg })⟩ }
  | job (h : σ.attempt = some ⟨rest, some (parts, xs)⟩)
      (hs : (elasticsearch act rules).JobStep (shipOne cfg) (parts.map (Partition.main cfg))
        σ.es xs es xs') :
      StreamStep act rules cfg hasOnBatch callback batch σ
        { σ with es, attempt := some ⟨rest, some (parts, xs')⟩ }
  | writeEnds (h : σ.attempt = some ⟨.ask .bulkWrite k, some (parts, xs)⟩)
      (hrows : Collected xs rows) :
      StreamStep act rules cfg hasOnBatch callback batch σ
        { σ with attempt := some { rest := k (.ok (mergePartitionResults rows)) } }
  | writeRaises (h : σ.attempt = some ⟨.ask .bulkWrite k, job⟩) (e : BulkWriteError) :
      StreamStep act rules cfg hasOnBatch callback batch σ
        { σ with attempt := some { rest := k (.error e) } }
  | onBatch {k : Except CallbackError WriteResult → StreamProg (Except BatchError Unit)}
      (h : σ.attempt = some { rest := .ask (.onBatch batchId result) k })
      (hr : callback batchId result r) :
      StreamStep act rules cfg hasOnBatch callback batch σ { σ with attempt := some { rest := k r } }
  | log {k : Unit → StreamProg (Except BatchError Unit)}
      (h : σ.attempt = some { rest := .ask (.log record) k }) :
      StreamStep act rules cfg hasOnBatch callback batch σ { σ with attempt := some { rest := k () } }
  | giveUp : StreamStep act rules cfg hasOnBatch callback batch σ { σ with attempt := none }
  | commit (h : σ.attempt = some { rest := .ret (.ok ()) }) :
      StreamStep act rules cfg hasOnBatch callback batch σ
        { σ with checkpoint := σ.checkpoint + 1, attempts := 0, attempt := none }

end System

section Invariant

variable [NdjsonLine Line] {rules : EsRules} {cfg : EsWriteConfig}

/-- A step of the job changes documents of the batch only, and keeps what is known of it. -/
theorem WriteJobSound.step (hhonest : rules.honest = true) {parts : List (Partition Line)}
    (hk : Keyed act (inputLines parts)) (h : WriteJobSound act rules cfg parts st es xs)
    (hs : (elasticsearch act rules).JobStep (shipOne cfg) (parts.map (Partition.main cfg))
      es xs es' xs') :
    Untouched act (inputLines parts) es.store es'.store ∧
      WriteJobSound act rules cfg parts es'.store es' xs' := by
  have hbase : WriteJobSound act rules cfg parts es.store es xs :=
    ⟨h.sound, h.keeping, fun _ _ => rfl⟩
  have hnext := JobSound.step (fun _ _ _ _ h => Replies.fewItems h)
    (truthful_keeps hk.effect hhonest fun _ _ _ _ _ hq hw => Untouched.work hk hq hw)
    (fun p hp => write_proper (allowsChunks_inputLines hp) p.clock) hbase hs
  exact ⟨hnext.state, hnext.sound, hnext.keeping, fun _ _ => rfl⟩

end Invariant

end EsConnector
