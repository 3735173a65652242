import EsConnector.WriterRules

namespace EsConnector
set_option autoImplicit true

open Interaction

variable {Line : Type}

/-- The chunks that were handed over so far, to the pool or to the serial loop. The pool and the
cluster reply as they like. -/
def handEnv : Env (List (List Line)) (PoolQuery (BulkRequest Line) (List Line))
    (PoolQuery.Reply (fun _ => BulkReply) ChunkResult) where
  answers handed q := match q with
    | .submit chunk => fun _ handed' => handed' = handed ++ [chunk]
    | _ => fun _ handed' => handed' = handed

/-- `_ship_ndjson_chunk` of the serial loop, with a mark of the chunk that it is given. -/
def markedShip [NdjsonLine Line] (cfg : EsWriteConfig) : ShipInto Line := fun chunk t => do
  let _ : Nat ← Prog.query (PoolQuery.submit chunk)
  shipInto cfg chunk t

/-- The slices of a batch cover it without gaps and overlaps. -/
structure Covers (cs : Int) (lines : List Line) (slices : List (List Line)) : Prop where
  nonempty : ∀ slice ∈ slices, slice ≠ []
  bounded : ∀ slice ∈ slices, (slice.length : Int) ≤ cs
  whole : slices.flatten = lines

theorem chunkSlices_covers (h : 0 < cs) (lines : List Line) :
    ∃ slices, chunkSlices cs lines = .ok slices ∧ Covers cs lines slices := by
  have hc := chunkSlices_of_pos h lines
  refine ⟨_, hc, ?_, ?_, ?_⟩
  · intro slice hs
    exact (mem_chunkSlices h hc hs).1
  · intro slice hs
    exact (mem_chunkSlices h hc hs).2
  · exact chunkSlices_flatten h hc

/-- With a `chunk_size` below one nothing is cut out of a batch. -/
theorem chunkSlices_of_not_pos (h : ¬0 < cs) (lines : List Line) :
    chunkSlices cs lines = .ok [] ∨ ∃ m, chunkSlices cs lines = .error (.valueError m) := by
  by_cases h0 : cs = 0
  · subst h0
    exact .inr ⟨_, rfl⟩
  · exact .inl (chunkSlices_of_neg (by omega) lines)

/-- What was handed over of `chunks`: all of them, unless the shipping of one raised. -/
def HandedOver (chunks handed : List (List Line)) (out : Except WriteError α) : Prop :=
  ∃ rest, handed ++ rest = chunks ∧ (rest ≠ [] → ∃ e, out = .error (.ship e))

theorem wp_drainOne_handed (s : Shipper) (handed : List (List Line)) :
    wp handEnv (drainOne s) (fun r handed' => handed' = handed ∧
      ∀ e, r = .error e → ∃ e', e = .ship e') handed := by
  rw [drainOne, wp_bind]
  refine ⟨trivial, ?_⟩
  intro c handed' hc
  rw [wp_ret]
  cases hm : mergeResults (c.done.map Prod.snd) s.tally with
  | error e =>
    refine ⟨hc, ?_⟩
    intro e' he
    cases he
    exact ⟨e, rfl⟩
  | ok t => exact ⟨hc, fun e he => by cases he⟩

theorem wp_drainWhile_handed (bound fuel : Nat) (s : Shipper) (handed : List (List Line)) :
    wp handEnv (drainWhile bound fuel s) (fun r handed' => handed' = handed ∧
      ∀ e, r = .error e → ∃ e', e = .ship e') handed := by
  induction fuel generalizing s with
  | zero => exact ⟨rfl, fun e he => by cases he⟩
  | succ fuel ih =>
    rw [drainWhile]
    split
    · rw [wp_bind]
      apply wp_mono (wp_drainOne_handed s handed)
      rintro r _ ⟨rfl, hr⟩
      cases r with
      | error e => exact ⟨rfl, hr⟩
      | ok s' => exact ih s'
    · exact ⟨rfl, fun e he => by cases he⟩

theorem wp_submitChunks_handed (w : Nat) (chunks : List (List Line)) (s : Shipper)
    (done : List (List Line)) :
    wp handEnv (submitChunks w chunks s)
      (fun r handed => HandedOver (done ++ chunks) handed r) done := by
  induction chunks generalizing s done with
  | nil => exact ⟨[], rfl, fun h => absurd rfl h⟩
  | cons chunk rest ih =>
    rw [submitChunks, wp_bind]
    apply wp_mono (wp_drainWhile_handed w s.pending.length s done)
    rintro r handed ⟨rfl, hr⟩
    cases r with
    | error e =>
      obtain ⟨e', rfl⟩ := hr e rfl
      exact ⟨chunk :: rest, rfl, fun _ => ⟨e', rfl⟩⟩
    | ok s' =>
      dsimp only
      rw [wp_bind]
      refine ⟨trivial, ?_⟩
      intro future _ rfl
      rw [wp_ret, List.append_cons handed]
      exact ih _ _

theorem wp_calls_handed (p : BulkProg Line α) (handed : List (List Line)) :
    wp handEnv (p.embed PoolQuery.call fun _ r => r) (fun _ handed' => handed' = handed)
      handed := by
  induction p with
  | ret a => rfl
  | ask q k ih =>
    refine ⟨trivial, ?_⟩
    intro r _ rfl
    exact ih r

theorem wp_shipSerially_handed [NdjsonLine Line] (cfg : EsWriteConfig)
    (chunks : List (List Line)) (s : Shipper) (done : List (List Line)) :
    wp handEnv (shipSerially (markedShip cfg) chunks s)
      (fun r handed => HandedOver (done ++ chunks) handed r) done := by
  induction chunks generalizing s done with
  | nil => exact ⟨[], rfl, fun h => absurd rfl h⟩
  | cons chunk rest ih =>
    rw [shipSerially, wp_bind, markedShip, wp_bind]
    refine ⟨trivial, ?_⟩
    intro future _ rfl
    rw [wp_ret]
    apply wp_mono (wp_calls_handed _ _)
    intro r _ rfl
    rw [List.append_cons done]
    cases r with
    | error e => exact ⟨rest, rfl, fun _ => ⟨e, rfl⟩⟩
    | ok t => exact ih _ _

/-- In both modes the slices of a batch are handed over in order. -/
theorem wp_shipBatch_handed [NdjsonLine Line] {cfg : EsWriteConfig} {lines : List Line}
    (hc : chunkSlices cfg.chunkSize lines = .ok chunks) (s : Shipper) :
    wp handEnv (shipBatch cfg (markedShip cfg) lines s)
      (fun r handed => HandedOver chunks handed r) [] := by
  rw [shipBatch_eq hc, shipChunks]
  split
  · exact wp_submitChunks_handed _ chunks s []
  · exact wp_shipSerially_handed cfg chunks s []

/-- Whatever the pool and the cluster do, the slices that are handed over are the first ones of a
cover of the batch, and all of it where no shipping raised. -/
def HandsOver [NdjsonLine Line] (cfg : EsWriteConfig) (lines : List Line) : Prop :=
  ∀ s handed out, handEnv.Run [] (shipBatch cfg (markedShip cfg) lines s) handed out →
    ∃ slices, Covers cfg.chunkSize lines slices ∧ HandedOver slices handed out

/-- A batch is shipped as it should be exactly if `chunk_size` is positive or there is nothing to
ship. -/
theorem hands_over_iff [NdjsonLine Line] (cfg : EsWriteConfig) (lines : List Line) :
    HandsOver cfg lines ↔ 0 < cfg.chunkSize ∨ lines = [] := by
  constructor
  · intro h
    by_contra hno
    obtain ⟨hcs, hlines⟩ := not_or.mp hno
    -- the batch comes to its end at once, and no shipping has raised
    have hrun : ∃ out, handEnv.Run [] (shipBatch cfg (markedShip cfg) lines
        { tally := .start false }) [] out ∧ ∀ e, out ≠ .error (.ship e) := by
      rcases chunkSlices_of_not_pos hcs lines with hc | ⟨m, hc⟩
      · refine ⟨.ok { tally := .start false }, ?_, fun e he => by cases he⟩
        rw [shipBatch_eq hc, shipChunks]
        split <;> exact .refl _ _
      · refine ⟨.error (.valueError m), ?_, fun e he => by cases he⟩
        rw [shipBatch, feed, hc, ite_self]
        exact .refl _ _
    obtain ⟨out, hrun, hout⟩ := hrun
    obtain ⟨slices, hcover, rest, hslices, hrest⟩ := h _ _ _ hrun
    have hnil : rest = [] := by
      by_contra hne
      obtain ⟨e, he⟩ := hrest hne
      exact hout e he
    rw [hnil] at hslices
    rw [← hcover.whole, ← hslices] at hlines
    exact hlines rfl
  · rintro (hcs | rfl) s handed out hrun
    · obtain ⟨slices, hc, hcover⟩ := chunkSlices_covers hcs lines
      exact ⟨slices, hcover, hrun.ensures (wp_shipBatch_handed hc s)⟩
    · refine ⟨[], ⟨fun _ hs => absurd hs List.not_mem_nil, fun _ hs => absurd hs List.not_mem_nil,
        rfl⟩, ?_⟩
      by_cases hcs : 0 < cfg.chunkSize
      · obtain ⟨slices, hc, hcover⟩ := chunkSlices_covers hcs ([] : List Line)
        have hnil : slices = [] := by
          rw [List.eq_nil_iff_forall_not_mem]
          intro slice hs
          exact hcover.nonempty slice hs (List.flatten_eq_nil_iff.mp hcover.whole slice hs)
        exact hnil ▸ hrun.ensures (wp_shipBatch_handed hc s)
      · rcases chunkSlices_of_not_pos hcs ([] : List Line) with hc | ⟨m, hc⟩
        · exact hrun.ensures (wp_shipBatch_handed hc s)
        · rw [shipBatch, feed, hc, ite_self] at hrun
          obtain ⟨rfl, -⟩ := hrun.of_ret
          exact ⟨[], rfl, fun h => absurd rfl h⟩

def backwardsConfig : EsWriteConfig := { hosts := "h", apiKey := some "k", chunkSize := -1 }

/-- The constructor takes a `chunk_size` of minus one. A batch is then written without an error, and
none of its lines is handed over. -/
theorem negative_chunk_size_ships_nothing : backwardsConfig.Accepted ∧
    (∃ s, handEnv.Run [] (shipBatch backwardsConfig (markedShip backwardsConfig) ["a"]
      { tally := .start false }) [] (.ok s)) ∧
    ¬HandsOver backwardsConfig ["a"] := by
  refine ⟨by decide, ⟨_, .refl _ _⟩, ?_⟩
  intro h
  obtain ⟨slices, hcover, -⟩ := h { tally := .start false } [] _ (.refl _ _)
  cases slices with
  | nil => cases hcover.whole
  | cons slice slices =>
    have hle : (slice.length : Int) ≤ -1 := hcover.bounded slice List.mem_cons_self
    omega

end EsConnector
