import Mathlib.Data.List.ReduceOption
import EsConnector.PartitionWriter

namespace EsConnector
set_option autoImplicit true

open Interaction

variable {Line C : Type}

/-- The chunks the writer cuts out of its batches, in order. -/
def chunkPlan (cfg : EsWriteConfig) (batches : List (List (Option Line))) :
    List (List Line) :=
  batches.flatMap fun col =>
    match chunkSlices cfg.chunkSize col.reduceOption with
    | .ok chunks => chunks
    | .error _ => []

/-- The ways a batch can fail its partition before any line of it is sent. -/
def BatchFault (cfg : EsWriteConfig) (batches : List (List (Option Line))) : Prop :=
  (∃ col ∈ batches, none ∈ col) ∨ cfg.chunkSize = 0

theorem any_isNone_iff (col : List (Option Line)) :
    col.any Option.isNone = true ↔ none ∈ col := by
  simp [List.any_eq_true]

theorem length_reduceOption (h : none ∉ col) :
    (col : List (Option Line)).reduceOption.length = col.length := by
  have hle := List.reduceOption_length_le col
  have hlt := mt List.reduceOption_length_lt_iff.mp h
  omega

theorem pyRange_of_neg (h : step < 0) : pyRange n step = .ok [] := by
  simp only [pyRange, if_neg (show ¬step = 0 by omega), if_pos h]

theorem chunkSlices_of_neg (h : cs < 0) (lines : List Line) : chunkSlices cs lines = .ok [] := by
  simp only [chunkSlices, pyRange_of_neg h]
  rfl

theorem chunkSlices_of_pos (h : 0 < cs) (lines : List Line) :
    chunkSlices cs lines = .ok ((List.range ((lines.length + cs.toNat - 1) / cs.toNat)).map
      fun i => (lines.drop (i * cs.toNat)).take cs.toNat) := by
  simp only [chunkSlices, pyRange, if_neg (show ¬cs = 0 by omega), if_neg (show ¬cs < 0 by omega)]
  simp [Except.map, Function.comp_def]

theorem flatten_slices (hn : 0 < n) (lines : List Line) :
    ((List.range ((lines.length + n - 1) / n)).map fun i =>
      (lines.drop (i * n)).take n).flatten = lines := by
  have hk : ∀ k, ((List.range k).map fun i => (lines.drop (i * n)).take n).flatten =
      lines.take (k * n) := by
    intro k
    induction k with
    | zero => simp
    | succ k ih =>
      rw [List.range_succ, List.map_append, List.flatten_append, ih, Nat.succ_mul, List.take_add]
      simp
  rw [hk]
  apply List.take_of_length_le
  have hd := Nat.div_add_mod (lines.length + n - 1) n
  have hm := Nat.mod_lt (lines.length + n - 1) hn
  rw [Nat.mul_comm]
  omega

theorem chunkSlices_flatten (h : 0 < cs) (hc : chunkSlices cs lines = .ok chunks) :
    chunks.flatten = (lines : List Line) := by
  rw [chunkSlices_of_pos h] at hc
  cases hc
  exact flatten_slices (by omega) lines

theorem chunkPlan_cons (col : List (Option Line)) (rest : List (List (Option Line))) :
    chunkPlan cfg (col :: rest) = chunkPlan cfg [col] ++ chunkPlan cfg rest := by
  simp [chunkPlan]

theorem chunkPlan_singleton (hc : chunkSlices cfg.chunkSize col.reduceOption = .ok chunks) :
    chunkPlan cfg [(col : List (Option Line))] = chunks := by
  simp [chunkPlan, hc]

theorem chunkPlan_flatten_of_pos (h : 0 < cfg.chunkSize) (batches : List (List (Option Line))) :
    (chunkPlan cfg batches).flatten = batches.flatMap List.reduceOption := by
  induction batches with
  | nil => rfl
  | cons col rest ih =>
    have hc := chunkSlices_of_pos h col.reduceOption
    rw [chunkPlan_cons, List.flatten_append, ih, chunkPlan_singleton hc,
      flatten_slices (by omega), List.flatMap_cons]

theorem chunkPlan_of_not_pos (h : ¬0 < cfg.chunkSize) (batches : List (List (Option Line))) :
    chunkPlan cfg batches = [] := by
  rw [chunkPlan, List.flatMap_eq_nil_iff]
  intro col _
  by_cases h0 : cfg.chunkSize = 0
  · simp [chunkSlices, pyRange, h0, Except.map]
  · rw [chunkSlices_of_neg (by omega)]

theorem chunkPlan_of_reduceOption_nil (hl : (col : List (Option Line)).reduceOption = []) :
    chunkPlan cfg [col] = [] := by
  by_cases hpos : 0 < cfg.chunkSize
  · have hz : (0 + cfg.chunkSize.toNat - 1) / cfg.chunkSize.toNat = 0 :=
      Nat.div_eq_of_lt (by omega)
    rw [chunkPlan_singleton (chunkSlices_of_pos hpos col.reduceOption), hl, List.length_nil, hz]
    rfl
  · exact chunkPlan_of_not_pos hpos _

theorem mem_chunkSlices (h : 0 < cs) (hc : chunkSlices cs (lines : List Line) = .ok chunks)
    (hm : chunk ∈ chunks) : chunk ≠ [] ∧ (chunk.length : Int) ≤ cs := by
  rw [chunkSlices_of_pos h] at hc
  cases hc
  obtain ⟨i, hi, rfl⟩ := List.mem_map.mp hm
  have hn : 0 < cs.toNat := by omega
  have hi' := List.mem_range.mp hi
  rw [Nat.lt_div_iff_mul_lt hn] at hi'
  constructor
  · rw [← List.length_pos_iff, List.length_take, List.length_drop]
    omega
  · rw [List.length_take]
    omega

/-- A chunk is not empty and no longer than `chunk_size`. -/
theorem mem_chunkPlan (h : chunk ∈ chunkPlan cfg (batches : List (List (Option Line)))) :
    chunk ≠ [] ∧ (chunk.length : Int) ≤ cfg.chunkSize := by
  by_cases hpos : 0 < cfg.chunkSize
  · obtain ⟨col, -, hchunk⟩ := List.mem_flatMap.mp h
    have hc := chunkSlices_of_pos hpos col.reduceOption
    rw [hc] at hchunk
    exact mem_chunkSlices hpos hc hchunk
  · rw [chunkPlan_of_not_pos hpos] at h
    exact absurd h List.not_mem_nil

/-- No chunk is larger than the lines that were cut, and a plan of full length keeps them all. -/
theorem chunkPlan_flatten_sublist (cfg : EsWriteConfig) (batches : List (List (Option Line))) :
    (chunkPlan cfg batches).flatten.Sublist (batches.flatMap List.reduceOption) := by
  by_cases h : 0 < cfg.chunkSize
  · rw [chunkPlan_flatten_of_pos h]
  · rw [chunkPlan_of_not_pos h]
    exact List.nil_sublist _

/-- The batches before the first one with a null action line. -/
def intactBatches (batches : List (List (Option Line))) : List (List (Option Line)) :=
  batches.takeWhile fun col => !col.any Option.isNone

theorem writeBatches_append (cfg : EsWriteConfig) (ship : ShipInto Line)
    (batches rest : List (List (Option Line))) (s : PartitionState) :
    writeBatches cfg ship (batches ++ rest) s =
      writeBatches cfg ship batches s >>= fun r => match r with
        | .error e => pure (.error e)
        | .ok s' => writeBatches cfg ship rest s' := by
  induction batches generalizing s with
  | nil => rfl
  | cons col batches ih =>
    rw [List.cons_append, writeBatches, writeBatches]
    split
    · rfl
    · dsimp only
      split
      · exact ih _
      · rw [Prog.bind_assoc]
        congr 1
        funext r
        cases r with
        | error e => rfl
        | ok shipper => exact ih _

/-- Ship the chunks of one batch in either mode. -/
def shipChunks (cfg : EsWriteConfig) (ship : ShipInto Line) (chunks : List (List Line))
    (s : Shipper) : PartitionProg Line (Except WriteError Shipper) :=
  if cfg.pooled then submitChunks cfg.writeConcurrency.toNat chunks s
  else shipSerially ship chunks s

theorem shipBatch_eq (hc : chunkSlices cfg.chunkSize lines = .ok chunks) (ship : ShipInto Line)
    (s : Shipper) : shipBatch cfg ship lines s = shipChunks cfg ship chunks s := by
  rw [shipBatch, shipChunks, feed]
  simp only [hc]

theorem chunkSlices_error (hc : chunkSlices cs (lines : List Line) = .error e) : cs = 0 := by
  by_contra h0
  rcases lt_or_gt_of_ne h0 with h | h
  · rw [chunkSlices_of_neg h] at hc
    cases hc
  · rw [chunkSlices_of_pos h] at hc
    cases hc

section Rules

variable {E : Env C (PoolQuery (BulkRequest Line) (List Line))
  (PoolQuery.Reply (fun _ => BulkReply) ChunkResult)}

/-- The invariant rule of the batch loop: `K` holds of the chunks dealt with so far. -/
theorem wp_writeBatches (K : List (List Line) → Shipper → C → Prop)
    (fail : WriteError → C → Prop)
    (hchunks : ∀ done chunks s g, K done s g → done ++ chunks <+: dealt ++ chunkPlan cfg batches →
      wp E (shipChunks cfg ship chunks s)
        (fun r g' => match r with
          | .ok s' => K (done ++ chunks) s' g'
          | .error e => fail e g') g)
    (hfault : ∀ e done s g, K done s g → BatchFault cfg batches → fail e g)
    (h : K dealt s.shipper g) :
    wp E (writeBatches cfg ship batches s)
      (fun r g' => match r with
        | .ok s' => K (dealt ++ chunkPlan cfg batches) s'.shipper g' ∧
            s'.totalInput = s.totalInput + (batches.map List.length).sum ∧
            ∀ col ∈ batches, none ∉ col
        | .error e => fail e g') g := by
  induction batches generalizing dealt s g with
  | nil => simpa [writeBatches, chunkPlan] using h
  | cons col rest ih =>
    rw [writeBatches]
    split
    · next hn =>
      exact hfault _ _ _ _ h (.inl ⟨col, List.mem_cons_self, (any_isNone_iff col).mp hn⟩)
    · next hn =>
      have hcol : none ∉ col := fun hm => hn ((any_isNone_iff col).mpr hm)
      have hrest (e done s g) (hK : K done s g) (hf : BatchFault cfg rest) : fail e g := by
        apply hfault e done s g hK
        rcases hf with ⟨c, hc, hm⟩ | h0
        · exact .inl ⟨c, List.mem_cons_of_mem _ hc, hm⟩
        · exact .inr h0
      -- the end of the batch: what is left is the loop over the other batches
      have hnext (chunks s' g') (hp : chunkPlan cfg [col] = chunks)
          (hK : K (dealt ++ chunks) s' g') :
          wp E (writeBatches cfg ship rest
              { totalInput := s.totalInput + col.length, shipper := s' })
            (fun r g' => match r with
              | .ok s' => K (dealt ++ chunkPlan cfg (col :: rest)) s'.shipper g' ∧
                  s'.totalInput = s.totalInput + ((col :: rest).map List.length).sum ∧
                  ∀ c ∈ col :: rest, none ∉ c
              | .error e => fail e g') g' := by
        have hplan : dealt ++ chunkPlan cfg (col :: rest) =
            (dealt ++ chunks) ++ chunkPlan cfg rest := by
          rw [chunkPlan_cons, hp, List.append_assoc]
        refine wp_mono (@ih (dealt ++ chunks) g'
          { totalInput := s.totalInput + col.length, shipper := s' } ?_ hrest hK) ?_
        · intro done cs s g hK hp
          exact hchunks done cs s g hK (hplan ▸ hp)
        · intro r g'' hr
          cases r with
          | error e => exact hr
          | ok ps =>
            obtain ⟨hK, ht, hn⟩ := hr
            refine ⟨hplan ▸ hK, ?_, ?_⟩
            · rw [ht, List.map_cons, List.sum_cons, Nat.add_assoc]
            · intro c hc
              rcases List.mem_cons.mp hc with rfl | hc
              · exact hcol
              · exact hn c hc
      dsimp only
      split
      · next hl =>
        apply hnext [] s.shipper g (chunkPlan_of_reduceOption_nil hl)
        simpa using h
      · rw [wp_bind]
        cases hc : chunkSlices cfg.chunkSize col.reduceOption with
        | error e =>
          have h0 := chunkSlices_error hc
          rw [shipBatch, feed]
          simp only [hc, ite_self]
          exact hfault _ _ _ _ h (.inr h0)
        | ok chunks =>
          have hp := chunkPlan_singleton hc
          rw [shipBatch_eq hc]
          refine wp_mono (hchunks dealt chunks s.shipper g h ?_) ?_
          · rw [chunkPlan_cons, hp, ← List.append_assoc]
            exact List.prefix_append _ _
          · intro r g' hr
            cases r with
            | error e => exact hr
            | ok s' => exact hnext chunks s' g' hp hr

end Rules

end EsConnector
