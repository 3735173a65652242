import EsConnector.DistributedRead
import EsConnector.ReadTypes

namespace EsConnector
set_option autoImplicit true

open Interaction

variable {Key F : Type}

/-- A finished search. -/
abbrev SearchCall (Key F : Type) : Type := Call (SearchRequest Key F) (SearchReply Key F)

/-- ES answers the searches as it likes. -/
abbrev anySearch (Key F : Type) :
    Env (List (SearchCall Key F)) (SearchRequest Key F) (SearchReply Key F) :=
  callEnv (fun _ _ => True) fun _ => True

/-- The searches that read one slice to its end, with the hits of their answers: each has the id of
the answer before it and starts after its last hit, and the last one finds nothing. -/
inductive Paged (args : SliceHitsArgs F) :
    Option Key → String → List (SearchCall Key F) → List (Hit Key F) → Prop where
  | done (h : resp.hits = []) :
      Paged args after pitId [⟨args.request after pitId, .ok resp⟩] []
  | page (h : resp.hits.getLast? = some last)
      (hrest : Paged args (some last.sort) (resp.pitId.getD pitId) calls hits) :
      Paged args after pitId (⟨args.request after pitId, .ok resp⟩ :: calls) (resp.hits ++ hits)

/-- Why a slice has not been read: its last search raised, or its consumer did on a hit of the last
answer. The fuel of the model is spent after as many searches. -/
def SliceFails (consume : β → Hit Key F → Except (ReadError F) β) (fuel : Nat)
    (calls : List (SearchCall Key F)) (e : ReadError F) : Prop :=
  (∃ q err, e = .search err ∧ calls.getLast? = some ⟨q, .error err⟩) ∨
  (∃ q resp acc, calls.getLast? = some ⟨q, .ok resp⟩ ∧ ∃ h ∈ resp.hits, consume acc h = .error e) ∨
  e = .outOfFuel ∧ fuel ≤ calls.length

/-- What is known of the reading of a slice after its searches. -/
def SliceRun (args : SliceHitsArgs F) (consume : β → Hit Key F → Except (ReadError F) β)
    (fuel : Nat) (acc : β) (after : Option Key) (pitId : String) (calls : List (SearchCall Key F)) :
    Except (ReadError F) β → Prop
  | .ok acc' => ∃ hits, Paged args after pitId calls hits ∧ hits.foldlM consume acc = .ok acc'
  | .error e => SliceFails consume fuel calls e

theorem foldlM_error {consume : β → α → Except ε β} {l : List α} {acc : β} {e : ε}
    (h : l.foldlM consume acc = .error e) : ∃ acc', ∃ a ∈ l, consume acc' a = .error e := by
  induction l generalizing acc with
  | nil => cases h
  | cons a l ih =>
    rw [List.foldlM_cons] at h
    rcases bind_error h with h | ⟨acc', -, h⟩
    · exact ⟨acc, a, List.mem_cons_self, h⟩
    · obtain ⟨acc'', b, hb, he⟩ := ih h
      exact ⟨acc'', b, List.mem_cons_of_mem _ hb, he⟩

theorem SliceFails.cons {consume : β → Hit Key F → Except (ReadError F) β}
    (h : SliceFails consume fuel calls e) (c : SearchCall Key F) :
    SliceFails consume (fuel + 1) (c :: calls) e := by
  have hlast {d} (hd : calls.getLast? = some d) : (c :: calls).getLast? = some d := by
    rw [List.getLast?_cons, hd]
    rfl
  rcases h with ⟨q, err, he, hcall⟩ | ⟨q, resp, acc, hcall, hhit⟩ | ⟨he, hlength⟩
  · exact .inl ⟨q, err, he, hlast hcall⟩
  · exact .inr (.inl ⟨q, resp, acc, hlast hcall, hhit⟩)
  · exact .inr (.inr ⟨he, Nat.succ_le_succ hlength⟩)

/-- Whatever ES answers, `_slice_hits` gives every hit of every answer to its consumer, or raises. -/
theorem wp_sliceHits_run (args : SliceHitsArgs F)
    (consume : β → Hit Key F → Except (ReadError F) β) (fuel : Nat) (acc : β) (after : Option Key)
    (pitId : String) (log : List (SearchCall Key F)) :
    wp (anySearch Key F) (sliceHits args consume fuel acc after pitId)
      (fun r log' => ∃ calls, log' = log ++ calls ∧
        SliceRun args consume fuel acc after pitId calls r) log := by
  induction fuel generalizing acc after pitId log with
  | zero => exact ⟨[], (List.append_nil _).symm, .inr (.inr ⟨rfl, Nat.le_refl 0⟩)⟩
  | succ fuel ih =>
    rw [sliceHits, wp_bind, wp_query]
    refine ⟨trivial, ?_⟩
    rintro reply _ ⟨-, rfl⟩
    cases reply with
    | error err => exact ⟨_, rfl, .inl ⟨_, err, rfl, rfl⟩⟩
    | ok resp =>
      dsimp only
      cases hlast : resp.hits.getLast? with
      | none =>
        have hnil := List.getLast?_eq_none_iff.mp hlast
        exact ⟨_, rfl, [], .done hnil, rfl⟩
      | some last =>
        dsimp only
        cases hconsume : resp.hits.foldlM consume acc with
        | error e =>
          obtain ⟨acc', h, hh, he⟩ := foldlM_error hconsume
          exact ⟨_, rfl, .inr (.inl ⟨_, resp, acc', rfl, h, hh, he⟩)⟩
        | ok acc' =>
          apply wp_mono (ih acc' (some last.sort) (resp.pitId.getD pitId) _)
          rintro r log' ⟨calls, rfl, hrun⟩
          refine ⟨_, List.append_assoc .., ?_⟩
          cases r with
          | error e => exact SliceFails.cons hrun _
          | ok acc'' =>
            obtain ⟨hits, hpaged, hfold⟩ := hrun
            refine ⟨_, .page hlast hpaged, ?_⟩
            rw [List.foldlM_append, hconsume]
            exact hfold

section Tasks

variable [PyFloat F] {cfg : EsReadConfig F} {query : List (String × Json F)}
  {fieldTokens : List (String × TypeToken)} {numSlices fuel : Nat} {pitId : String}

theorem foldlM_hitRows {hits : List (Hit Key F)} {acc rows : List (List (String × PyValue F))}
    (h : hits.foldlM (fun rows h => do return rows ++ [← hitRow cfg fieldTokens h]) acc = .ok rows) :
    ∃ new, rows = acc ++ new ∧ hits.map (hitRow cfg fieldTokens) = new.map .ok := by
  induction hits generalizing acc with
  | nil =>
    cases h
    exact ⟨[], (List.append_nil _).symm, rfl⟩
  | cons hit hits ih =>
    rw [List.foldlM_cons] at h
    obtain ⟨acc', hacc, h⟩ := bind_ok h
    obtain ⟨row, hrow, hacc⟩ := bind_ok hacc
    cases hacc
    obtain ⟨new, rfl, hnew⟩ := ih h
    refine ⟨row :: new, List.append_assoc .., ?_⟩
    rw [List.map_cons, List.map_cons, hrow, hnew]

/-- Why a task has raised: its last search raised, or a hit of the last answer is not as declared. -/
def TaskFails (cfg : EsReadConfig F) (fieldTokens : List (String × TypeToken)) (fuel : Nat)
    (calls : List (SearchCall Key F)) (e : ReadError F) : Prop :=
  (∃ q err, e = .search err ∧ calls.getLast? = some ⟨q, .error err⟩) ∨
  (∃ q resp, calls.getLast? = some ⟨q, .ok resp⟩ ∧
    ∃ h ∈ resp.hits, hitRow cfg fieldTokens h = .error e) ∨
  e = .outOfFuel ∧ fuel ≤ calls.length

/-- The frames of a task have the declared columns, and a row for each hit that ES gave in answer to
the searches of its slices. -/
structure TaskReads (cfg : EsReadConfig F) (pitId : String) (query : List (String × Json F))
    (fieldTokens : List (String × TypeToken)) (numSlices : Nat) (ids : List Nat)
    (calls : List (SearchCall Key F)) (hits : List (Hit Key F)) (frames : List (Frame F)) :
    Prop where
  searches : ∃ slices : List (List (SearchCall Key F) × List (Hit Key F)),
    List.Forall₂ (fun id s => Paged (sliceArgs cfg query numSlices id) none pitId s.1 s.2) ids slices ∧
      calls = (slices.map Prod.fst).flatten ∧ hits = (slices.map Prod.snd).flatten
  columns : ∀ f ∈ frames, f.columns = fieldTokens.map Prod.fst ∧ f.rows ≠ []
  rows : (frames.flatMap Frame.rows).map .ok =
    hits.map fun h => (hitRow cfg fieldTokens h).map (cells fieldTokens)

def TaskRun (cfg : EsReadConfig F) (pitId : String) (query : List (String × Json F))
    (fieldTokens : List (String × TypeToken)) (numSlices fuel : Nat) (ids : List Nat)
    (calls : List (SearchCall Key F)) : Except (ReadError F) (List (Frame F)) → Prop
  | .ok frames => ∃ hits, TaskReads cfg pitId query fieldTokens numSlices ids calls hits frames
  | .error e => TaskFails cfg fieldTokens fuel calls e

theorem wp_readSlice_run (cfg : EsReadConfig F) (pitId : String) (query : List (String × Json F))
    (fieldTokens : List (String × TypeToken)) (numSlices fuel i : Nat)
    (log : List (SearchCall Key F)) :
    wp (anySearch Key F) (readSlice cfg pitId query fieldTokens numSlices fuel i)
      (fun r log' => ∃ calls, log' = log ++ calls ∧ match r with
        | .ok rows => ∃ hits, Paged (sliceArgs cfg query numSlices i) none pitId calls hits ∧
            hits.map (hitRow cfg fieldTokens) = rows.map .ok
        | .error e => TaskFails cfg fieldTokens fuel calls e) log := by
  rw [readSlice]
  apply wp_mono (wp_sliceHits_run ..)
  rintro r log' ⟨calls, rfl, hrun⟩
  refine ⟨calls, rfl, ?_⟩
  cases r with
  | ok rows =>
    obtain ⟨hits, hpaged, hfold⟩ := hrun
    obtain ⟨new, rfl, hnew⟩ := foldlM_hitRows hfold
    exact ⟨hits, hpaged, hnew⟩
  | error e =>
    rcases hrun with hsearch | ⟨q, resp, acc, hlast, h, hh, he⟩ | hfuel
    · exact .inl hsearch
    · rcases bind_error he with he | ⟨row, -, he⟩
      · exact .inr (.inl ⟨q, resp, hlast, h, hh, he⟩)
      · cases he
    · exact .inr (.inr hfuel)

theorem TaskFails.after {calls : List (SearchCall Key F)}
    (h : TaskFails cfg fieldTokens fuel calls e) (before : List (SearchCall Key F)) :
    TaskFails cfg fieldTokens fuel (before ++ calls) e := by
  have hlast {d} (hd : calls.getLast? = some d) : (before ++ calls).getLast? = some d := by
    rw [List.getLast?_append, hd]
    rfl
  rcases h with ⟨q, err, he, hcall⟩ | ⟨q, resp, hcall, hhit⟩ | ⟨he, hlength⟩
  · exact .inl ⟨q, err, he, hlast hcall⟩
  · exact .inr (.inl ⟨q, resp, hlast hcall, hhit⟩)
  · refine .inr (.inr ⟨he, hlength.trans ?_⟩)
    rw [List.length_append]
    exact Nat.le_add_left ..

theorem TaskReads.nil : TaskReads cfg pitId query fieldTokens numSlices []
    ([] : List (SearchCall Key F)) [] [] where
  searches := ⟨[], .nil, rfl, rfl⟩
  columns _ h := absurd h List.not_mem_nil
  rows := rfl

/-- The frame of a slice, if it has rows, and the frames of the slices after it. -/
theorem TaskReads.cons {calls calls' : List (SearchCall Key F)} {hits hits' : List (Hit Key F)}
    {rows : List (List (String × PyValue F))}
    (hpaged : Paged (sliceArgs cfg query numSlices i) none pitId calls hits)
    (hrows : hits.map (hitRow cfg fieldTokens) = rows.map .ok)
    (h : TaskReads cfg pitId query fieldTokens numSlices ids calls' hits' frames) :
    TaskReads cfg pitId query fieldTokens numSlices (i :: ids) (calls ++ calls') (hits ++ hits')
      (if rows.isEmpty then frames else dataFrame rows (fieldTokens.map Prod.fst) :: frames) := by
  obtain ⟨⟨slices, hslices, rfl, rfl⟩, hcolumns, hframes⟩ := h
  have hcells : (dataFrame rows (fieldTokens.map Prod.fst)).rows.map .ok =
      hits.map fun h => (hitRow cfg fieldTokens h).map (cells fieldTokens) := by
    have hmap : (hits.map (hitRow cfg fieldTokens)).map (Except.map (cells fieldTokens)) =
        (rows.map .ok).map (Except.map (cells fieldTokens)) := congrArg _ hrows
    rw [List.map_map, List.map_map] at hmap
    rw [dataFrame, List.map_map]
    exact hmap.symm
  refine ⟨⟨(calls, hits) :: slices, .cons hpaged hslices, rfl, rfl⟩, ?_, ?_⟩
  · split
    · exact hcolumns
    · rename_i hne
      refine List.forall_mem_cons.mpr ⟨⟨rfl, ?_⟩, hcolumns⟩
      rw [dataFrame]
      simpa using hne
  · rw [List.map_append, ← hcells, ← hframes]
    split
    · rename_i hempty
      rw [List.isEmpty_iff.mp hempty]
      rfl
    · rw [List.flatMap_cons, List.map_append]

theorem wp_readSlices_run (cfg : EsReadConfig F) (pitId : String) (query : List (String × Json F))
    (fieldTokens : List (String × TypeToken)) (numSlices fuel : Nat) (ids : List Nat)
    (log : List (SearchCall Key F)) :
    wp (anySearch Key F) (readSlices cfg pitId query fieldTokens numSlices fuel ids)
      (fun r log' => ∃ calls, log' = log ++ calls ∧
        TaskRun cfg pitId query fieldTokens numSlices fuel ids calls r) log := by
  induction ids generalizing log with
  | nil => exact ⟨[], (List.append_nil _).symm, [], .nil⟩
  | cons i ids ih =>
    rw [readSlices, wp_bind]
    apply wp_mono (wp_readSlice_run cfg pitId query fieldTokens numSlices fuel i log)
    rintro r _ ⟨calls, rfl, hslice⟩
    cases r with
    | error e => exact ⟨calls, rfl, hslice⟩
    | ok rows =>
      obtain ⟨hits, hpaged, hrows⟩ := hslice
      dsimp only
      rw [wp_bind]
      apply wp_mono (ih _)
      rintro r _ ⟨calls', rfl, hrest⟩
      cases r with
      | error e => exact ⟨_, List.append_assoc .., TaskFails.after hrest calls⟩
      | ok frames =>
        obtain ⟨hits', hreads⟩ := hrest
        exact ⟨_, List.append_assoc .., _, hreads.cons hpaged hrows⟩

/-- A row of a task has a value of its type under each declared column. -/
theorem TaskReads.typed {calls : List (SearchCall Key F)} {hits : List (Hit Key F)}
    (h : TaskReads cfg pitId query (schemaFieldTokens schema) numSlices ids calls hits frames)
    {f : Frame F} (hf : f ∈ frames) {row : List (PyValue F)} (hrow : row ∈ f.rows) :
    List.Forall₂ (fun name cell => ∃ g ∈ schema, g.1 = name ∧ g.2.Holds (fun _ => True) cell)
      (schema.map Prod.fst) row := by
  have hmem : (.ok row : Except (ReadError F) _) ∈ (frames.flatMap Frame.rows).map .ok :=
    List.mem_map_of_mem (List.mem_flatMap.mpr ⟨f, hf, hrow⟩)
  rw [h.rows] at hmem
  obtain ⟨hit, -, hhit⟩ := List.mem_map.mp hmem
  obtain ⟨entries, hentries, rfl⟩ := map_ok hhit
  rw [hitRow] at hentries
  split at hentries
  · rename_i entries' hcoerce
    cases hentries
    obtain ⟨htyped, -⟩ := coerceHit_holds
      (fun f _ => mapKeys_true (sparkTypeToken f.2) _) hcoerce
    rw [cells, schemaFieldTokens_names, List.forall₂_map_right_iff, List.forall₂_same]
    intro name hname
    cases hlookup : entries.lookup name with
    | none =>
      obtain ⟨g, hg, rfl⟩ := List.mem_map.mp hname
      exact ⟨g, hg, rfl, SparkType.holds_none _⟩
    | some v =>
      obtain ⟨before, after, rfl, -⟩ := List.lookup_eq_some_iff.mp hlookup
      obtain ⟨g, hg, hgname, hholds⟩ := htyped (name, v) (by simp)
      exact ⟨g, hg, hgname.symm, hholds⟩
  · cases hentries

end Tasks

section Driver

/-- What `read_index` asks first: the number of shards, where no number of slices is given. -/
def EsReadConfig.lookup (cfg : EsReadConfig F) : List IndexQuery :=
  if cfg.numSlices.isSome then [] else [.numberOfShards cfg.index]

theorem resolveNumSlices_asks (cfg : EsReadConfig F) (answer : (q : IndexQuery) → q.Reply) :
    ((resolveNumSlices cfg.index cfg.numSlices cfg.strictSlices :
      IndexProg (Except (ReadIndexError F) Nat)).eval answer).2 = cfg.lookup := by
  unfold resolveNumSlices EsReadConfig.lookup
  cases cfg.numSlices with
  | some n => rfl
  | none =>
    rw [Prog.eval_bind, Prog.eval_query]
    dsimp only
    split
    · rfl
    · split <;> rfl

/-- The checks that `read_index` makes before anything else. -/
def readChecks (cfg : EsReadConfig F) (schema : Schema) :
    Except (ReadIndexError F) Unit := do
  validate cfg schema
  (rejectNonStringMapKeys "" (schemaFieldTokens schema)).mapError .schemaMismatch

theorem readIndex_unchecked {cfg : EsReadConfig F} (answer : (q : IndexQuery) → q.Reply)
    (h : readChecks cfg schema = .error e) :
    (readIndex cfg schema).eval answer = (.error e, []) := by
  unfold readChecks at h
  rw [readIndex]
  split
  · rename_i hinvalid
    rw [hinvalid] at h
    cases h
    rfl
  · rename_i hvalid
    rw [hvalid] at h
    dsimp only
    split
    · rename_i hkeys
      rw [hkeys] at h
      cases h
      rfl
    · rename_i hkeys
      rw [hkeys] at h
      cases h

/-- After its checks the driver opens a Point-in-Time at most once, and closes its client after
everything else. -/
theorem readIndex_checked {cfg : EsReadConfig F} (answer : (q : IndexQuery) → q.Reply)
    (h : readChecks cfg schema = .ok ()) :
    ∃ before, ((readIndex cfg schema).eval answer).2 = before ++ [.close] ∧
      before <+: cfg.lookup ++ [.openPointInTime cfg.index cfg.pitKeepAlive] := by
  unfold readChecks at h
  rw [readIndex]
  split
  · rename_i hinvalid
    rw [hinvalid] at h
    cases h
  · rename_i hvalid
    rw [hvalid] at h
    dsimp only
    split
    · rename_i hkeys
      rw [hkeys] at h
      cases h
    · rw [Prog.eval_bind, resolveNumSlices_asks]
      dsimp only
      split
      · exact ⟨cfg.lookup, rfl, List.prefix_append ..⟩
      · rw [Prog.eval_bind, Prog.eval_query, Prog.eval_bind, Prog.eval_query]
        refine ⟨_, ?_, List.prefix_rfl⟩
        dsimp only
        split <;> exact (List.append_assoc ..).symm

theorem close_not_mem {cfg : EsReadConfig F} {before : List IndexQuery}
    (h : before <+: cfg.lookup ++ [.openPointInTime cfg.index cfg.pitKeepAlive]) :
    .close ∉ before := by
  intro hclose
  have hmem := h.subset hclose
  rw [EsReadConfig.lookup] at hmem
  split at hmem <;> simp at hmem

theorem readIndex_opens {cfg : EsReadConfig F} (answer : (q : IndexQuery) → q.Reply)
    (h : ((readIndex cfg schema).eval answer).1 = .ok r) :
    ((readIndex cfg schema).eval answer).2 =
        cfg.lookup ++ [.openPointInTime cfg.index cfg.pitKeepAlive, .close] ∧
      answer (.openPointInTime cfg.index cfg.pitKeepAlive) = .ok r.pitId := by
  rw [readIndex] at h ⊢
  split at h
  · cases h
  · dsimp only at h ⊢
    split at h
    · cases h
    · rw [Prog.eval_bind] at h ⊢
      rw [resolveNumSlices_asks]
      dsimp only at h ⊢
      split at h
      · cases h
      · rw [Prog.eval_bind, Prog.eval_query, Prog.eval_bind, Prog.eval_query] at h ⊢
        dsimp only at h ⊢
        split at h
        · cases h
        · rename_i hpit
          cases h
          exact ⟨rfl, hpit⟩

end Driver

/-- Whatever ES answers, to the driver and to the tasks: the driver asks nothing where one of its own
checks fails, and else closes its client last and once. A task of the frame it returns reads each of
its slices to the page that is empty, with the id of the newest answer, and has a row for every hit of
every answer, with values as they are read for the declared types; or it raises, because of the last
search or of a hit of the last answer. -/
theorem read_index_faithful [PyFloat F] (cfg : EsReadConfig F) (schema : Schema)
    (answer : (q : IndexQuery) → q.Reply) (fuel : Nat) :
    (∀ e, readChecks cfg schema = .error e →
      (readIndex cfg schema).eval answer = (.error e, [])) ∧
    (readChecks cfg schema = .ok () → ∃ before,
      ((readIndex cfg schema).eval answer).2 = before ++ [.close] ∧ .close ∉ before ∧
        before <+: cfg.lookup ++ [.openPointInTime cfg.index cfg.pitKeepAlive]) ∧
    ∀ r, ((readIndex cfg schema).eval answer).1 = .ok r →
      answer (.openPointInTime cfg.index cfg.pitKeepAlive) = .ok r.pitId ∧
      ∀ task ∈ r.partitions, ∀ (log : List (SearchCall Key F)) out,
        (anySearch Key F).Run []
          (makeSliceReader cfg r.pitId r.query r.fieldTokens r.numSlices fuel task) log out →
        match out with
        | .ok frames =>
          (∃ hits, TaskReads cfg r.pitId r.query r.fieldTokens r.numSlices task.flatten log hits
            frames) ∧
          ∀ f ∈ frames, ∀ row ∈ f.rows, List.Forall₂
            (fun name cell => ∃ g ∈ schema, g.1 = name ∧ g.2.Holds (fun _ => True) cell)
            (schema.map Prod.fst) row
        | .error e => TaskFails cfg r.fieldTokens fuel log e := by
  refine ⟨fun e he => readIndex_unchecked answer he, fun hchecks => ?_, ?_⟩
  · obtain ⟨before, hasked, hbefore⟩ := readIndex_checked answer hchecks
    exact ⟨before, hasked, close_not_mem hbefore, hbefore⟩
  · intro r hr
    obtain ⟨-, htokens, -⟩ := readIndex_ok answer hr
    refine ⟨(readIndex_opens answer hr).2, ?_⟩
    intro task _ log out hrun
    obtain ⟨calls, rfl, htask⟩ := hrun.ensures
      (wp_readSlices_run cfg r.pitId r.query r.fieldTokens r.numSlices fuel task.flatten [])
    cases out with
    | error e => exact htask
    | ok frames =>
      obtain ⟨hits, hreads⟩ := htask
      refine ⟨⟨hits, hreads⟩, ?_⟩
      intro f hf row hrow
      rw [htokens] at hreads
      exact hreads.typed hf hrow

def oneShard : (q : IndexQuery) → q.Reply
  | .numberOfShards _ => .ok 1
  | .openPointInTime .. => .ok "pit-1"
  | .close => ()

/-- A page of one document, and the empty page after it under a new id. -/
theorem read_index_faithful_one_page :
    ∃ (r : SliceRead Empty) (log : List (SearchCall Nat Empty)) (frames : List (Frame Empty)),
      ((readIndex nameConfig [("name", .atomic .string)]).eval oneShard).1 = .ok r ∧
      log.length = 2 ∧ frames.flatMap Frame.rows = [[.str "a"]] ∧
      ∃ hits, TaskReads nameConfig r.pitId r.query r.fieldTokens r.numSlices [0] log hits frames := by
  obtain ⟨r, hr, hpartitions⟩ : ∃ r : SliceRead Empty,
      ((readIndex nameConfig [("name", .atomic .string)]).eval oneShard).1 = .ok r ∧
        r = ⟨"pit-1", [("match_all", .dict [])], nameTokens, 1⟩ := ⟨_, rfl, rfl⟩
  obtain ⟨log, frames, hrun, hlength, hrows⟩ :
      ∃ (log : List (SearchCall Nat Empty)) (frames : List (Frame Empty)),
        (anySearch Nat Empty).Run [] (makeSliceReader nameConfig r.pitId r.query r.fieldTokens
          r.numSlices 3 [[0]]) log (.ok frames) ∧ log.length = 2 ∧
        frames.flatMap Frame.rows = [[.str "a"]] := by
    subst hpartitions
    let page : Except SearchError (SearchResponse Nat Empty) :=
      .ok ⟨[⟨some [("name", .str "a")], some "1", 0⟩], some "pit-2"⟩
    let last : Except SearchError (SearchResponse Nat Empty) := .ok ⟨[], none⟩
    exact ⟨_, [dataFrame [[("name", .str "a")]] ["name"]],
      .step (E := anySearch Nat Empty) (r := page) (And.intro trivial rfl)
        (.step (E := anySearch Nat Empty) (r := last) (And.intro trivial rfl) (.refl _ _)), rfl, rfl⟩
  have htask : [[0]] ∈ r.partitions := by
    subst hpartitions
    exact List.mem_cons_self
  have hfaithful := @read_index_faithful Nat Empty _ nameConfig [("name", .atomic .string)] oneShard 3
  obtain ⟨hreads, -⟩ := (hfaithful.2.2 r hr).2 [[0]] htask log (.ok frames) hrun
  exact ⟨r, log, frames, hr, hlength, hrows, hreads⟩

end EsConnector
