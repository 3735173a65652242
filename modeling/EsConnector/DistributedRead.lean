import EsConnector.Keyset
import EsConnector.SliceReader
import Mathlib.Data.List.Forall2

namespace EsConnector
set_option autoImplicit true

open Interaction

variable {Key F : Type} [LinearOrder Key]

/-- What a Point-in-Time shows: the documents of the query in the order of their sort values, and
how ES deals them out to the slices of a read. -/
structure Snapshot (Key F : Type) [LinearOrder Key] where
  docs : List (Hit Key F)
  ordered : Keyset.Ordered Hit.sort docs
  sliceOf : Nat → Hit Key F → Nat
  sliceOf_lt (n : Nat) (h : Hit Key F) : 0 < n → sliceOf n h < n

def Snapshot.slice (snap : Snapshot Key F) : Option SliceSpec → List (Hit Key F)
  | none => snap.docs
  | some spec => snap.docs.filter fun h => snap.sliceOf spec.max h = spec.id

theorem Snapshot.slice_sublist (snap : Snapshot Key F) (spec : Option SliceSpec) :
    (snap.slice spec).Sublist snap.docs := by
  cases spec with
  | none => exact .refl _
  | some spec => exact List.filter_sublist

/-- Whom a refreshed id concerns: the run of `_slice_hits` that received it, whose first search is
then still served under the opened id, or everyone who reads the Point-in-Time. -/
inductive Validity where
  | run | pit
deriving DecidableEq

structure PitState where
  newest : String
  searches : Nat := 0

/-- The id a search has to carry. -/
def validId (v : Validity) (opened : String) (s : PitState) (searchAfter : Option Key) : String :=
  match v, searchAfter with
  | .run, none => opened
  | _, _ => s.newest

/-- ES as a slice reader sees it. It may refresh the id with any answer. -/
def pitEnv (snap : Snapshot Key F) (v : Validity) (opened keepAlive : String) :
    Env PitState (SearchRequest Key F) (SearchReply Key F) where
  asks s req := req.pit = ⟨validId v opened s req.searchAfter, keepAlive⟩ ∧
    req.sort = [("_shard_doc", "asc")]
  answers s req reply s' :=
    if req.pit.id = validId v opened s req.searchAfter then
      ∃ pitId, reply = .ok
          ⟨Keyset.page Hit.sort (snap.slice req.slice) req.searchAfter req.size.toNat, pitId⟩ ∧
        s' = ⟨pitId.getD req.pit.id, s.searches + 1⟩
    else reply = .error ⟨"No search context found"⟩ ∧ s' = ⟨s.newest, s.searches + 1⟩

variable {snap : Snapshot Key F} {v : Validity} {opened keepAlive : String}
  {done rest : List (Hit Key F)}

/-- `_slice_hits` goes on after the documents it has read: its consumer gets the others, once each
and in order, and with the newest id every search is served. -/
theorem wp_sliceHits {args : SliceHitsArgs F} {consume : β → Hit Key F → Except (ReadError F) β}
    (hsize : 0 < args.batchSize) (hslice : snap.slice args.sliceSpec = done ++ rest)
    (hfuel : Keyset.pages rest.length args.batchSize.toNat < fuel)
    (hid : validId v opened s (done.getLast?.map Hit.sort) = pitId) :
    wp (pitEnv snap v opened args.keepAlive)
      (sliceHits args consume fuel acc (done.getLast?.map Hit.sort) pitId)
      (fun r t => r = rest.foldlM consume acc ∧ ∀ a, r = .ok a →
        t.searches = s.searches + Keyset.pages rest.length args.batchSize.toNat + 1) s := by
  have hsize' : 0 < args.batchSize.toNat := by omega
  induction fuel generalizing done rest acc pitId s with
  | zero => exact absurd hfuel (Nat.not_lt_zero _)
  | succ fuel ih =>
    have hordered : Keyset.Ordered Hit.sort (done ++ rest) :=
      hslice ▸ snap.ordered.sublist (snap.slice_sublist _)
    rw [sliceHits, wp_bind, wp_query]
    refine ⟨⟨congrArg (Pit.mk · _) hid.symm, rfl⟩, ?_⟩
    intro reply s' hreply
    obtain ⟨refreshed, rfl, rfl⟩ := (if_pos hid.symm).mp hreply
    have hpage : Keyset.page Hit.sort (snap.slice args.sliceSpec) (done.getLast?.map Hit.sort)
        args.batchSize.toNat = rest.take args.batchSize.toNat := by
      rw [hslice, Keyset.page_last hordered]
    simp only [SliceHitsArgs.request, hpage]
    cases hlast : (rest.take args.batchSize.toNat).getLast? with
    | none =>
      have hrest : rest = [] := by
        have := List.getLast?_eq_none_iff.mp hlast
        rw [List.take_eq_nil_iff] at this
        exact this.resolve_left (by omega)
      subst hrest
      exact ⟨rfl, fun a _ => by rw [List.length_nil, Keyset.pages_zero hsize']⟩
    | some last =>
      have hsplit : rest.foldlM consume acc =
          (rest.take args.batchSize.toNat).foldlM consume acc >>=
            (rest.drop args.batchSize.toNat).foldlM consume := by
        rw [← List.foldlM_append, List.take_append_drop]
      have hpos : 0 < rest.length := by
        rw [List.length_pos_iff]
        intro rfl
        simp at hlast
      have hpages := Keyset.pages_pos hsize' hpos
      cases hconsume : (rest.take args.batchSize.toNat).foldlM consume acc with
      | error e =>
        rw [hconsume] at hsplit
        exact ⟨hsplit.symm, fun a ha => by cases ha⟩
      | ok acc' =>
        rw [hconsume] at hsplit
        dsimp only
        have hcursor : (done ++ rest.take args.batchSize.toNat).getLast?.map Hit.sort =
            some last.sort := Keyset.last_page hlast
        have hslice' : snap.slice args.sliceSpec = (done ++ rest.take args.batchSize.toNat) ++
            rest.drop args.batchSize.toNat := by
          rw [List.append_assoc, List.take_append_drop, hslice]
        rw [← hcursor]
        refine wp_mono (ih hslice' ?_ ?_) ?_
        · rw [List.length_drop]
          omega
        · rw [hcursor]
          cases v <;> rfl
        · rintro r t ⟨hr, ht⟩
          refine ⟨hr.trans hsplit.symm, ?_⟩
          intro a ha
          rw [ht a ha, List.length_drop, hpages]
          dsimp only
          omega

theorem wp_sliceHits_start (args : SliceHitsArgs F)
    {consume : β → Hit Key F → Except (ReadError F) β} (hsize : 0 < args.batchSize)
    (hfuel : Keyset.pages (snap.slice args.sliceSpec).length args.batchSize.toNat < fuel)
    (hid : validId v opened s (none : Option Key) = pitId) :
    wp (pitEnv snap v opened args.keepAlive) (sliceHits args consume fuel acc none pitId)
      (fun r t => r = (snap.slice args.sliceSpec).foldlM consume acc ∧ ∀ a, r = .ok a →
        t.searches = s.searches +
          Keyset.pages (snap.slice args.sliceSpec).length args.batchSize.toNat + 1) s :=
  wp_sliceHits hsize (List.nil_append _).symm hfuel hid

omit [LinearOrder Key] in
theorem foldlM_collect (hits acc : List (Hit Key F)) :
    hits.foldlM (fun acc h => (.ok (acc ++ [h]) : Except (ReadError F) _)) acc = .ok (acc ++ hits) := by
  induction hits generalizing acc with
  | nil => rw [List.foldlM_nil, List.append_nil]; rfl
  | cons h hits ih =>
    rw [List.foldlM_cons]
    exact (ih _).trans (by rw [List.append_assoc, List.singleton_append])

theorem foldlM_rows {f : α → Except ε β} {g : α → β} {l : List α} (h : ∀ a ∈ l, f a = .ok (g a))
    (acc : List β) :
    l.foldlM (fun acc a => do return acc ++ [← f a]) acc = .ok (acc ++ l.map g) := by
  induction l generalizing acc with
  | nil => rw [List.foldlM_nil, List.map_nil, List.append_nil]; rfl
  | cons a l ih =>
    rw [List.foldlM_cons, h a List.mem_cons_self]
    apply (ih (fun b hb => h b (List.mem_cons_of_mem _ hb)) _).trans
    rw [List.map_cons, List.append_assoc, List.singleton_append]

section Reader

variable [PyFloat F] {cfg : EsReadConfig F} {query : List (String × Json F)}
  {fieldTokens : List (String × TypeToken)} {numSlices fuel : Nat}
  {row : Hit Key F → List (String × PyValue F)}

/-- The cells of a row under the declared columns. -/
def cells (fieldTokens : List (String × TypeToken)) (row : List (String × PyValue F)) :
    List (PyValue F) :=
  (fieldTokens.map Prod.fst).map fun c => (row.lookup c).getD .none

/-- The documents of the slice with an id. -/
def Snapshot.sliceDocs (snap : Snapshot Key F) (numSlices sliceId : Nat) : List (Hit Key F) :=
  snap.slice (if 1 < numSlices then some ⟨sliceId, numSlices⟩ else none)

omit [PyFloat F] in
theorem Snapshot.sliceDocs_perm (snap : Snapshot Key F) (hn : 0 < numSlices) :
    ((List.range numSlices).flatMap (snap.sliceDocs numSlices)).Perm snap.docs := by
  unfold Snapshot.sliceDocs
  split
  · exact Keyset.slices_perm _ _ fun h _ => snap.sliceOf_lt numSlices h hn
  · obtain rfl : numSlices = 1 := by omega
    rw [List.range_one, List.flatMap_singleton]
    exact .refl _

theorem wp_readSlice (hsize : 0 < cfg.batchSize)
    (hrow : ∀ h ∈ snap.docs, hitRow cfg fieldTokens h = .ok (row h))
    (hfuel : Keyset.pages snap.docs.length cfg.batchSize.toNat < fuel) (i : Nat) :
    wp (pitEnv snap .run opened cfg.pitKeepAlive)
      (readSlice cfg opened query fieldTokens numSlices fuel i)
      (fun r _ => r = .ok ((snap.sliceDocs numSlices i).map row)) s := by
  have hsub : (snap.sliceDocs numSlices i).Sublist snap.docs := snap.slice_sublist _
  have hpages : Keyset.pages (snap.sliceDocs numSlices i).length cfg.batchSize.toNat < fuel :=
    (Keyset.pages_mono hsub.length_le).trans_lt hfuel
  rw [readSlice]
  apply wp_mono (wp_sliceHits_start (sliceArgs cfg query numSlices i) hsize hpages rfl)
  intro r t hr
  rw [hr.1]
  exact foldlM_rows (fun h hh => hrow h (hsub.subset hh)) []

/-- What `_read` yields for a list of slice ids. -/
theorem wp_readSlices (hsize : 0 < cfg.batchSize)
    (hrow : ∀ h ∈ snap.docs, hitRow cfg fieldTokens h = .ok (row h))
    (hfuel : Keyset.pages snap.docs.length cfg.batchSize.toNat < fuel) (ids : List Nat) :
    wp (pitEnv snap .run opened cfg.pitKeepAlive)
      (readSlices cfg opened query fieldTokens numSlices fuel ids)
      (fun r _ => ∃ frames, r = .ok frames ∧
        (∀ f ∈ frames, f.columns = fieldTokens.map Prod.fst) ∧
        frames.flatMap Frame.rows =
          (ids.flatMap (snap.sliceDocs numSlices)).map fun h => cells fieldTokens (row h)) s := by
  induction ids generalizing s with
  | nil => exact ⟨[], rfl, fun f hf => (nomatch hf), rfl⟩
  | cons i ids ih =>
    rw [readSlices, wp_bind]
    apply wp_mono (wp_readSlice hsize hrow hfuel i)
    intro r t hr
    subst hr
    dsimp only
    rw [wp_bind]
    apply wp_mono ih
    intro r t hr
    obtain ⟨frames, rfl, hcols, hrows⟩ := hr
    refine ⟨_, rfl, ?_, ?_⟩
    · split
      · exact hcols
      · exact List.forall_mem_cons.mpr ⟨rfl, hcols⟩
    · rw [List.flatMap_cons, List.map_append, ← hrows]
      split
      · rename_i hempty
        rw [List.isEmpty_iff, List.map_eq_nil_iff] at hempty
        rw [hempty, List.map_nil, List.nil_append]
      · rw [List.flatMap_cons]
        congr 1
        simp [dataFrame, cells, List.map_map, Function.comp_def]

/-- One row for each document, none missing and none repeated, under exactly the declared columns. -/
def ReadsEveryDocument (snap : Snapshot Key F) (cfg : EsReadConfig F)
    (fieldTokens : List (String × TypeToken))
    (outs : List (Except (ReadError F) (List (Frame F)))) : Prop :=
  ∃ frames : List (List (Frame F)), outs = frames.map .ok ∧
    (∀ f ∈ frames.flatten, f.columns = fieldTokens.map Prod.fst) ∧
    ((frames.flatten.flatMap Frame.rows).map Except.ok).Perm
      (snap.docs.map fun h => (hitRow cfg fieldTokens h).map (cells fieldTokens))

theorem readsEveryDocument_of_tasks (hn : 0 < numSlices)
    (hrow : ∀ h ∈ snap.docs, hitRow cfg fieldTokens h = .ok (row h))
    {tasks : List (List (List Nat))} {outs : List (Except (ReadError F) (List (Frame F)))}
    (hids : (tasks.flatMap List.flatten).Perm (List.range numSlices))
    (h : List.Forall₂ (fun task out => ∃ frames, out = .ok frames ∧
      (∀ f ∈ frames, f.columns = fieldTokens.map Prod.fst) ∧
      frames.flatMap Frame.rows = (task.flatten.flatMap (snap.sliceDocs numSlices)).map
        fun h => cells fieldTokens (row h)) tasks outs) :
    ReadsEveryDocument snap cfg fieldTokens outs := by
  have hframes : ∃ frames : List (List (Frame F)), outs = frames.map .ok ∧
      (∀ f ∈ frames.flatten, f.columns = fieldTokens.map Prod.fst) ∧
      frames.flatten.flatMap Frame.rows =
        ((tasks.flatMap List.flatten).flatMap (snap.sliceDocs numSlices)).map
          fun h => cells fieldTokens (row h) := by
    clear hids
    induction h with
    | nil => exact ⟨[], rfl, fun f hf => (nomatch hf), rfl⟩
    | cons hout _ ih =>
      obtain ⟨frames, rfl, hcols, hrows⟩ := hout
      obtain ⟨rest, rfl, hrestcols, hrestrows⟩ := ih
      refine ⟨frames :: rest, rfl, ?_, ?_⟩
      · rw [List.flatten_cons]
        exact List.forall_mem_append.mpr ⟨hcols, hrestcols⟩
      · rw [List.flatten_cons, List.flatMap_append, hrows, hrestrows, List.flatMap_cons,
          List.flatMap_append, List.map_append]
  obtain ⟨frames, rfl, hcols, hrows⟩ := hframes
  refine ⟨frames, rfl, hcols, ?_⟩
  have hdocs := (hids.flatMap_right (snap.sliceDocs numSlices)).trans (snap.sliceDocs_perm hn)
  have hcells : (snap.docs.map fun h => (hitRow cfg fieldTokens h).map (cells fieldTokens)) =
      (snap.docs.map fun h => cells fieldTokens (row h)).map Except.ok := by
    rw [List.map_map]
    exact List.map_congr_left fun h hh => by rw [hrow h hh]; rfl
  rw [hrows, hcells]
  exact (hdocs.map _).map _

/-- Each run of `_slice_hits` yields the documents of its slice in order, with the newest id in each
of its searches, and stops after a search for each page and one more. If the documents fit the
declared schema, the tasks that read all the slice ids give one row for each document. -/
theorem distributed_read_exact (snap : Snapshot Key F) (cfg : EsReadConfig F) (opened : String)
    (query : List (String × Json F)) (fieldTokens : List (String × TypeToken)) (numSlices : Nat)
    (hsize : 1 ≤ cfg.batchSize) (hn : 1 ≤ numSlices) :
    (∀ i fuel v s, validId v opened s (none : Option Key) = opened →
      Keyset.pages (snap.sliceDocs numSlices i).length cfg.batchSize.toNat < fuel →
      wp (pitEnv snap v opened cfg.pitKeepAlive)
        (sliceHits (sliceArgs cfg query numSlices i) (fun hits h => .ok (hits ++ [h])) fuel [] none
          opened)
        (fun r t => r = .ok (snap.sliceDocs numSlices i) ∧ t.searches = s.searches +
          Keyset.pages (snap.sliceDocs numSlices i).length cfg.batchSize.toNat + 1) s) ∧
    ((∀ h ∈ snap.docs, ∃ row, hitRow cfg fieldTokens h = .ok row) →
      ∀ (tasks : List (List (List Nat))) fuel,
        (tasks.flatMap List.flatten).Perm (List.range numSlices) →
        Keyset.pages snap.docs.length cfg.batchSize.toNat < fuel →
        (∀ task ∈ tasks, ∀ s, wp (pitEnv snap .run opened cfg.pitKeepAlive)
          (makeSliceReader cfg opened query fieldTokens numSlices fuel task)
          (fun r _ => ∃ frames, r = .ok frames) s) ∧
        ∀ outs, List.Forall₂ (fun task out => ∃ s t,
          (pitEnv snap .run opened cfg.pitKeepAlive).Run s
            (makeSliceReader cfg opened query fieldTokens numSlices fuel task) t out) tasks outs →
          ReadsEveryDocument snap cfg fieldTokens outs) := by
  constructor
  · intro i fuel v s hid hfuel
    apply wp_mono (wp_sliceHits_start (sliceArgs cfg query numSlices i) hsize hfuel hid)
    intro r t hr
    obtain ⟨rfl, hsearches⟩ := hr
    have hyield := foldlM_collect (F := F) (snap.sliceDocs numSlices i) []
    exact ⟨hyield, hsearches _ hyield⟩
  · intro hfit tasks fuel hids hfuel
    have hrow : ∀ h ∈ snap.docs, hitRow cfg fieldTokens h =
        .ok ((hitRow cfg fieldTokens h).toOption.getD []) := fun h hh => by
      obtain ⟨row, hr⟩ := hfit h hh
      rw [hr]
      rfl
    refine ⟨fun task _ s => wp_mono (wp_readSlices hsize hrow hfuel _) ?_,
      fun outs houts => readsEveryDocument_of_tasks hn hrow hids (houts.imp ?_)⟩
    · intro r _ hr
      obtain ⟨frames, hr, -⟩ := hr
      exact ⟨frames, hr⟩
    · rintro task out ⟨s, t, hrun⟩
      exact hrun.ensures (wp_readSlices hsize hrow hfuel _)

end Reader

theorem SliceRead.partitions_ids (r : SliceRead F) :
    r.partitions.flatMap List.flatten = List.range r.numSlices := by
  simp [SliceRead.partitions, List.flatMap_map]

theorem resolveNumSlices_pos (answer : (q : IndexQuery) → q.Reply)
    (h : ((resolveNumSlices index configured strict :
      IndexProg (Except (ReadIndexError F) Nat)).eval answer).1 = .ok n) : 1 ≤ n := by
  have hmax : ∀ i : Int, 1 ≤ (max 1 i).toNat := fun i => by omega
  unfold resolveNumSlices at h
  split at h
  · cases h
    exact hmax _
  · rw [Prog.eval_bind, Prog.eval_query] at h
    dsimp only at h
    split at h
    · cases h
      exact hmax _
    · split at h
      · cases h
      · cases h
        exact Nat.le_refl 1

/-- What `read_index` hands to its slice reader. -/
theorem readIndex_ok {cfg : EsReadConfig F} (answer : (q : IndexQuery) → q.Reply)
    (h : ((readIndex cfg schema).eval answer).1 = .ok r) :
    1 ≤ r.numSlices ∧ r.fieldTokens = schemaFieldTokens schema ∧ r.query = cfg.queryOrAll ∧
      rejectNonStringMapKeys "" r.fieldTokens = (.ok () : Except (ReadSchemaMismatch F) Unit) := by
  rw [readIndex] at h
  split at h
  · cases h
  · dsimp only at h
    split at h
    · cases h
    · rename_i hkeys
      rw [Prog.eval_bind] at h
      dsimp only at h
      split at h
      · cases h
      · rename_i hslices
        rw [Prog.eval_bind, Prog.eval_query, Prog.eval_bind, Prog.eval_query] at h
        dsimp only at h
        split at h
        · cases h
        · cases h
          exact ⟨resolveNumSlices_pos answer hslices, rfl, rfl, hkeys⟩

/-- Two documents, in two slices. -/
def twoNames : Snapshot Nat Empty where
  docs := [⟨some [("name", .str "a")], some "1", 0⟩, ⟨some [("name", .str "b")], some "2", 1⟩]
  ordered := by simp [Keyset.Ordered]
  sliceOf n h := h.sort % n
  sliceOf_lt n h hn := Nat.mod_lt _ hn

/-- A document with two names. -/
def manyNames : Snapshot Nat Empty where
  docs := [⟨some [("name", .list [.str "a", .str "b"])], some "1", 0⟩]
  ordered := by simp [Keyset.Ordered]
  sliceOf n h := h.sort % n
  sliceOf_lt n h hn := Nat.mod_lt _ hn

def nameTokens : List (String × TypeToken) := [("name", .scalar "string")]

def nameConfig : EsReadConfig Empty where
  hosts := "https://es:9200"
  apiKey := some "key"
  index := "people"

theorem distributed_read_exact_two_slices :
    ReadsEveryDocument twoNames nameConfig nameTokens
      [.ok [dataFrame [[("name", .str "a")]] ["name"]],
        .ok [dataFrame [[("name", .str "b")]] ["name"]]] := by
  have h := distributed_read_exact twoNames nameConfig "pit-1" [] nameTokens 2
    (by decide) (by decide)
  refine (h.2 ?_ [[[0]], [[1]]] 3 (by decide) (by decide)).2 _ (.cons ?_ (.cons ?_ .nil))
  · exact List.forall_mem_cons.mpr ⟨⟨_, rfl⟩, List.forall_mem_singleton.mpr ⟨_, rfl⟩⟩
  · exact ⟨⟨"pit-1", 0⟩, _,
      .step ⟨some "pit-2", rfl, rfl⟩ (.step ⟨none, rfl, rfl⟩ (.refl _ _))⟩
  · exact ⟨⟨"pit-1", 0⟩, _,
      .step ⟨some "pit-3", rfl, rfl⟩ (.step ⟨none, rfl, rfl⟩ (.refl _ _))⟩

theorem not_readsEveryDocument_of_error {e : ReadError F} [PyFloat F] {snap : Snapshot Key F}
    {cfg : EsReadConfig F} :
    ¬ReadsEveryDocument snap cfg fieldTokens [.error e] := by
  rintro ⟨frames, h, -⟩
  cases frames with
  | nil => cases h
  | cons f fs => cases h

/-- Where a refreshed id concerns everyone, the second slice of one task searches with an id that is
no longer valid; and a document that does not fit the schema ends its task. -/
theorem read_misses_documents :
    (∃ t out, (pitEnv twoNames .pit "pit-1" "5m").Run ⟨"pit-1", 0⟩
        (makeSliceReader nameConfig "pit-1" [] nameTokens 2 3 [[0, 1]]) t out ∧
      ¬ReadsEveryDocument twoNames nameConfig nameTokens [out]) ∧
    (∃ t out, (pitEnv manyNames .pit "pit-1" "5m").Run ⟨"pit-1", 0⟩
        (makeSliceReader nameConfig "pit-1" [] nameTokens 1 3 [[0]]) t out ∧
      ¬ReadsEveryDocument manyNames nameConfig nameTokens [out]) := by
  refine ⟨⟨_, .error (.search ⟨"No search context found"⟩), .step ⟨some "pit-2", rfl, rfl⟩
      (.step ⟨none, rfl, rfl⟩ (.step ⟨rfl, rfl⟩ (.refl _ _))), not_readsEveryDocument_of_error⟩,
    ⟨_, .error (.coerce (.schemaMismatch
        (.multipleValues (.list [.str "a", .str "b"]) "string"))),
      .step ⟨none, rfl, rfl⟩ (.refl _ _), not_readsEveryDocument_of_error⟩⟩

end EsConnector
