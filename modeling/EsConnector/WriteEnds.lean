import EsConnector.CleanVerdict
import EsConnector.Progress

namespace EsConnector
set_option autoImplicit true

open Interaction

variable {Id Src Line : Type} [DecidableEq Id]

/-- The number of lines of a request that have not been handled. -/
def unhandled (_ : BulkRequest Line) (progress : Handled) : Nat := progress.countP Option.isNone

/-- The progress of a request has a place for each of its lines. -/
def Placed (q : BulkRequest Line) (progress : Handled) : Prop :=
  progress.length = q.operations.length

section Answering

variable {act : Line → Action Id Src} {rules : EsRules} {s s' : EsState Id Src Line}
  {q : BulkRequest Line} {p p' : Handled}

theorem Handles.placed (h : Handles act rules s q p s' p') (hp : Placed q p) : Placed q p' :=
  (h.appliedOf hp).1

theorem Handles.unhandled_lt (h : Handles act rules s q p s' p') : unhandled q p' < unhandled q p := by
  cases h <;> simp [unhandled]

theorem exists_handles (hp : Placed q p) (hnone : none ∈ p) :
    ∃ s' p', Handles act rules s q p s' p' := by
  obtain ⟨done, rest, rfl⟩ := List.append_of_mem hnone
  have hlt : done.length < q.operations.length := by
    rw [← hp, List.length_append, List.length_cons]
    omega
  have hanswers : Answers (act q.operations[done.length]) none := fun op body he => nomatch he
  refine ⟨s, done ++ some none :: rest, .refused (List.getElem?_eq_getElem hlt) hanswers rfl ?_⟩
  intro _
  cases act q.operations[done.length] with
  | index id source => trivial
  | create id source => exact fun h => absurd h (by decide)
  | delete id => exact fun h => absurd h (by decide)

theorem exists_map_some {β : Type} {p : List (Option β)} (hnone : none ∉ p) :
    ∃ items : List β, p = items.map some := by
  induction p with
  | nil => exact ⟨[], rfl⟩
  | cons item p ih =>
    obtain ⟨items, rfl⟩ := ih fun hm => hnone (List.mem_cons_of_mem _ hm)
    cases item with
    | none => exact absurd List.mem_cons_self hnone
    | some item => exact ⟨item :: items, rfl⟩

omit [DecidableEq Id] in
theorem exists_replies (rules : EsRules) (hp : Placed q p) (hnone : none ∉ p) :
    ∃ r, Replies rules q p r := by
  obtain ⟨items, rfl⟩ := exists_map_some hnone
  refine ⟨{ result := .ok { items := some items } }, items, rfl, ?_, ?_, ?_⟩
  · rw [← hp, List.length_map]
  · exact fun _ h => nomatch h
  · exact fun _ => ⟨items, rfl, List.prefix_rfl, fun _ => rfl⟩

theorem elasticsearch_responsive (act : Line → Action Id Src) (rules : EsRules) :
    (elasticsearch act rules).Responsive unhandled Placed where
  fresh _ := List.length_replicate
  keeps _ _ _ _ _ hw hp := hw.placed hp
  work _ _ _ _ _ hw := hw.unhandled_lt
  moves s q p hp := by
    by_cases hnone : none ∈ p
    · exact .inl (exists_handles hp hnone)
    · exact .inr (exists_replies rules hp hnone)

end Answering

section Joining

variable [NdjsonLine Line] {cfg : EsWriteConfig}

omit [NdjsonLine Line] in
theorem wp_embed_calls {p : BulkProg Line α} {post : α → Bool → Prop} {joined : Bool}
    (h : ∀ a, post a joined) :
    wp (joinEnv (T := List Line) (ρ := ChunkResult)) (p.embed PoolQuery.call fun _ r => r) post
      joined := by
  induction p with
  | ret a => exact h a
  | ask q k ih =>
    refine ⟨trivial, fun r joined' hr => ?_⟩
    cases hr
    exact ih r

/-- The writer of a partition shuts its pool down on success and on failure. -/
theorem write_joins (cfg : EsWriteConfig) (clock : PartitionClock)
    (batches : List (List (Option Line))) : Joins (write cfg (shipInto cfg) clock batches) := by
  cases hpool : cfg.pooled with
  | false =>
    apply wp_mono (wp_write_serial (fun _ _ joined => joined = true) (fun joined => joined = true)
      hpool (shipInto cfg) clock batches ?_ (fun _ _ _ h _ => h) rfl)
    · intro r joined h
      cases r with
      | error e => exact h
      | ok row =>
        obtain ⟨t, h, -⟩ := h
        exact h
    · rintro done chunk t _ rfl -
      apply wp_embed_calls
      intro r
      cases r <;> rfl
  | true =>
    rw [Joins, write, wp_bind]
    apply wp_mono (wp_of_asks (fun _ _ => trivial) _ _)
    intro result joined _
    simp only [hpool, if_true]
    rw [wp_bind]
    refine ⟨trivial, fun _ joined' hj => ?_⟩
    cases hj
    cases result <;> rfl

end Joining

section Jobs

variable [NdjsonLine Line] {act : Line → Action Id Src} {rules : EsRules} {cfg : EsWriteConfig}
  {parts : List (Partition Line)} {s s' : EsState Id Src Line} {xs : List (WriterProcess Line)}

omit [NdjsonLine Line] [DecidableEq Id] in
theorem partitionAsks_waits (demands : BulkRequest Line → Prop) (cfg : EsWriteConfig)
    (batches : List (List (Option Line))) :
    WaitsOutstanding (partitionAsks demands cfg batches) := by
  intro g pending h
  rw [partitionAsks] at h
  split at h <;> exact h

theorem WriteJob.placed (h : WriteJob act rules cfg parts s s' xs) :
    JobSound FewItems (fun p => partitionAsks (fun _ => True) cfg p.batches) (fun _ => True)
      (shipOne cfg) (Partition.main cfg) (elasticsearch act rules) (fun _ => True)
      (fun _ => Placed) (fun _ _ => True) parts s' xs :=
  JobSound.steps (fun _ _ _ _ h => Replies.fewItems h)
    ((elasticsearch_responsive act rules).keepsProgress _)
    (fun p _ => write_proper (fun _ _ _ _ => trivial) p.clock) trivial h

/-- A write job can go on until every writer has returned and every send has ended. -/
theorem WriteJob.moves (h : WriteJob act rules cfg parts s s' xs) :
    (∀ x ∈ xs, x.Over) ∨ ∃ b, (elasticsearch act rules).JobMove (shipOne cfg) (s', xs) b :=
  h.placed.moves (elasticsearch_responsive act rules)
    (fun p _ => write_proper (fun _ _ _ _ => trivial) p.clock)
    (fun p _ => partitionAsks_waits _ cfg p.batches)

/-- A write that is going on. -/
abbrev WriteMove (act : Line → Action Id Src) (rules : EsRules) (cfg : EsWriteConfig) :
    EsState Id Src Line × List (WriterProcess Line) →
      EsState Id Src Line × List (WriterProcess Line) → Prop :=
  (elasticsearch act rules).JobMove (shipOne cfg)

theorem WriteJob.move {b : EsState Id Src Line × List (WriterProcess Line)}
    (h : WriteJob act rules cfg parts s s' xs) (hm : WriteMove act rules cfg (s', xs) b) :
    WriteJob act rules cfg parts s b.1 b.2 := by
  cases hm with
  | step i hi hs => exact Relation.ReflTransGen.tail h (.step i hi hs)

theorem WriteJob.ends {b : EsState Id Src Line × List (WriterProcess Line)}
    (h : WriteJob act rules cfg parts s b.1 b.2)
    (hacc : Acc (fun b a => WriteMove act rules cfg a b) b) :
    ∃ c, Relation.ReflTransGen (WriteMove act rules cfg) b c ∧ ∀ y ∈ c.2, y.Over := by
  induction hacc with
  | intro b _ ih =>
    rcases h.moves with hover | ⟨c, hm⟩
    · exact ⟨b, .refl, hover⟩
    · obtain ⟨d, hd, hover⟩ := ih c hm (h.move hm)
      exact ⟨d, .head hm hd, hover⟩

/-- However the writers of the partitions and their sends take turns, and wherever they have been
started again, a write comes to an end: it cannot go on for ever without another restart, it is
stuck only when all of it is over, and there is always a way to that end. -/
theorem every_write_ends (act : Line → Action Id Src) (rules : EsRules) (cfg : EsWriteConfig)
    (parts : List (Partition Line)) (s s' : EsState Id Src Line) (xs : List (WriterProcess Line))
    (hrun : WriteJob act rules cfg parts s s' xs) :
    Acc (fun b a => WriteMove act rules cfg a b) (s', xs) ∧
      ((∀ b, ¬WriteMove act rules cfg (s', xs) b) ↔ ∀ x ∈ xs, x.Over) ∧
      ∃ b, Relation.ReflTransGen (WriteMove act rules cfg) (s', xs) b ∧ ∀ y ∈ b.2, y.Over := by
  have hacc : Acc (fun b a => WriteMove act rules cfg a b) (s', xs) :=
    (elasticsearch_responsive act rules).jobMove_wf.apply (s', xs)
  refine ⟨hacc, ⟨fun hstuck => ?_, fun hover b hb => ?_⟩, hrun.ends hacc⟩
  · rcases hrun.moves with hover | ⟨b, hb⟩
    · exact hover
    · exact absurd hb (hstuck b)
  · cases hb with
    | step i hi hs => exact (hover _ (List.mem_of_getElem? hi)).still hs

def twoSends : EsWriteConfig := { hosts := "h", chunkSize := 1, writeConcurrency := 2 }

/-- Two sends at a time for a batch of two lines. -/
theorem every_write_ends_two_sends :
    ∃ b, Relation.ReflTransGen
        (WriteMove (fun line : String => .index (some line) line) ⟨true, true, true⟩ twoSends)
        (⟨fun _ => none, []⟩,
          [{ rest := Partition.main twoSends { batches := [[some "a", some "b"]] } }]) b ∧
      ∀ y ∈ b.2, y.Over :=
  (every_write_ends _ ⟨true, true, true⟩ twoSends [{ batches := [[some "a", some "b"]] }]
    ⟨fun _ => none, []⟩ _ _ (.refl ..)).2.2

/-- A writer that is over stays as it is while the others go on. -/
theorem Over.kept {a b : EsState Id Src Line × List (WriterProcess Line)} {i : Nat}
    {x : WriterProcess Line} (hm : WriteMove act rules cfg a b) (hi : a.2[i]? = some x)
    (hover : x.Over) : b.2[i]? = some x := by
  cases hm with
  | step j hj hs =>
    by_cases hij : j = i
    · subst hij
      cases hj.symm.trans hi
      exact absurd hs hover.still
    · exact (List.getElem?_set_ne hij).trans hi

/-- A writer that has returned or raised has joined its pool. -/
theorem WriteJob.over {x : WriterProcess Line} (h : WriteJob act rules cfg parts s s' xs)
    (hx : x ∈ xs) (hout : x.rest = .ret out) : x.Over := by
  have hjoins : ∀ main ∈ parts.map (Partition.main cfg), Joins main := by
    intro main hmain
    obtain ⟨p, -, rfl⟩ := List.mem_map.mp hmain
    exact write_joins cfg p.clock p.batches
  exact (Server.Job.joining hjoins h x hx).over hout

/-- Once the writer of a partition has returned a row or raised, nothing that it started is still in
flight: its pool is empty, and whatever the other partitions do it sends nothing more. -/
theorem reported_is_final (act : Line → Action Id Src) (rules : EsRules) (cfg : EsWriteConfig)
    (parts : List (Partition Line)) (s s' : EsState Id Src Line) (xs : List (WriterProcess Line))
    (hrun : WriteJob act rules cfg parts s s' xs) (i : Nat) (x : WriterProcess Line)
    (hi : xs[i]? = some x) (out : Except WriteError SummaryRow) (hout : x.rest = .ret out) :
    x.Over ∧ ∀ b, Relation.ReflTransGen (WriteMove act rules cfg) (s', xs) b →
      b.2[i]? = some x := by
  have hover := hrun.over (List.mem_of_getElem? hi) hout
  refine ⟨hover, fun b hb => ?_⟩
  induction hb with
  | refl => exact hi
  | tail _ hm ih => exact Over.kept hm ih hover

end Jobs

/-- The writer of a batch and of one with a null row, which raises while a send is in flight. -/
theorem reported_is_final_raised :
    ∃ (s : EsState Nat String String) (x : WriterProcess String) (e : WriteError),
      x.rest = .ret (.error e) ∧ s.store 0 = some "a" ∧ x.Over ∧
      ∀ b, Relation.ReflTransGen
        (WriteMove (fun line => .index (some 0) line) ⟨true, true, true⟩ twoSends)
        (s, [x]) b → b.2[0]? = some x := by
  let act : String → Action Nat String := fun line => .index (some 0) line
  let s₀ : EsState Nat String String := ⟨fun _ => none, []⟩
  let item : Item := some (.index, { status := some 201 })
  have hwork : Handles act ⟨true, true, true⟩ s₀ ⟨["a"], .errors⟩ [none] _ [some item] :=
    .applied_single (fun op body he => by cases Option.some_inj.mp he; rfl) rfl .index
  let reply : BulkReply := { result := .error ⟨"ConnectionError", "reset", false⟩ }
  have hreply (t : EsState Nat String String) : (elasticsearch act ⟨true, true, true⟩).reply t
      ⟨["a"], .errors⟩ [some item] reply := rfl
  obtain ⟨s, x, e, hrun, hrest, hstored⟩ : ∃ (s : EsState Nat String String)
      (x : WriterProcess String) (e : WriteError),
      WriteJob act ⟨true, true, true⟩ twoSends [{ batches := [[some "a"], [none]] }] s₀ s [x] ∧
        x.rest = .ret (.error e) ∧ s.store 0 = some "a" :=
    ⟨_, _, _, Server.JobSteps.head (.step 0 rfl (.submit rfl))
      (Server.JobSteps.head (.step 0 rfl (.thread 0 rfl (.work hwork)))
        (Server.JobSteps.head (.step 0 rfl (.thread 0 rfl (.reply (hreply _))))
          (Server.JobSteps.head (.step 0 rfl (.shutdown rfl fun th hth => by
            rw [List.mem_singleton.mp hth]
            exact ⟨_, rfl⟩)) (Server.JobSteps.refl ..)))), rfl, rfl⟩
  obtain ⟨hover, hkept⟩ := reported_is_final act _ _ _ s₀ s [x] hrun 0 x rfl _ hrest
  exact ⟨s, x, e, hrest, hstored, hover, hkept⟩

end EsConnector
