import EsConnector.StreamReplay

namespace EsConnector
set_option autoImplicit true

open Interaction

variable {Id Src Line : Type} [DecidableEq Id] {act : Line → Action Id Src}

/-- A streaming query with what it has told so far: the calls of its callback and its log. -/
structure PolicyState (Id Src Line : Type) extends StreamState Id Src Line where
  events : List StreamQuery := []

/-- An attempt that does not stand at a call of its callback or at its log. -/
def Attempt.Mute (a : Attempt Line) : Prop :=
  match a with
  | ⟨.ask (.onBatch ..) _, none⟩ => False
  | ⟨.ask (.log _) _, none⟩ => False
  | _ => True

section System

variable [NdjsonLine Line]

/-- Structured Streaming under a policy. -/
inductive PolicyStep (act : Line → Action Id Src) (rules : EsRules) (cfg : EsWriteConfig)
    (hasOnBatch : Bool) (onError : OnError) (callback : Callback) (batch : Nat → List (Option Line)) :
    PolicyState Id Src Line → PolicyState Id Src Line → Prop where
  | start (h : σ.attempt = none) :
      PolicyStep act rules cfg hasOnBatch onError callback batch ⟨σ, events⟩
        ⟨{ σ with
          attempts := σ.attempts + 1
          attempt := some { rest := foreachBatch cfg.index hasOnBatch onError σ.checkpoint } }, events⟩
  | turn (ha : σ.attempt = some a) (hmute : a.Mute)
      (hs : StreamStep act rules cfg hasOnBatch callback batch σ σ') :
      PolicyStep act rules cfg hasOnBatch onError callback batch ⟨σ, events⟩ ⟨σ', events⟩
  | onBatch {k : Except CallbackError WriteResult → StreamProg (Except BatchError Unit)}
      (h : σ.attempt = some { rest := .ask (.onBatch batchId result) k })
      (hr : callback batchId result r) :
      PolicyStep act rules cfg hasOnBatch onError callback batch ⟨σ, events⟩
        ⟨{ σ with attempt := some { rest := k r } }, events ++ [.onBatch batchId result]⟩
  | log {k : Unit → StreamProg (Except BatchError Unit)}
      (h : σ.attempt = some { rest := .ask (.log record) k }) :
      PolicyStep act rules cfg hasOnBatch onError callback batch ⟨σ, events⟩
        ⟨{ σ with attempt := some { rest := k () } }, events ++ [.log record]⟩
  | giveUp : PolicyStep act rules cfg hasOnBatch onError callback batch ⟨σ, events⟩
      ⟨{ σ with attempt := none }, events⟩

variable {rules : EsRules} {cfg : EsWriteConfig} {hasOnBatch : Bool} {onError : OnError}
  {callback : Callback} {batch : Nat → List (Option Line)} {σ σ' : StreamState Id Src Line}
  {events : List StreamQuery}

theorem PolicyStep.isEmpty {k : Bool → StreamProg (Except BatchError Unit)}
    (h : σ.attempt = some { rest := .ask .isEmpty k }) :
    PolicyStep act rules cfg hasOnBatch onError callback batch ⟨σ, events⟩
      ⟨{ σ with attempt := some { rest := k (batch σ.checkpoint).isEmpty } }, events⟩ :=
  .turn h trivial (.isEmpty h)

theorem PolicyStep.writeStarts
    {k : Except BulkWriteError WriteResult → StreamProg (Except BatchError Unit)}
    (h : σ.attempt = some { rest := .ask .bulkWrite k })
    (hparts : (parts.flatMap Partition.rows).Perm (batch σ.checkpoint)) :
    PolicyStep act rules cfg hasOnBatch onError callback batch ⟨σ, events⟩
      ⟨{ σ with attempt := some ⟨.ask .bulkWrite k,
          some (parts, parts.map fun p => { rest := p.main cfg })⟩ }, events⟩ :=
  .turn h trivial (.writeStarts h hparts)

theorem PolicyStep.job (h : σ.attempt = some ⟨rest, some (parts, xs)⟩)
    (hs : (elasticsearch act rules).JobStep (shipOne cfg) (parts.map (Partition.main cfg))
      σ.es xs es xs') :
    PolicyStep act rules cfg hasOnBatch onError callback batch ⟨σ, events⟩
      ⟨{ σ with es, attempt := some ⟨rest, some (parts, xs')⟩ }, events⟩ :=
  .turn h (by simp [Attempt.Mute]) (.job h hs)

theorem PolicyStep.writeEnds
    {k : Except BulkWriteError WriteResult → StreamProg (Except BatchError Unit)}
    (h : σ.attempt = some ⟨.ask .bulkWrite k, some (parts, xs)⟩) (hrows : Collected xs rows) :
    PolicyStep act rules cfg hasOnBatch onError callback batch ⟨σ, events⟩
      ⟨{ σ with attempt := some { rest := k (.ok (mergePartitionResults rows)) } }, events⟩ :=
  .turn h trivial (.writeEnds h hrows)

theorem PolicyStep.commit (h : σ.attempt = some { rest := .ret (.ok ()) }) :
    PolicyStep act rules cfg hasOnBatch onError callback batch ⟨σ, events⟩
      ⟨{ σ with checkpoint := σ.checkpoint + 1, attempts := 0, attempt := none }, events⟩ :=
  .turn h trivial (.commit h)

/-- With `on_error='raise'` this is the stream that raises. -/
theorem policyStep_raise_iff :
    (∃ events', PolicyStep act rules cfg hasOnBatch .raise callback batch ⟨σ, events⟩ ⟨σ', events'⟩) ↔
      StreamStep act rules cfg hasOnBatch callback batch σ σ' := by
  constructor
  · intro h
    obtain ⟨events', h⟩ := h
    cases h with
    | start hnone => exact .start hnone
    | turn ha hmute hs => exact hs
    | onBatch ha hr => exact .onBatch ha hr
    | log ha => exact .log ha
    | giveUp => exact .giveUp
  · intro hs
    cases hs with
    | start hnone => exact ⟨_, .start hnone⟩
    | isEmpty ha => exact ⟨_, .isEmpty ha⟩
    | writeStarts ha hparts => exact ⟨_, .writeStarts ha hparts⟩
    | job ha hs => exact ⟨_, .job ha hs⟩
    | writeEnds ha hrows => exact ⟨_, .writeEnds ha hrows⟩
    | writeRaises ha e => exact ⟨_, .turn ha trivial (.writeRaises ha e)⟩
    | onBatch ha hr => exact ⟨_, .onBatch ha hr⟩
    | log ha => exact ⟨_, .log ha⟩
    | giveUp => exact ⟨_, .giveUp⟩
    | commit ha => exact ⟨_, .commit ha⟩

end System

/-- The policy finds no fault with a result. -/
def OnError.Passes (onError : OnError) (index : String) (result : WriteResult) : Prop :=
  match onError with
  | .raise => Accepts index result
  | .log => ¬(result.errors.getD 0 ≠ 0 ∨ 0 < result.unaccounted.getD 0)
  | .ignore => False

/-- The policy has let a micro-batch pass whose write may have failed: the one that logs says so. -/
def OnError.Excuses (onError : OnError) (index : String) (batchId : Int)
    (events : List StreamQuery) : Prop :=
  match onError with
  | .raise => False
  | .log => ∃ result, .log (.batchFailure batchId index result) ∈ events
  | .ignore => True

theorem OnError.Excuses.mono {onError : OnError} (h : onError.Excuses index batchId events)
    (hsub : events ⊆ events') : onError.Excuses index batchId events' := by
  cases onError with
  | raise => exact h
  | log =>
    obtain ⟨result, hresult⟩ := h
    exact ⟨result, hsub hresult⟩
  | ignore => trivial

/-- The callback never makes the result of a failed write one that the policy finds no fault with. -/
def Callback.UnmaskingFor (callback : Callback) (onError : OnError) (index : String) : Prop :=
  ∀ batchId rows result', callback batchId (mergePartitionResults rows) (.ok result') →
    onError.Passes index result' → Accepts index (mergePartitionResults rows)

theorem OnError.Passes.accepts_merge {onError : OnError} {rows : List SummaryRow}
    (h : onError.Passes index (mergePartitionResults rows)) :
    Accepts index (mergePartitionResults rows) := by
  cases onError with
  | raise => exact h
  | log =>
    obtain ⟨-, -, he, -, -, -, hu, -⟩ := mergePartitionResults_numbers rows
    have hno : ¬∃ e, (reconcileOrRaise (mergePartitionResults rows) index).2 = .error e := by
      rw [reconcileOrRaise_error_iff, signals_mergePartitionResults, not_not]
      rw [OnError.Passes, he, hu, not_or, not_not, not_lt] at h
      exact h
    cases hv : (reconcileOrRaise (mergePartitionResults rows) index).2 with
    | error e => exact absurd ⟨e, hv⟩ hno
    | ok result => exact ⟨result, hv⟩
  | ignore => exact h.elim

/-- The surroundings of one micro-batch: the summary rows of its write, and what it has told. -/
def tellingEnv (callback : Callback) (empty : Bool) :
    Env (Option (List SummaryRow) × List StreamQuery) StreamQuery StreamQuery.Reply where
  asks g q := q = .bulkWrite → g.1 = none
  answers g q := match q with
    | .isEmpty => fun r g' => r = empty ∧ g' = g
    | .bulkWrite => fun r g' => (∃ e, r = .error e ∧ g' = g) ∨
        ∃ rows, r = .ok (mergePartitionResults rows) ∧ g' = (some rows, g.2)
    | .onBatch batchId result => fun r g' => callback batchId result r ∧
        g' = (g.1, g.2 ++ [.onBatch batchId result])
    | .log record => fun _ g' => g' = (g.1, g.2 ++ [.log record])

section Telling

variable {callback : Callback} {empty : Bool} {g : Option (List SummaryRow) × List StreamQuery}

theorem wp_tell (records : List LogRecord)
    {post : Unit → Option (List SummaryRow) × List StreamQuery → Prop}
    (h : post () (g.1, g.2 ++ records.map .log)) :
    wp (tellingEnv callback empty) (logAll records) post g := by
  induction records generalizing g with
  | nil =>
    rw [List.map_nil, List.append_nil] at h
    exact h
  | cons r rs ih =>
    rw [logAll, wp_bind, wp_query]
    refine ⟨fun he => (by cases he), ?_⟩
    intro _ g' hg
    obtain rfl := hg
    apply ih
    rw [List.append_assoc]
    exact h

theorem wp_show (hasOnBatch : Bool) (batchId : Int) (result : WriteResult)
    {post : Except CallbackError WriteResult → Option (List SummaryRow) × List StreamQuery → Prop}
    (h : ∀ r g', (hasOnBatch = true → .onBatch batchId result ∈ g'.2) →
      r = .ok result ∨ callback batchId result r → g'.1 = g.1 → post r g') :
    wp (tellingEnv callback empty) (callOnBatch hasOnBatch batchId result) post g := by
  rw [callOnBatch]
  split
  · rw [wp_query]
    refine ⟨fun he => (by cases he), ?_⟩
    intro r g' hg
    obtain ⟨hr, rfl⟩ := hg
    exact h r _ (fun _ => List.mem_append_right _ List.mem_cons_self) (.inr hr) rfl
  · rename_i hno
    exact h _ _ (fun hyes => absurd hyes hno) (.inl rfl) rfl

theorem wp_applyPolicy (onError : OnError) (index : String) (batchId : Int) (result : WriteResult)
    {post : Except BatchError Unit → Option (List SummaryRow) × List StreamQuery → Prop}
    (h : ∀ r g', g'.1 = g.1 → g.2 ⊆ g'.2 →
      (r = .ok () → onError.Passes index result ∨ onError.Excuses index batchId g'.2) → post r g') :
    wp (tellingEnv callback empty) (applyPolicy onError index batchId result) post g := by
  have hsub (events : List StreamQuery) : g.2 ⊆ g.2 ++ events := List.subset_append_left ..
  cases onError with
  | raise =>
    dsimp only [applyPolicy]
    rw [wp_bind]
    apply wp_tell
    cases hv : (reconcileOrRaise result index).2 with
    | error e => exact h _ _ rfl (hsub _) fun he => by cases he
    | ok accepted => exact h _ _ rfl (hsub _) fun _ => .inl ⟨accepted, hv⟩
  | log =>
    rw [applyPolicy, wp_bind]
    apply wp_tell
    rw [wp_pure]
    refine h _ _ rfl (hsub _) ?_
    intro _
    by_cases hfault : result.errors.getD 0 ≠ 0 ∨ 0 < result.unaccounted.getD 0
    · refine .inr ⟨result, List.mem_append_right _ (List.mem_map_of_mem ?_)⟩
      rw [logPolicy, if_pos hfault]
      exact List.mem_append_left _ List.mem_cons_self
    · exact .inl hfault
  | ignore => exact h _ _ rfl (List.Subset.refl _) fun _ => .inr trivial

/-- A micro-batch that returns normally has been shown to the callback, and it is empty, or no
partition of its write reported an error or lost a row, or the policy let that pass. -/
theorem wp_tellingBatch {onError : OnError} (hcallback : callback.UnmaskingFor onError index)
    (hasOnBatch : Bool) (batchId : Int) (empty : Bool) :
    wp (tellingEnv callback empty) (foreachBatch index hasOnBatch onError batchId)
      (fun r g => r = .ok () → (hasOnBatch = true → ∃ result, .onBatch batchId result ∈ g.2) ∧
        (empty = true ∨ (∃ rows, g.1 = some rows ∧ CleanRows rows) ∨
          onError.Excuses index batchId g.2)) (none, []) := by
  rw [foreachBatch, wp_bind, wp_query]
  refine ⟨fun _ => rfl, ?_⟩
  intro e g hg
  obtain ⟨rfl, rfl⟩ := hg
  cases e with
  | true =>
    rw [if_pos rfl, wp_bind]
    apply wp_show
    intro r g' hshown _ _
    cases r with
    | error e => exact fun h => by cases h
    | ok result => exact fun _ => ⟨fun h => ⟨_, hshown h⟩, .inl rfl⟩
  | false =>
    rw [if_neg Bool.false_ne_true, wp_bind, wp_query]
    refine ⟨fun _ => rfl, ?_⟩
    intro r g hg
    rcases hg with ⟨e, rfl, rfl⟩ | ⟨rows, rfl, rfl⟩
    · exact fun h => by cases h
    · dsimp only
      rw [wp_bind]
      apply wp_show
      intro r g₁ hshown hr hrows
      cases r with
      | error e => exact fun h => by cases h
      | ok result =>
        apply wp_applyPolicy
        intro r g₂ hsame hmore hpass hok
        refine ⟨fun h => ⟨_, hmore (hshown h)⟩, .inr ?_⟩
        rcases hpass hok with hpass | hexcused
        · -- the policy finds no fault with what the callback left, so there is none in the write
          have haccepts : Accepts index (mergePartitionResults rows) := by
            rcases hr with he | hr
            · cases he
              exact hpass.accepts_merge
            · exact hcallback _ _ _ hr hpass
          obtain ⟨accepted, haccepted⟩ := haccepts
          exact .inl ⟨rows, hsame.trans hrows, cleanRows_of_accept haccepted⟩
        · exact .inr hexcused

end Telling

section Invariant

variable [NdjsonLine Line] {rules : EsRules} {cfg : EsWriteConfig} {hasOnBatch : Bool}
  {onError : OnError} {callback : Callback} {batch : Nat → List (Option Line)}
  {π π' : PolicyState Id Src Line} {st₀ : Store Id Src}

/-- What is known of a running attempt at micro-batch `k`. -/
structure TellingSound (act : Line → Action Id Src) (rules : EsRules) (cfg : EsWriteConfig)
    (hasOnBatch : Bool) (onError : OnError) (callback : Callback) (batch : Nat → List (Option Line))
    (k : Nat) (es : EsState Id Src Line) (events : List StreamQuery) (a : Attempt Line)
    (g : Option (List SummaryRow) × List StreamQuery) : Prop where
  main : (tellingEnv callback (batch k).isEmpty).Reach (none, [])
    (foreachBatch cfg.index hasOnBatch onError k) g a.rest
  told : g.2 ⊆ events
  written : ∀ rows, g.1 = some rows → CleanRows rows →
    ∀ line ∈ (batch k).reduceOption, InEffect act line es.store
  writing : ∀ parts xs, a.job = some (parts, xs) →
    (parts.flatMap Partition.rows).Perm (batch k) ∧ (∃ next, a.rest = .ask .bulkWrite next) ∧
      WriteJobSound act rules cfg parts es.store es xs

def PolicySound (act : Line → Action Id Src) (rules : EsRules) (cfg : EsWriteConfig)
    (hasOnBatch : Bool) (onError : OnError) (callback : Callback) (batch : Nat → List (Option Line))
    (π : PolicyState Id Src Line) : Prop :=
  ∀ a, π.attempt = some a → ∃ g,
    TellingSound act rules cfg hasOnBatch onError callback batch π.checkpoint π.es π.events a g

theorem TellingSound.resume {q : StreamQuery} {r : q.Reply}
    {next : q.Reply → StreamProg (Except BatchError Unit)}
    (h : TellingSound act rules cfg hasOnBatch onError callback batch k es events
      { rest := .ask q next } g)
    (ha : (tellingEnv callback (batch k).isEmpty).answers g q r (g.1, g.2 ++ more)) :
    TellingSound act rules cfg hasOnBatch onError callback batch k es (events ++ more)
      { rest := next r } (g.1, g.2 ++ more) :=
  ⟨h.main.snoc ha, List.append_subset.mpr ⟨List.Subset.trans h.told (List.subset_append_left ..),
    List.subset_append_right ..⟩, h.written, fun parts xs hj => (by cases hj)⟩

theorem TellingSound.unwritten (hcallback : callback.UnmaskingFor onError cfg.index)
    (h : TellingSound act rules cfg hasOnBatch onError callback batch k es events a g)
    (hr : a.rest = .ask .bulkWrite next) : g.1 = none := by
  have hmain := h.main
  rw [hr] at hmain
  exact hmain.asks (wp_tellingBatch hcallback ..) rfl

theorem TellingSound.committed (hcallback : callback.UnmaskingFor onError cfg.index)
    (h : TellingSound act rules cfg hasOnBatch onError callback batch k es events
      { rest := .ret (.ok ()) } g) :
    (hasOnBatch = true → ∃ result, .onBatch k result ∈ events) ∧
      (¬onError.Excuses cfg.index k events →
        ∀ line ∈ (batch k).reduceOption, InEffect act line es.store) := by
  obtain ⟨hshown, hdone⟩ := Env.Run.ensures h.main (wp_tellingBatch hcallback ..) rfl
  constructor
  · intro hyes
    obtain ⟨result, hresult⟩ := hshown hyes
    exact ⟨result, h.told hresult⟩
  · intro hexcused
    rcases hdone with hempty | ⟨rows, hg, hclean⟩ | hexcuse
    · intro line hl
      rw [List.isEmpty_iff.mp hempty] at hl
      cases hl
    · exact h.written rows hg hclean
    · exact absurd (hexcuse.mono h.told) hexcused

/-- What a stream has told and made of the index. -/
structure StreamView (Id Src : Type) where
  checkpoint : Nat
  store : Store Id Src
  events : List StreamQuery

def PolicyState.view (π : PolicyState Id Src Line) : StreamView Id Src :=
  ⟨π.checkpoint, π.es.store, π.events⟩

/-- A consumer of micro-batches that writes some of the current one, or passes to the next: it has
shown the batch, and the batch is in effect or excused. -/
inductive Passing (act : Line → Action Id Src) (index : String) (hasOnBatch : Bool)
    (onError : OnError) (batch : Nat → List (Option Line)) :
    StreamView Id Src → StreamView Id Src → Prop where
  | stay (hu : Untouched act (batch k).reduceOption st st') (hmore : events ⊆ events') :
      Passing act index hasOnBatch onError batch ⟨k, st, events⟩ ⟨k, st', events'⟩
  | pass {k : Nat} (hshown : hasOnBatch = true → ∃ result, .onBatch k result ∈ events)
      (hdone : ¬onError.Excuses index k events →
        ∀ line ∈ (batch k).reduceOption, InEffect act line st) :
      Passing act index hasOnBatch onError batch ⟨k, st, events⟩ ⟨k + 1, st, events⟩

/-- Every micro-batch before the checkpoint has been shown, and is in effect where no batch since
then names the same document, unless it is excused. -/
structure BatchesAccounted (act : Line → Action Id Src) (index : String) (hasOnBatch : Bool)
    (onError : OnError) (batch : Nat → List (Option Line)) (st₀ : Store Id Src)
    (v : StreamView Id Src) : Prop where
  shown : hasOnBatch = true → ∀ k < v.checkpoint, ∃ result, .onBatch k result ∈ v.events
  stored : ∀ k < v.checkpoint, ¬onError.Excuses index k v.events →
    ∀ line ∈ (batch k).reduceOption, (∀ later, k < later → later ≤ v.checkpoint →
      ∀ other ∈ (batch later).reduceOption, (act other).id ≠ (act line).id) →
    InEffect act line v.store
  others : ∀ i, (∀ k ≤ v.checkpoint, ∀ line ∈ (batch k).reduceOption, (act line).id ≠ some i) →
    v.store i = st₀ i

omit [DecidableEq Id] [NdjsonLine Line] in
theorem Passing.accounted {v v' : StreamView Id Src}
    (h : BatchesAccounted act index hasOnBatch onError batch st₀ v)
    (hp : Passing act index hasOnBatch onError batch v v') :
    BatchesAccounted act index hasOnBatch onError batch st₀ v' := by
  cases hp with
  | stay hu hmore =>
    rename_i current st st' events events'
    refine ⟨?_, ?_, ?_⟩
    · intro hyes k hk
      obtain ⟨result, hresult⟩ := h.shown hyes k hk
      exact ⟨result, hmore hresult⟩
    · intro k hk hexcused line hline hlast
      have hin := h.stored k hk (fun hx => hexcused (hx.mono hmore)) line hline hlast
      apply hin.congr
      intro i hi
      apply hu i
      intro other hother he
      exact hlast current hk le_rfl other hother (he.trans hi.symm)
    · intro i hi
      exact (hu i (hi current le_rfl)).trans (h.others i hi)
  | pass hshown hdone =>
    rename_i current st events
    refine ⟨?_, ?_, ?_⟩
    · intro hyes k hk
      rcases Nat.lt_succ_iff_lt_or_eq.mp hk with hk | rfl
      · exact h.shown hyes k hk
      · exact hshown hyes
    · intro k hk hexcused line hline hlast
      rcases Nat.lt_succ_iff_lt_or_eq.mp hk with hk | rfl
      · exact h.stored k hk hexcused line hline fun later hlt hle =>
          hlast later hlt (Nat.le_succ_of_le hle)
      · exact hdone hexcused line hline
    · intro i hi
      exact h.others i fun k hk => hi k (Nat.le_succ_of_le hk)

/-- The write of the current micro-batch starts, its rows split in some way. -/
theorem TellingSound.starts (hhonest : rules.honest = true) (hk : Keyed act (batch k).reduceOption)
    (h : TellingSound act rules cfg hasOnBatch onError callback batch k es events
      { rest := .ask .bulkWrite next } g)
    (hparts : (parts.flatMap Partition.rows).Perm (batch k)) :
    TellingSound act rules cfg hasOnBatch onError callback batch k es events
      ⟨.ask .bulkWrite next, some (parts, parts.map fun p => { rest := p.main cfg })⟩ g := by
  refine ⟨h.main, h.told, h.written, ?_⟩
  intro parts xs hj
  cases hj
  have hkeyed := hk.perm (inputLines_perm hparts)
  exact ⟨hparts, ⟨_, rfl⟩, JobSound.start
    (truthful_keeps hkeyed.effect hhonest fun _ _ _ _ _ hq hw => Untouched.work hkeyed hq hw)
    (fun p hp => write_proper (allowsChunks_inputLines hp) p.clock) fun _ _ => rfl⟩

/-- A step of the write, which changes documents of the micro-batch only. -/
theorem TellingSound.works (hhonest : rules.honest = true) (hk : Keyed act (batch k).reduceOption)
    (hcallback : callback.UnmaskingFor onError cfg.index)
    (h : TellingSound act rules cfg hasOnBatch onError callback batch k es events
      ⟨rest, some (parts, xs)⟩ g)
    (hs : (elasticsearch act rules).JobStep (shipOne cfg) (parts.map (Partition.main cfg))
      es xs es' xs') :
    Untouched act (batch k).reduceOption es.store es'.store ∧
      TellingSound act rules cfg hasOnBatch onError callback batch k es' events
        ⟨rest, some (parts, xs')⟩ g := by
  obtain ⟨hparts, ⟨next, hrest⟩, hjob⟩ := h.writing _ _ rfl
  have hperm := inputLines_perm hparts
  obtain ⟨hsame, hnext⟩ := hjob.step hhonest (hk.perm hperm) hs
  refine ⟨hsame.perm hperm, h.main, h.told, ?_, ?_⟩
  · intro rows hrows
    rw [h.unwritten hcallback hrest] at hrows
    cases hrows
  · intro parts xs hj
    cases hj
    exact ⟨hparts, ⟨next, hrest⟩, hnext⟩

/-- The write ends with a row for each partition. -/
theorem TellingSound.ends {next : Except BulkWriteError WriteResult → StreamProg (Except BatchError Unit)}
    (h : TellingSound act rules cfg hasOnBatch onError callback batch k es events
      ⟨.ask .bulkWrite next, some (parts, xs)⟩ g) (hrows : Collected xs rows) :
    TellingSound act rules cfg hasOnBatch onError callback batch k es events
      { rest := next (.ok (mergePartitionResults rows)) } (some rows, g.2) := by
  obtain ⟨hparts, -, hjob⟩ := h.writing _ _ rfl
  refine ⟨h.main.snoc (.inr ⟨_, rfl, rfl⟩), h.told, ?_, fun parts xs hj => (by cases hj)⟩
  intro rows hr hclean line hl
  cases hr
  exact hjob.clean hrows hclean line ((inputLines_perm hparts).mem_iff.mpr hl)

/-- A step of the stream refines the consumer. -/
theorem PolicyStep.refines (hhonest : rules.honest = true)
    (hcallback : callback.UnmaskingFor onError cfg.index)
    (hk : ∀ k, Keyed act (batch k).reduceOption)
    (hs : PolicyStep act rules cfg hasOnBatch onError callback batch π π')
    (h : PolicySound act rules cfg hasOnBatch onError callback batch π) :
    PolicySound act rules cfg hasOnBatch onError callback batch π' ∧
      Passing act cfg.index hasOnBatch onError batch π.view π'.view := by
  cases hs with
  | start hnone =>
    refine ⟨fun a ha => ⟨(none, []), ?_⟩, .stay (fun _ _ => rfl) (List.Subset.refl _)⟩
    cases ha
    exact ⟨.refl .., List.nil_subset _, fun rows hg => (by cases hg), fun parts xs hj => (by cases hj)⟩
  | onBatch ha hr =>
    obtain ⟨g, hg⟩ := h _ ha
    refine ⟨?_, .stay (fun _ _ => rfl) (List.subset_append_left ..)⟩
    intro a ha'
    cases ha'
    exact ⟨_, hg.resume ⟨hr, rfl⟩⟩
  | log ha =>
    obtain ⟨g, hg⟩ := h _ ha
    refine ⟨?_, .stay (fun _ _ => rfl) (List.subset_append_left ..)⟩
    intro a ha'
    cases ha'
    exact ⟨_, hg.resume rfl⟩
  | giveUp => exact ⟨fun a ha => (by cases ha), .stay (fun _ _ => rfl) (List.Subset.refl _)⟩
  | turn hsome hmute hs =>
    rename_i a σ σ' events
    cases hs with
    | start hnone =>
      rw [hnone] at hsome
      cases hsome
    | onBatch ha hr =>
      cases hsome.symm.trans ha
      exact hmute.elim
    | log ha =>
      cases hsome.symm.trans ha
      exact hmute.elim
    | giveUp => exact ⟨fun a ha => (by cases ha), .stay (fun _ _ => rfl) (List.Subset.refl _)⟩
    | isEmpty ha =>
      obtain ⟨g, hg⟩ := h _ ha
      refine ⟨fun a ha' => ⟨g, ?_⟩, .stay (fun _ _ => rfl) (List.Subset.refl _)⟩
      cases ha'
      exact ⟨hg.main.snoc ⟨rfl, rfl⟩, hg.told, hg.written, fun parts xs hj => (by cases hj)⟩
    | writeStarts ha hparts =>
      obtain ⟨g, hg⟩ := h _ ha
      refine ⟨fun a ha' => ⟨g, ?_⟩, .stay (fun _ _ => rfl) (List.Subset.refl _)⟩
      cases ha'
      exact hg.starts hhonest (hk σ.checkpoint) hparts
    | job ha hs =>
      obtain ⟨g, hg⟩ := h _ ha
      obtain ⟨huntouched, hnext⟩ := hg.works hhonest (hk σ.checkpoint) hcallback hs
      refine ⟨fun a ha' => ⟨g, ?_⟩, .stay huntouched (List.Subset.refl _)⟩
      cases ha'
      exact hnext
    | writeEnds ha hrows =>
      obtain ⟨g, hg⟩ := h _ ha
      refine ⟨?_, .stay (fun _ _ => rfl) (List.Subset.refl _)⟩
      intro a ha'
      cases ha'
      exact ⟨_, hg.ends hrows⟩
    | writeRaises ha e =>
      obtain ⟨g, hg⟩ := h _ ha
      refine ⟨fun a ha' => ⟨g, ?_⟩, .stay (fun _ _ => rfl) (List.Subset.refl _)⟩
      cases ha'
      exact ⟨hg.main.snoc (.inl ⟨e, rfl, rfl⟩), hg.told, hg.written, fun parts xs hj => (by cases hj)⟩
    | commit ha =>
      obtain ⟨g, hg⟩ := h _ ha
      obtain ⟨hshown, hdone⟩ := hg.committed hcallback
      exact ⟨fun a ha => (by cases ha), .pass hshown hdone⟩

/-- Under every policy each micro-batch before the checkpoint has been shown to the callback, and is
in effect as long as no later batch names its documents, unless the policy excuses it: the one that
raises excuses none, and the one that logs only those that its log names. -/
theorem stream_accounts (act : Line → Action Id Src) (hhonest : rules.honest = true)
    (cfg : EsWriteConfig) (hasOnBatch : Bool) (onError : OnError) (callback : Callback)
    (hcallback : callback.UnmaskingFor onError cfg.index) (batch : Nat → List (Option Line))
    (hk : ∀ k, Keyed act (batch k).reduceOption) (es : EsState Id Src Line)
    (π : PolicyState Id Src Line)
    (hrun : Relation.ReflTransGen (PolicyStep act rules cfg hasOnBatch onError callback batch)
      ⟨{ es }, []⟩ π) :
    BatchesAccounted act cfg.index hasOnBatch onError batch es.store π.view := by
  have hinv : PolicySound act rules cfg hasOnBatch onError callback batch π ∧
      BatchesAccounted act cfg.index hasOnBatch onError batch es.store π.view := by
    induction hrun with
    | refl => exact ⟨fun a ha => (by cases ha), fun _ k hk => (by cases hk), fun k hk => (by cases hk),
        fun _ _ => rfl⟩
    | tail _ hs ih =>
      obtain ⟨hsound, hpassing⟩ := hs.refines hhonest hcallback hk ih.1
      exact ⟨hsound, hpassing.accounted ih.2⟩
  exact hinv.2

theorem PolicyStep.jobs {σ : StreamState Id Src Line} {events : List StreamQuery}
    {parts : List (Partition Line)} {xs xs' : List (WriterProcess Line)}
    (ha : σ.attempt = some ⟨rest, some (parts, xs)⟩)
    (hs : (elasticsearch act rules).JobSteps (shipOne cfg) (parts.map (Partition.main cfg))
      σ.es xs es xs') :
    Relation.ReflTransGen (PolicyStep act rules cfg hasOnBatch onError callback batch) ⟨σ, events⟩
      ⟨{ σ with es, attempt := some ⟨rest, some (parts, xs')⟩ }, events⟩ := by
  let at_ (a : EsState Id Src Line × List (WriterProcess Line)) : PolicyState Id Src Line :=
    ⟨{ σ with es := a.1, attempt := some ⟨rest, some (parts, a.2)⟩ }, events⟩
  have h : Relation.ReflTransGen (PolicyStep act rules cfg hasOnBatch onError callback batch)
      (at_ (σ.es, xs)) (at_ (es, xs')) :=
    hs.lift at_ fun a b hab => .job rfl hab
  dsimp only [at_] at h
  rwa [← ha] at h

theorem PolicyStep.logs {σ : StreamState Id Src Line} {events : List StreamQuery}
    (records : List LogRecord) {p : StreamProg (Except BatchError Unit)}
    (ha : σ.attempt = some { rest := logAll records >>= fun _ => p }) :
    Relation.ReflTransGen (PolicyStep act rules cfg hasOnBatch onError callback batch) ⟨σ, events⟩
      ⟨{ σ with attempt := some { rest := p } }, events ++ records.map .log⟩ := by
  induction records generalizing σ events with
  | nil =>
    have hσ : σ = { σ with attempt := some { rest := p } } := by
      rw [show some { rest := p } = σ.attempt from ha.symm]
    rw [List.map_nil, List.append_nil, ← hσ]
  | cons r rs ih =>
    have hrest : σ.attempt = some { rest := .ask (.log r) fun _ => logAll rs >>= fun _ => p } := ha
    have h := @ih { σ with attempt := some { rest := logAll rs >>= fun _ => p } }
      (events ++ [.log r]) rfl
    rw [List.append_assoc] at h
    exact .head (.log hrest) h

end Invariant

/-- Under the policy that logs, a micro-batch whose index action is rejected and whose delete is sent
twice. -/
theorem stream_accounts_rejected_line :
    ∃ π : PolicyState Nat String String, π.checkpoint = 1 ∧ π.es.store 1 = none ∧
      (∃ result, .log (.batchFailure 0 "" result) ∈ π.events) ∧
      BatchesAccounted indexAndDelete "" true .log
        (fun k => if k = 0 then [some "a", some "d"] else []) (fun _ => some "old") π.view := by
  let batch : Nat → List (Option String) := fun k => if k = 0 then [some "a", some "d"] else []
  let callback : Callback := fun _ result reply => reply = .ok result
  let es : EsState Nat String String := ⟨fun _ => some "old", []⟩
  have hkeyed (k : Nat) : Keyed indexAndDelete (batch k).reduceOption := by
    cases k with
    | zero => exact indexAndDelete_keyed
    | succ k => exact ⟨fun _ h => absurd h List.not_mem_nil, List.nodup_nil⟩
  have hcallback : callback.UnmaskingFor .log deletingConfig.index := by
    intro batchId rows result' hresult hpass
    cases hresult
    exact hpass.accepts_merge
  have hparts : (([{ batches := [[some "a", some "d"]] }] : List (Partition String)).flatMap
      Partition.rows).Perm [some "a", some "d"] := .refl _
  obtain ⟨es', x, row, hjob, hrest, hrow, -, hdeleted⟩ := delete_retried false es
  have hfault : (mergePartitionResults [row]).errors.getD 0 ≠ 0 ∨
      0 < (mergePartitionResults [row]).unaccounted.getD 0 := by
    obtain ⟨-, -, he, -⟩ := mergePartitionResults_numbers [row]
    rw [he, List.map_singleton, hrow]
    exact .inl (by decide)
  have hstart : Relation.ReflTransGen
      (PolicyStep indexAndDelete ⟨true, true, true⟩ deletingConfig true .log callback batch)
      ⟨{ es }, []⟩ ⟨{ es }, []⟩ := .refl
  have hrun := hstart |>.tail (.start rfl) |>.tail (.isEmpty rfl)
    |>.tail (.writeStarts rfl hparts) |>.trans (PolicyStep.jobs rfl hjob)
    |>.tail (.writeEnds rfl (.cons hrest .nil)) |>.tail (.onBatch rfl rfl)
    |>.trans (PolicyStep.logs (logPolicy "" 0 (mergePartitionResults [row])) rfl)
    |>.tail (.commit rfl)
  have haccounts := stream_accounts indexAndDelete rfl deletingConfig true .log callback hcallback
    batch hkeyed es _ hrun
  refine ⟨_, rfl, hdeleted, ⟨mergePartitionResults [row],
    List.mem_append_right _ (List.mem_map_of_mem ?_)⟩, haccounts⟩
  rw [logPolicy, if_pos hfault]
  exact List.mem_append_left _ List.mem_cons_self

end EsConnector
