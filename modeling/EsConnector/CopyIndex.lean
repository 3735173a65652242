import EsConnector.CopiedRows
import EsConnector.DistributedRead

namespace EsConnector
set_option autoImplicit true

open Interaction

variable {F : Type} [PyFloat F] {J : SparkFunctions F} {r : Resolver}
  {parse : String → Option (Json F)} {json : SparkType → SparkValue F → Json F}
  {cfg : EsWriteConfig} {schema : Schema} {rows : List (Row F)} {name : String}

/-- A plain frame that is indexed under a column of distinct ids. -/
structure PlainWrite (J : SparkFunctions F) (parse : String → Option (Json F))
    (json : SparkType → SparkValue F → Json F) (r : Resolver) (cfg : EsWriteConfig)
    (schema : Schema) (rows : List (Row F)) (name : String) : Prop where
  objects : WritesObjects J parse json
  restores : RestoresJson J parse
  opType : cfg.opType = "index"
  id : cfg.idColumnName = some name
  plain : PlainSchema r schema
  quiet : hostileColumns schema = []
  back : ∀ f ∈ schema, ComesBack f.2
  typed : ∀ row ∈ rows, CellsTyped InRange schema row
  distinct : (rows.map (writtenId J schema name)).Nodup

/-- The plan of a plain write: each row has the line that `build_ndjson` gives it. -/
theorem PlainWrite.planned (h : PlainWrite J parse json r cfg schema rows name) {indexExists : Bool}
    {lines : List (Option String)}
    (hlines : bulkWriteLines J r cfg indexExists ⟨schema, rows⟩ = .ok lines) :
    ∃ line : Column F, Preflighted cfg (normalizedSchema schema) ∧
      buildNdjson J r cfg (normalizedSchema schema) = .ok line ∧
      lines = rows.map fun row => lineOf line (mapCells timestampLeaf schema row) := by
  have hprepared : preparedFrame J r ⟨schema, rows⟩ =
      .ok ⟨normalizedSchema schema, rows.map (mapCells timestampLeaf schema)⟩ := by
    rw [preparedFrame, sanitizeForArrow, h.quiet]
    exact normalizeTimestamps_of_plain h.plain fun row hrow => (h.typed row hrow).shaped
  obtain ⟨df, hdf, hlines⟩ := bind_ok hlines
  cases hprepared.symm.trans (mapError_ok hdf)
  obtain ⟨⟨⟩, hpre, hlines⟩ := bind_ok hlines
  obtain ⟨line, hline, hlines⟩ := bind_ok hlines
  cases hlines
  exact ⟨line, preflight_ok (mapError_ok hpre), mapError_ok hline, List.map_map⟩

/-- What the lines of the rows ask of Elasticsearch. -/
structure PlainLines (parse : String → Option (Json F)) (cfg : EsWriteConfig) (schema : Schema)
    (rows : List (Row F)) (id : Row F → String) (line : Row F → Option String) : Prop where
  distinct : (rows.map id).Nodup
  delete : ∀ row ∈ rows, ∀ text, line row = some text → isFlagged cfg schema row = true →
    lineAction parse text = .delete (id row)
  index : ∀ row ∈ rows, ∀ text, line row = some text → isFlagged cfg schema row = false →
    ∃ doc, lineAction parse text = .index (some (id row)) doc ∧
      ∀ docId idField includeId, coerceHit doc docId (schemaFieldTokens (keptFields cfg schema))
        idField includeId = .ok (readBack cfg schema row)

theorem PlainWrite.lines (h : PlainWrite J parse json r cfg schema rows name) {indexExists : Bool}
    {lines : List (Option String)}
    (hlines : bulkWriteLines J r cfg indexExists ⟨schema, rows⟩ = .ok lines) :
    ∃ line : Row F → Option String, lines = rows.map line ∧
      PlainLines parse cfg schema rows (writtenId J schema name) line := by
  obtain ⟨line, hpre, hok, rfl⟩ := h.planned hlines
  have haction (row) (hrow : row ∈ rows) (text)
      (htext : lineOf line (mapCells timestampLeaf schema row) = some text) :=
    lineAction_of_row h.objects h.restores h.opType h.plain h.back hpre h.id hok (h.typed row hrow)
      htext
  exact ⟨_, rfl, h.distinct, fun row hrow text htext => (haction row hrow text htext).1,
    fun row hrow text htext => (haction row hrow text htext).2⟩

section Lines

variable {id : Row F → String} {line : Row F → Option String}

theorem PlainLines.id_eq (h : PlainLines parse cfg schema rows id line) {row : Row F}
    (hrow : row ∈ rows) {text : String} (htext : line row = some text) :
    (lineAction parse text).id = some (id row) := by
  cases hflag : isFlagged cfg schema row with
  | true =>
    rw [h.delete row hrow text htext hflag]
    rfl
  | false =>
    obtain ⟨doc, hdoc, -⟩ := h.index row hrow text htext hflag
    rw [hdoc]
    rfl

/-- Every line indexes or deletes the document of an id of its own. -/
theorem PlainLines.keyed (h : PlainLines parse cfg schema rows id line) :
    Keyed (lineAction parse) (rows.map line).reduceOption where
  action text htext := by
    obtain ⟨row, hrow, htext⟩ := List.mem_map.mp (List.reduceOption_mem_iff.mp htext)
    cases hflag : isFlagged cfg schema row with
    | true => exact .inr ⟨_, h.delete row hrow text htext hflag⟩
    | false =>
      obtain ⟨doc, hdoc, -⟩ := h.index row hrow text htext hflag
      exact .inl ⟨_, doc, hdoc⟩
  distinct := by
    have hsub : ((rows.map line).reduceOption.map fun text => (lineAction parse text).id).Sublist
        (rows.map fun row => some (id row)) := by
      have hid : ∀ row ∈ rows, ∀ text, line row = some text →
          (lineAction parse text).id = some (id row) := fun _ hrow _ htext => h.id_eq hrow htext
      clear h
      induction rows with
      | nil => exact .slnil
      | cons row rows ih =>
        have hrest := ih fun row hrow => hid row (List.mem_cons_of_mem _ hrow)
        cases htext : line row with
        | none =>
          rw [List.map_cons, htext, List.reduceOption_cons_of_none]
          exact hrest.cons _
        | some text =>
          rw [List.map_cons, htext, List.reduceOption_cons_of_some, List.map_cons,
            hid row List.mem_cons_self text htext]
          exact hrest.cons_cons _
    have hnodup := h.distinct.map (Option.some_injective _)
    rw [List.map_map] at hnodup
    exact hnodup.sublist hsub

theorem WriteJobSound.no_null {Id Src Line : Type} [DecidableEq Id] [NdjsonLine Line]
    {act : Line → Action Id Src} {rules : EsRules} {parts : List (Partition Line)}
    {st₀ : Store Id Src} {s : EsState Id Src Line} {xs : List (WriterProcess Line)}
    {out : List SummaryRow} (h : WriteJobSound act rules cfg parts st₀ s xs)
    (hout : Collected xs out) : none ∉ parts.flatMap Partition.rows := by
  intro hnone
  obtain ⟨p, hp, hrow⟩ := List.mem_flatMap.mp hnone
  obtain ⟨col, hcol, hcell⟩ := List.mem_flatten.mp hrow
  obtain ⟨i, hi, rfl⟩ := List.getElem_of_mem hp
  have hx : i < xs.length := h.sound.length_eq ▸ hi
  have hr : i < out.length := hout.length_eq ▸ hx
  have hend := write_sound_accounts (allowsChunks_inputLines (List.getElem_mem hi))
    (h.sound.get hi hx) (hout.get hx hr)
  exact hend.1 col hcol hcell

/-- The index once the rows have been written. -/
structure Written (cfg : EsWriteConfig) (schema : Schema) (rows : List (Row F)) (id : Row F → String)
    (st₀ st : Store String (Document F)) : Prop where
  deleted : ∀ row ∈ rows, isFlagged cfg schema row = true → st (id row) = none
  stored : ∀ row ∈ rows, isFlagged cfg schema row = false → ∃ doc, st (id row) = some doc ∧
    ∀ docId idField includeId, coerceHit doc docId (schemaFieldTokens (keptFields cfg schema))
      idField includeId = .ok (readBack cfg schema row)
  others : ∀ i, i ∉ rows.map id → st i = st₀ i

/-- An accepted job has written every row. -/
theorem PlainLines.written (h : PlainLines parse cfg schema rows id line) {rules : EsRules}
    (hhonest : rules.honest = true) {parts : List (Partition String)}
    (hparts : (parts.flatMap Partition.rows).Perm (rows.map line))
    {s₀ s : EsState String (Document F) String} {xs : List (WriterProcess String)}
    (hrun : WriteJob (lineAction parse) rules cfg parts s₀ s xs) {out : List SummaryRow}
    (hout : Collected xs out) {index : String} {result : WriteResult}
    (haccept : (reconcileOrRaise (mergePartitionResults out) index).2 = .ok result) :
    Written cfg schema rows id s₀.store s.store := by
  have hperm := inputLines_perm hparts
  have hsound := hrun.sound hhonest (h.keyed.perm hperm)
  have hclean := hsound.clean hout (cleanRows_of_accept haccept)
  have hline (row) (hrow : row ∈ rows) : ∃ text, line row = some text ∧
      InEffect (lineAction parse) text s.store := by
    have hmem : line row ∈ rows.map line := List.mem_map_of_mem hrow
    cases htext : line row with
    | none =>
      rw [htext] at hmem
      exact absurd (hparts.mem_iff.mpr hmem) (hsound.no_null hout)
    | some text =>
      rw [htext] at hmem
      exact ⟨text, rfl, hclean text (hperm.mem_iff.mpr (List.reduceOption_mem_iff.mpr hmem))⟩
  refine ⟨?_, ?_, ?_⟩
  · intro row hrow hflag
    obtain ⟨text, htext, heffect⟩ := hline row hrow
    rwa [InEffect, h.delete row hrow text htext hflag] at heffect
  · intro row hrow hflag
    obtain ⟨text, htext, heffect⟩ := hline row hrow
    obtain ⟨doc, hdoc, hread⟩ := h.index row hrow text htext hflag
    rw [InEffect, hdoc] at heffect
    exact ⟨doc, heffect, hread⟩
  · intro i hi
    apply hsound.state
    intro text htext he
    have hmem := hperm.mem_iff.mp htext
    obtain ⟨row, hrow, hrowText⟩ := List.mem_map.mp (List.reduceOption_mem_iff.mp hmem)
    rw [h.id_eq hrow hrowText] at he
    exact hi (List.mem_map.mpr ⟨row, hrow, Option.some_inj.mp he⟩)

end Lines

section Read

variable {Key : Type} [LinearOrder Key] {id : Row F → String}
  {st₀ st : Store String (Document F)}

/-- The Point-in-Time of a query for all documents shows each document of the index once. -/
structure Shows (snap : Snapshot Key F) (st : Store String (Document F)) : Prop where
  hit : ∀ h ∈ snap.docs, ∃ i doc, h.id = some i ∧ h.source = some doc ∧ st i = some doc
  once : (snap.docs.map Hit.id).Nodup
  all : ∀ i doc, st i = some doc → ∃ h ∈ snap.docs, h.id = some i

theorem map_perm_of_keys {α β γ κ : Type} {l : List α} {m : List β} {ka : α → κ} {kb : β → κ}
    {f : α → γ} {g : β → γ} (hl : (l.map ka).Nodup) (hm : (m.map kb).Nodup)
    (hkeys : ∀ k, k ∈ l.map ka ↔ k ∈ m.map kb)
    (hsame : ∀ a ∈ l, ∀ b ∈ m, ka a = kb b → f a = g b) : (l.map f).Perm (m.map g) := by
  induction l generalizing m with
  | nil =>
    cases m with
    | nil => exact .nil
    | cons b m => exact absurd ((hkeys (kb b)).mpr List.mem_cons_self) List.not_mem_nil
  | cons a l ih =>
    obtain ⟨b, hb, hab⟩ := List.mem_map.mp ((hkeys (ka a)).mp List.mem_cons_self)
    obtain ⟨before, after, rfl⟩ := List.append_of_mem hb
    have hmid : (before ++ b :: after).Perm (b :: (before ++ after)) := List.perm_middle
    have hm' := (hmid.map kb).nodup_iff.mp hm
    rw [List.map_cons, List.nodup_cons] at hl hm'
    have hrest := ih hl.2 hm'.2 ?_ fun a' ha' b' hb' =>
      hsame a' (List.mem_cons_of_mem _ ha') b' (hmid.mem_iff.mpr (List.mem_cons_of_mem _ hb'))
    · rw [List.map_cons, hsame a List.mem_cons_self b hb hab.symm]
      exact (hrest.cons _).trans ((hmid.map g).symm)
    · intro k
      have hk := (hkeys k).trans (hmid.map kb).mem_iff
      rw [List.map_cons, List.map_cons, List.mem_cons, List.mem_cons, hab] at hk
      constructor
      · intro hkl
        exact (hk.mp (.inr hkl)).resolve_left fun he => hl.1 (he ▸ hkl)
      · intro hkm
        exact (hk.mpr (.inr hkm)).resolve_left fun he => hm'.1 (hab ▸ he ▸ hkm)

omit [PyFloat F] in
theorem cells_of_names {tokens : List (String × TypeToken)} {row : List (String × PyValue F)}
    (hnames : tokens.map Prod.fst = row.map Prod.fst) (hnodup : (row.map Prod.fst).Nodup) :
    cells tokens row = row.map Prod.snd := by
  rw [cells, hnames, List.map_map]
  apply List.map_congr_left
  intro e he
  rw [Function.comp_apply, lookup_of_mem hnodup he]
  rfl

theorem readBack_names {row : Row F} (hrow : CellsTyped InRange schema row) :
    (readBack cfg schema row).map Prod.fst = (keptFields cfg schema).map Prod.fst :=
  toPythonCells_names (P := InRange) (hrow.kept cfg) documentedDelta

/-- The columns of the frame that reads the documents of a copy. -/
def copyTokens (cfg : EsWriteConfig) (schema : Schema) : List (String × TypeToken) :=
  schemaFieldTokens (keptFields cfg schema)

/-- What a document of the index is in a frame. -/
def documentCells (rcfg : EsReadConfig F) (tokens : List (String × TypeToken)) (h : Hit Key F) :
    Except (ReadError F) (List (PyValue F)) :=
  (hitRow rcfg tokens h).map (cells tokens)

/-- The documents of an index that the rows do not concern. -/
def olderHits (id : Row F → String) (rows : List (Row F)) (snap : Snapshot Key F) : List (Hit Key F) :=
  snap.docs.filter fun h => h.id ∉ rows.map fun row => some (id row)

omit [LinearOrder Key] in
/-- A document of a row that is not flagged is read back as the row. -/
theorem Written.hitRow (hw : Written cfg schema rows id st₀ st) {rcfg : EsReadConfig F}
    {h : Hit Key F} {row : Row F} (hrow : row ∈ rows) (hid : h.id = some (id row))
    {i : String} {doc : Document F} (hi : h.id = some i) (hsource : h.source = some doc)
    (hst : st i = some doc) : isFlagged cfg schema row = false ∧
      EsConnector.hitRow rcfg (copyTokens cfg schema) h = .ok (readBack cfg schema row) := by
  cases hid.symm.trans hi
  cases hflag : isFlagged cfg schema row with
  | true =>
    rw [hw.deleted row hrow hflag] at hst
    cases hst
  | false =>
    obtain ⟨doc', hdoc', hread⟩ := hw.stored row hrow hflag
    cases hst.symm.trans hdoc'
    refine ⟨rfl, ?_⟩
    rw [EsConnector.hitRow, hsource, Option.getD_some, copyTokens, hread]

theorem Written.fits (hw : Written cfg schema rows id st₀ st) {snap : Snapshot Key F}
    (hshows : Shows snap st) (rcfg : EsReadConfig F)
    (hold : ∀ i doc, st₀ i = some doc → i ∉ rows.map id → ∃ row, coerceHit doc (some i)
      (copyTokens cfg schema) rcfg.idField rcfg.includeId = .ok row) :
    ∀ h ∈ snap.docs, ∃ row, EsConnector.hitRow rcfg (copyTokens cfg schema) h = .ok row := by
  intro h hh
  obtain ⟨i, doc, hi, hsource, hst⟩ := hshows.hit h hh
  by_cases hmem : i ∈ rows.map id
  · obtain ⟨row, hrow, rfl⟩ := List.mem_map.mp hmem
    exact ⟨_, (hw.hitRow hrow hi hi hsource hst).2⟩
  · rw [hw.others i hmem] at hst
    obtain ⟨row, hread⟩ := hold i doc hst hmem
    refine ⟨row, ?_⟩
    rw [EsConnector.hitRow, hsource, hi, Option.getD_some, hread]

theorem Written.documentCells (hw : Written cfg schema rows id st₀ st) (hnames : NamesApart r schema)
    (htyped : ∀ row ∈ rows, CellsTyped InRange schema row) {snap : Snapshot Key F}
    (hshows : Shows snap st) (rcfg : EsReadConfig F) {h : Hit Key F} (hh : h ∈ snap.docs)
    {row : Row F} (hrow : row ∈ rows) (hid : h.id = some (id row)) :
    isFlagged cfg schema row = false ∧ EsConnector.documentCells rcfg (copyTokens cfg schema) h =
      .ok ((readBack cfg schema row).map Prod.snd) := by
  obtain ⟨i, doc, hi, hsource, hst⟩ := hshows.hit h hh
  obtain ⟨hflag, hread⟩ := hw.hitRow hrow hid hi hsource hst
  have hback : (readBack cfg schema row).map Prod.fst = (keptFields cfg schema).map Prod.fst :=
    readBack_names (htyped row hrow)
  have hcells : cells (copyTokens cfg schema) (readBack cfg schema row) =
      (readBack cfg schema row).map Prod.snd := by
    apply cells_of_names
    · rw [hback, copyTokens, schemaFieldTokens_names]
    · rw [hback]
      exact NamesApart.nodup (hnames.filter _)
  refine ⟨hflag, ?_⟩
  rw [EsConnector.documentCells, hread, Except.map, hcells]

/-- The documents of the index are those of the rows that are not flagged and the older ones. -/
theorem Written.docs_perm (hw : Written cfg schema rows id st₀ st) (hdistinct : (rows.map id).Nodup)
    (hnames : NamesApart r schema) (htyped : ∀ row ∈ rows, CellsTyped InRange schema row)
    {snap : Snapshot Key F} (hshows : Shows snap st) (rcfg : EsReadConfig F) :
    (snap.docs.map (EsConnector.documentCells rcfg (copyTokens cfg schema))).Perm
      ((rows.filter fun row => !isFlagged cfg schema row).map (fun row =>
          .ok ((readBack cfg schema row).map Prod.snd)) ++
        (olderHits id rows snap).map (EsConnector.documentCells rcfg (copyTokens cfg schema))) := by
  have hsplit := List.filter_append_perm
    (fun h : Hit Key F => h.id ∈ rows.map fun row => some (id row)) snap.docs
  have holder : olderHits id rows snap =
      snap.docs.filter fun h => !decide (h.id ∈ rows.map fun row => some (id row)) := by
    simp only [olderHits, decide_not]
  rw [holder]
  apply (hsplit.map _).symm.trans
  rw [List.map_append]
  apply List.Perm.append_right
  have hids : (rows.map fun row => some (id row)).Nodup := by
    have h := hdistinct.map (Option.some_injective _)
    rwa [List.map_map] at h
  apply map_perm_of_keys
  · exact hshows.once.sublist (List.filter_sublist.map _)
  · exact hids.sublist (List.filter_sublist.map _)
  · intro k
    constructor
    · intro hk
      obtain ⟨h, hh, rfl⟩ := List.mem_map.mp hk
      obtain ⟨hdoc, hmem⟩ := List.mem_filter.mp hh
      obtain ⟨row, hrow, he⟩ := List.mem_map.mp (of_decide_eq_true hmem)
      have hread := hw.documentCells hnames htyped hshows rcfg hdoc hrow he.symm
      exact List.mem_map.mpr ⟨row, List.mem_filter.mpr ⟨hrow, by rw [hread.1, Bool.not_false]⟩, he⟩
    · intro hk
      obtain ⟨row, hrow, rfl⟩ := List.mem_map.mp hk
      obtain ⟨hrow, hflag⟩ := List.mem_filter.mp hrow
      obtain ⟨doc, hdoc, -⟩ := hw.stored row hrow (Bool.not_eq_true' _ ▸ hflag)
      obtain ⟨h, hh, he⟩ := hshows.all _ _ hdoc
      exact List.mem_map.mpr ⟨h, List.mem_filter.mpr ⟨hh, decide_eq_true
        (List.mem_map.mpr ⟨row, hrow, he.symm⟩)⟩, he⟩
  · intro h hh row hrow he
    exact (hw.documentCells hnames htyped hshows rcfg (List.mem_filter.mp hh).1
      (List.mem_filter.mp hrow).1 he).2

/-- Tasks that read all documents of an index, with the names and types of a copied frame. -/
structure CopyRead (cfg : EsWriteConfig) (schema : Schema) (snap : Snapshot Key F)
    (rcfg : EsReadConfig F) (read : SliceRead F)
    (outs : List (Except (ReadError F) (List (Frame F)))) : Prop where
  everyone : rcfg.query = none
  batch : 1 ≤ rcfg.batchSize
  opened : ∃ answer : (q : IndexQuery) → q.Reply,
    ((readIndex rcfg (keptFields cfg schema)).eval answer).1 = .ok read
  tasks : ∃ fuel, Keyset.pages snap.docs.length rcfg.batchSize.toNat < fuel ∧
    List.Forall₂ (fun task out => ∃ s t, (pitEnv snap .run read.pitId rcfg.pitKeepAlive).Run s
      (makeSliceReader rcfg read.pitId read.query read.fieldTokens read.numSlices fuel task) t out)
      read.partitions outs

theorem CopyRead.everyDocument {snap : Snapshot Key F} {rcfg : EsReadConfig F} {read : SliceRead F}
    {outs : List (Except (ReadError F) (List (Frame F)))} (h : CopyRead cfg schema snap rcfg read outs)
    (hfit : ∀ h ∈ snap.docs, ∃ row, hitRow rcfg (copyTokens cfg schema) h = .ok row) :
    ReadsEveryDocument snap rcfg (copyTokens cfg schema) outs := by
  obtain ⟨answer, hread⟩ := h.opened
  obtain ⟨fuel, hfuel, htasks⟩ := h.tasks
  obtain ⟨hn, htokens, -⟩ := readIndex_ok answer hread
  have hrow : ∀ h ∈ snap.docs, hitRow rcfg (copyTokens cfg schema) h =
      .ok ((hitRow rcfg (copyTokens cfg schema) h).toOption.getD []) := by
    intro h hh
    obtain ⟨row, hrow⟩ := hfit h hh
    rw [hrow]
    rfl
  apply readsEveryDocument_of_tasks hn hrow (.of_eq read.partitions_ids)
  apply htasks.imp
  intro task out hout
  obtain ⟨s, t, hrun⟩ := hout
  rw [htokens] at hrun
  exact hrun.ensures (wp_readSlices h.batch hrow hfuel _)

/-- A plain frame is written to an index by a job that is accepted, and all of the index is read
back with the types that were written: the frame has the rows that are not flagged, once each and up
to the documented deltas, and beside them the documents that no row of the write concerns. -/
theorem copy_comes_back (h : PlainWrite J parse json r cfg schema rows name) {indexExists : Bool}
    {lines : List (Option String)}
    (hlines : bulkWriteLines J r cfg indexExists ⟨schema, rows⟩ = .ok lines) {rules : EsRules}
    (hhonest : rules.honest = true) {parts : List (Partition String)}
    (hparts : (parts.flatMap Partition.rows).Perm lines)
    {s₀ s : EsState String (Document F) String} {xs : List (WriterProcess String)}
    (hrun : WriteJob (lineAction parse) rules cfg parts s₀ s xs) {out : List SummaryRow}
    (hout : Collected xs out) {index : String} {result : WriteResult}
    (haccept : (reconcileOrRaise (mergePartitionResults out) index).2 = .ok result)
    {snap : Snapshot Key F} (hshows : Shows snap s.store) {rcfg : EsReadConfig F} {read : SliceRead F}
    {outs : List (Except (ReadError F) (List (Frame F)))}
    (hread : CopyRead cfg schema snap rcfg read outs)
    (hold : ∀ i doc, s₀.store i = some doc → i ∉ rows.map (writtenId J schema name) →
      ∃ row, coerceHit doc (some i) (copyTokens cfg schema) rcfg.idField rcfg.includeId = .ok row) :
    ∃ frames : List (List (Frame F)), outs = frames.map .ok ∧
      (∀ f ∈ frames.flatten, f.columns = (keptFields cfg schema).map Prod.fst) ∧
      ((frames.flatten.flatMap Frame.rows).map Except.ok).Perm
        ((rows.filter fun row => !isFlagged cfg schema row).map (fun row =>
            .ok ((readBack cfg schema row).map Prod.snd)) ++
          (olderHits (writtenId J schema name) rows snap).map
            (documentCells rcfg (copyTokens cfg schema))) := by
  obtain ⟨line, rfl, hplain⟩ := h.lines hlines
  have hwritten := hplain.written hhonest hparts hrun hout haccept
  obtain ⟨frames, rfl, hcols, hrows⟩ := hread.everyDocument (hwritten.fits hshows rcfg hold)
  refine ⟨frames, rfl, ?_,
    hrows.trans (hwritten.docs_perm h.distinct h.plain.apart h.typed hshows rcfg)⟩
  rwa [copyTokens, schemaFieldTokens_names] at hcols

end Read

section Example

variable {F : Type} [PyFloat F]

mutual

/-- The JSON of a value, where a struct is an object. -/
def valueJson : SparkType → SparkValue F → Json F
  | .struct fields, .struct cells => .dict (valueItems fields cells)
  | dt, v => (render dt v).getD .null

def valueItems : Schema → List (SparkValue F) → List (String × Json F)
  | (name, dt) :: fields, v :: cells => (name, valueJson dt v) :: valueItems fields cells
  | _, _ => []

end

theorem valueItems_eq (fields : Schema) (cells : List (SparkValue F)) :
    valueItems fields cells = List.zipWith (fun f v => (f.1, valueJson f.2 v)) fields cells := by
  induction fields generalizing cells with
  | nil => cases cells <;> simp [valueItems]
  | cons f fields ih =>
    cases cells with
    | nil => simp [valueItems]
    | cons v cells => rw [valueItems, List.zipWith_cons_cons, ih]

def copyFunctions (F : Type) [PyFloat F] [Json.FloatText F] : SparkFunctions F where
  toJson dt v := String.ofList (valueJson dt v).print
  toJsonNoOptions dt v := String.ofList (valueJson dt v).print
  castString := (jsonFunctions F).castString
  equalsTrue _ := none

theorem copyFunctions_writesObjects (F : Type) [PyFloat F] [Json.FloatText F] :
    WritesObjects (copyFunctions F) parseJson valueJson where
  newline fields cells := by
    rw [copyFunctions, String.toList_ofList]
    exact Json.newline_not_mem_print _
  parses fields cells := by
    simp only [parseJson, copyFunctions, String.toList_ofList, Json.parse_print]
  struct fields cells := by rw [valueJson, valueItems_eq]
  string s := rfl

omit [PyFloat F] in
theorem renderObject_some {items : List (String × Json F)} {j : Json F}
    (h : renderObject items = some j) : j = .dict items := by
  rw [renderObject] at h
  split at h
  · exact (Option.some_inj.mp h).symm
  · cases h

theorem valueItems_of_renderCells {fields : Schema} (ih : ∀ f ∈ fields, ∀ (v : SparkValue F) j,
    render f.2 v = some j → valueJson f.2 v = j) {cells : List (SparkValue F)}
    {items : List (String × Json F)} (h : renderCells fields cells = some items) :
    valueItems fields cells = items := by
  induction fields generalizing cells items with
  | nil =>
    cases cells with
    | nil =>
      cases h
      rfl
    | cons v cells => cases h
  | cons fd fields ihfields =>
    cases cells with
    | nil => cases h
    | cons v cells =>
      rw [renderCells] at h
      obtain ⟨first, hfirst, h⟩ := Option.bind_eq_some_iff.mp h
      obtain ⟨rest, hrest, h⟩ := Option.bind_eq_some_iff.mp h
      cases h
      rw [valueItems, ih fd List.mem_cons_self v first hfirst,
        ihfields (fun fd hfd => ih fd (List.mem_cons_of_mem _ hfd)) hrest]

theorem valueJson_of_render {dt : SparkType} {v : SparkValue F} {j : Json F}
    (h : render dt v = some j) : valueJson dt v = j := by
  induction dt generalizing v j with
  | struct fields ih =>
    cases v with
    | struct cells =>
      rw [render] at h
      obtain ⟨items, hitems, h⟩ := Option.bind_eq_some_iff.mp h
      rw [valueJson, valueItems_of_renderCells (fun f hf v j => ih f hf) hitems,
        renderObject_some h]
    | null =>
      cases h
      rfl
    | _ => cases h
  | _ => simp only [valueJson, h, Option.getD_some]

theorem copyFunctions_restoresJson (F : Type) [PyFloat F] [Json.FloatText F] :
    RestoresJson (copyFunctions F) parseJson := by
  intro fields cells j hj
  simp only [parseJson, copyFunctions, valueJson_of_render hj, String.toList_ofList, Json.parse_print]

def copySchema : Schema := [("key", .atomic .string), ("at", .atomic .timestamp)]

def copyRow : Row FewFloats := [.string "a", .timestamp (-1)]

def copyConfig : EsWriteConfig :=
  { hosts := "https://es:9200", apiKey := some "key", index := "people", idField := some "key" }

theorem copyWrite : PlainWrite (copyFunctions FewFloats) parseJson valueJson .caseSensitive copyConfig
    copySchema [copyRow] "key" where
  objects := copyFunctions_writesObjects FewFloats
  restores := copyFunctions_restoresJson FewFloats
  opType := rfl
  id := rfl
  plain := ⟨by decide, by decide, by simp [copySchema, Plain]⟩
  quiet := by decide
  back := by decide
  typed := by
    simp [copySchema, copyRow, CellsTyped, Typed, InRange, datetimeMin, datetimeMax]
  distinct := List.nodup_singleton _

/-- The line of the row. -/
def copyLine : String :=
  "\x7b\"index\":\x7b\"_index\":\"people\",\"_id\":\"a\"\x7d\x7d\n\x7b\"key\":\"a\",\"at\":-1\x7d"

theorem copyLines : bulkWriteLines (copyFunctions FewFloats) .caseSensitive copyConfig true
    ⟨copySchema, [copyRow]⟩ = .ok [some copyLine] := by
  obtain ⟨text, hlines, htext⟩ : ∃ text, bulkWriteLines (copyFunctions FewFloats) .caseSensitive
      copyConfig true ⟨copySchema, [copyRow]⟩ = .ok [some text] ∧ text = copyLine :=
    ⟨_, rfl, by decide +kernel⟩
  rw [hlines, htext]

/-- An index with a document of another id. -/
def olderStore : Store String (Document FewFloats) :=
  fun i => if i = "b" then some [("key", .str "b")] else none

def copySnapshot (doc : Document FewFloats) : Snapshot Nat FewFloats where
  docs := [⟨some doc, some "a", 0⟩, ⟨some [("key", .str "b")], some "b", 1⟩]
  ordered := by simp [Keyset.Ordered]
  sliceOf n h := h.sort % n
  sliceOf_lt n h hn := Nat.mod_lt _ hn

theorem copySnapshot_shows (doc : Document FewFloats) :
    Shows (copySnapshot doc) (Function.update olderStore "a" (some doc)) where
  hit := List.forall_mem_cons.mpr ⟨⟨"a", doc, rfl, rfl, rfl⟩,
    List.forall_mem_singleton.mpr ⟨"b", _, rfl, rfl, rfl⟩⟩
  once := (by decide : [some "a", some "b"].Nodup)
  all i doc' h := by
    by_cases ha : i = "a"
    · exact ⟨_, List.mem_cons_self, congrArg some ha.symm⟩
    · rw [Function.update_of_ne ha, olderStore] at h
      split at h
      · rename_i hb
        exact ⟨_, List.mem_cons_of_mem _ List.mem_cons_self, congrArg some hb.symm⟩
      · cases h

def copyReadConfig : EsReadConfig FewFloats where
  hosts := "https://es:9200"
  apiKey := some "key"
  index := "people"
  numSlices := some 1

theorem small_read {snap : Snapshot Nat FewFloats} (hpages : Keyset.pages snap.docs.length 1000 < 3) :
    ∃ read outs, CopyRead copyConfig copySchema snap copyReadConfig read outs := by
  let read : SliceRead FewFloats := ⟨"pit-1", [("match_all", .dict [])],
    schemaFieldTokens copySchema, 1⟩
  have htotal (s : PitState) (q : SearchRequest Nat FewFloats) : ∃ reply s',
      (pitEnv snap .run "pit-1" "5m").answers s q reply s' := by
    by_cases hid : q.pit.id = validId .run "pit-1" s q.searchAfter
    · exact ⟨_, _, (if_pos hid).mpr ⟨none, rfl, rfl⟩⟩
    · exact ⟨_, _, (if_neg hid).mpr ⟨rfl, rfl⟩⟩
  obtain ⟨t, out, hrun⟩ := exists_completion htotal (makeSliceReader copyReadConfig "pit-1"
    [("match_all", .dict [])] (schemaFieldTokens copySchema) 1 3 [[0]]) ⟨"pit-1", 0⟩
  refine ⟨read, [out], rfl, by decide, ?_, 3, hpages, .cons ⟨_, _, hrun⟩ .nil⟩
  exact ⟨fun q => match q with
    | .openPointInTime .. => .ok "pit-1"
    | .close => ()
    | .numberOfShards _ => .ok 1, rfl⟩

theorem copyJob {doc : Document FewFloats}
    (hact : lineAction parseJson copyLine = .index (some "a") doc)
    (st : Store String (Document FewFloats)) : ∃ (xs : List (WriterProcess String))
      (out : List SummaryRow), WriteJob (lineAction parseJson) ⟨true, true, true⟩ copyConfig
        [{ batches := [[some copyLine]] }] ⟨st, []⟩
        ⟨Function.update st "a" (some doc), [copyLine]⟩ xs ∧ Collected xs out ∧
        (reconcileOrRaise (mergePartitionResults out) "people").2 =
          .ok (mergePartitionResults out) := by
  let item : Item := some (.index, { status := some 201 })
  have hanswers :
      Answers (lineAction parseJson copyLine : Action String (Document FewFloats)) item := by
    intro op body he
    cases Option.some_inj.mp he
    rw [hact]
    rfl
  have hreply : Replies ⟨true, true, true⟩ (⟨[copyLine], .errors⟩ : BulkRequest String) [some item]
      { result := .ok { errors := some false } } :=
    ⟨[item], rfl, rfl, fun _ _ => by simp [item, itemOutcome, isOk, ItemBody.statusCode],
      fun h => absurd h.symm Bool.false_ne_true⟩
  have happly : Applies (lineAction parseJson copyLine) st (Function.update st "a" (some doc)) := by
    rw [hact]
    exact .index
  exact ⟨_, _, JobSteps.single rfl rfl (.applied_single hanswers rfl happly) hreply, .cons rfl .nil,
    rfl⟩

theorem copy_comes_back_two_documents : ∃ (frames : List (List (Frame FewFloats)))
    (doc : Document FewFloats) (s : EsState String (Document FewFloats) String)
    (xs : List (WriterProcess String)) (out : List SummaryRow) (read : SliceRead FewFloats),
    WriteJob (lineAction parseJson) ⟨true, true, true⟩ copyConfig [{ batches := [[some copyLine]] }]
      ⟨olderStore, []⟩ s xs ∧ Collected xs out ∧ s.store "a" = some doc ∧
    CopyRead copyConfig copySchema (copySnapshot doc) copyReadConfig read (frames.map .ok) ∧
    ((frames.flatten.flatMap Frame.rows).map (Except.ok (ε := ReadError FewFloats))).Perm
      [.ok [.str "a", .datetime (-1000)], .ok [.str "b", .none]] := by
  obtain ⟨line, hline, hplain⟩ := copyWrite.lines copyLines
  obtain ⟨hline, -⟩ := List.cons.inj hline
  obtain ⟨doc, hact, -⟩ := hplain.index copyRow List.mem_cons_self copyLine hline.symm rfl
  have hid : writtenId (copyFunctions FewFloats) copySchema "key" copyRow = "a" := rfl
  rw [hid] at hact
  obtain ⟨xs, out, hrun, hout, haccept⟩ := copyJob hact olderStore
  obtain ⟨read, outs, hread⟩ := @small_read (copySnapshot doc) (by decide : Keyset.pages 2 1000 < 3)
  obtain ⟨frames, rfl, -, hrows⟩ := copy_comes_back copyWrite copyLines rfl (.refl _) hrun hout haccept
    (copySnapshot_shows doc) hread (by
      intro i doc' hi hother
      have hi : (if i = "b" then some [("key", .str "b")] else none) = some doc' := hi
      split at hi
      · rename_i hb
        cases hi
        exact ⟨_, rfl⟩
      · cases hi)
  exact ⟨frames, doc, _, xs, out, read, hrun, hout, Function.update_self "a" (some doc) olderStore,
    hread, hrows⟩

end Example

end EsConnector
