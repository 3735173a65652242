import EsConnector.CopyIndex
import EsConnector.ReadTypes

namespace EsConnector
set_option autoImplicit true

open Interaction

variable {F : Type} [PyFloat F] {r : Resolver} {keys : PyKey F → Prop}

/-- A value that a document holds as it is: a float is finite. -/
def FiniteInRange (t : AtomicType) (v : SparkValue F) : Prop :=
  InRange t v ∧ ∀ x, v = .floating x → nonFinite x = false

/-- A leaf that a round trip does not change. -/
def Settled (t : AtomicType) (v : SparkValue F) : Prop := documentedDelta t v = v

section Leaves

omit [PyFloat F]

variable {f : AtomicType → SparkValue F → SparkValue F}

theorem mapCells_of_typed {fields : Schema} {cells : List (SparkValue F)}
    (ih : ∀ fd ∈ fields, ∀ v, Typed (fun t v => f t v = v) fd.2 v → mapLeaves f fd.2 v = v)
    (h : CellsTyped (fun t v => f t v = v) fields cells) : mapCells f fields cells = cells := by
  induction fields generalizing cells with
  | nil => exact (show cells = [] from h) ▸ rfl
  | cons fd fields ihfields =>
    obtain ⟨v, rest, rfl, hv, hrest⟩ := h
    rw [mapCells, ih fd List.mem_cons_self v hv,
      ihfields (fun fd hfd => ih fd (List.mem_cons_of_mem _ hfd)) hrest]

theorem mapLeaves_of_typed (hnull : ∀ t, f t .null = .null) {dt : SparkType} {v : SparkValue F}
    (h : Typed (fun t v => f t v = v) dt v) : mapLeaves f dt v = v := by
  induction dt generalizing v with
  | atomic t =>
    rcases h with rfl | h
    · exact hnull t
    · exact h
  | array element ih =>
    rcases h with rfl | ⟨xs, rfl, hxs⟩
    · rfl
    · rw [mapLeaves, SparkValue.mapArray_array, List.map_congr_left fun x hx => ih (hxs x hx),
        List.map_id']
  | map key value _ ih =>
    rcases h with rfl | ⟨entries, rfl, -, hentries⟩
    · rfl
    · rw [mapLeaves, SparkValue.mapValues_map,
        List.map_congr_left fun e he => by rw [ih (hentries e he).2.2], List.map_id']
  | struct fields ih =>
    rcases h with rfl | ⟨cells, rfl, hcells⟩
    · rfl
    · rw [mapLeaves, mapCells_of_typed (fun fd hfd v hv => ih fd hfd hv) hcells]

end Leaves

section Settled

theorem finiteOrNull_of_finite {x : F} (h : nonFinite x = false) :
    (SparkValue.floating x).finiteOrNull = .floating x := by
  rw [SparkValue.finiteOrNull.eq_def]
  simp [h]

/-- What is read of a leaf is in whole milliseconds. -/
theorem leaf_settled {t : AtomicType} {v : SparkValue F} (hv : FiniteInRange t v)
    (hholds : t.Holds v.toPython) : Settled t v := by
  obtain ⟨htyped, hfinite⟩ := hv
  have hmillis {micros : Int} (h : Millisecond micros) : micros / 1000 * 1000 = micros :=
    Int.ediv_mul_cancel (Int.dvd_of_emod_eq_zero h.2)
  cases t with
  | timestamp =>
    cases v with
    | timestamp micros =>
      obtain ⟨m, hm, hmilli⟩ := hholds
      cases hm
      rw [Settled, documentedDelta, hmillis hmilli]
    | _ => exact absurd htyped id
  | timestampNtz =>
    cases v with
    | timestampNtz micros =>
      obtain ⟨m, hm, hmilli⟩ := hholds
      cases hm
      rw [Settled, documentedDelta, hmillis hmilli]
    | _ => exact absurd htyped id
  | float =>
    cases v with
    | floating x => exact finiteOrNull_of_finite (hfinite x rfl)
    | _ => exact absurd htyped id
  | double =>
    cases v with
    | floating x => exact finiteOrNull_of_finite (hfinite x rfl)
    | _ => exact absurd htyped id
  | _ => rfl

omit [PyFloat F] in
theorem toPython_present {t : AtomicType} {v : SparkValue F} (h : InRange t v) :
    v.toPython ≠ .none := by
  cases t with
  | decimal precision scale => cases scale <;> cases v <;> first | exact absurd h id | nofun
  | _ => cases v <;> first | exact absurd h id | nofun

omit [PyFloat F] in
theorem holds_of_present {t : AtomicType} {x : PyValue F} (hx : x ≠ .none)
    (h : (SparkType.atomic t).Holds keys x) : t.Holds x := by
  cases x with
  | none => exact absurd rfl hx
  | _ => exact h

/-- A value whose leaves are settled where it is read from a document. -/
def ReadSettled (keys : PyKey F → Prop) (dt : SparkType) : Prop :=
  ∀ v : SparkValue F, Typed FiniteInRange dt v → dt.Holds keys (toPython dt v) → Typed Settled dt v

omit [PyFloat F] in
theorem toPythonCells_fst {fields : Schema} {cells : List (SparkValue F)}
    (h : cells.length = fields.length) :
    (toPythonCells fields cells).map Prod.fst = fields.map Prod.fst := by
  induction fields generalizing cells with
  | nil => rfl
  | cons fd fields ih =>
    cases cells with
    | nil => cases h
    | cons v cells => rw [toPythonCells, List.map_cons, ih (Nat.succ.inj h), List.map_cons]

theorem cells_settled {fields : Schema} {cells : List (SparkValue F)}
    (hnodup : (fields.map Prod.fst).Nodup) (ih : ∀ fd ∈ fields, ReadSettled keys fd.2)
    (htyped : CellsTyped FiniteInRange fields cells)
    (hholds : ∀ e ∈ toPythonCells fields cells,
      ∃ fd ∈ fields, e.1 = fd.1 ∧ fd.2.Holds keys e.2) : CellsTyped Settled fields cells := by
  induction fields generalizing cells with
  | nil => exact htyped
  | cons fd fields ihfields =>
    obtain ⟨name, dt⟩ := fd
    obtain ⟨v, rest, rfl, hv, hrest⟩ := htyped
    obtain ⟨hnew, hnodup⟩ := List.nodup_cons.mp hnodup
    have hnames := toPythonCells_fst hrest.length_eq
    refine ⟨v, rest, rfl, ih (name, dt) List.mem_cons_self v hv ?_, ?_⟩
    · obtain ⟨fd, hfd, hname, hread⟩ := hholds (name, toPython dt v) List.mem_cons_self
      rcases List.mem_cons.mp hfd with rfl | hfd
      · exact hread
      · exact absurd (List.mem_map.mpr ⟨fd, hfd, hname.symm⟩) hnew
    · apply ihfields hnodup (fun fd hfd => ih fd (List.mem_cons_of_mem _ hfd)) hrest
      intro e he
      obtain ⟨fd, hfd, hname, hread⟩ := hholds e (List.mem_cons_of_mem _ he)
      rcases List.mem_cons.mp hfd with rfl | hfd
      · have hmem : e.1 ∈ fields.map Prod.fst := hnames ▸ List.mem_map_of_mem he
        exact absurd (hname ▸ hmem) hnew
      · exact ⟨fd, hfd, hname, hread⟩

/-- A value that was read is settled at every depth. -/
theorem readSettled {dt : SparkType} (hdt : Plain r dt) : ReadSettled (F := F) keys dt := by
  induction dt with
  | atomic t =>
    intro v hv hholds
    rcases hv with rfl | hv
    · exact .inl rfl
    · exact .inr (leaf_settled hv (holds_of_present (toPython_present hv.1) hholds))
  | array element ih =>
    intro v hv hholds
    rcases hv with rfl | ⟨xs, rfl, hxs⟩
    · exact .inl rfl
    · obtain ⟨ys, hys, hread⟩ := hholds
      cases hys
      exact .inr ⟨xs, rfl, fun x hx => ih hdt x (hxs x hx) (hread _ (List.mem_map_of_mem hx))⟩
  | map key value _ ih =>
    intro v hv hholds
    obtain ⟨rfl, hvalue⟩ := hdt
    rcases hv with rfl | ⟨entries, rfl, hkeys, hentries⟩
    · exact .inl rfl
    · obtain ⟨items, hitems, hread⟩ := hholds
      cases hitems
      refine .inr ⟨entries, rfl, hkeys, fun e he => ?_⟩
      obtain ⟨hne, hkey, hv⟩ := hentries e he
      exact ⟨hne, hkey.imp_right fun _ => rfl, ih hvalue e.2 hv (hread _ (List.mem_map_of_mem he)).2⟩
  | struct fields ih =>
    intro v hv hholds
    obtain ⟨hapart, hfields⟩ := hdt
    rcases hv with rfl | ⟨cells, rfl, hcells⟩
    · exact .inl rfl
    · obtain ⟨items, hitems, hread, -⟩ := hholds
      cases hitems
      have hsettled : ∀ fd ∈ fields, ReadSettled keys fd.2 := fun fd hfd =>
        ih fd hfd (plainFields_iff.mp hfields fd hfd)
      refine .inr ⟨cells, rfl, cells_settled hapart.nodup hsettled hcells ?_⟩
      · intro e he
        obtain ⟨fd, hfd, hname, hholds⟩ := fieldHolds_iff.mp (hread _ (List.mem_map_of_mem he))
        exact ⟨fd, hfd, PyKey.str.inj hname, hholds⟩

end Settled

section Rows

variable {cfg : EsWriteConfig} {schema : Schema} {row : Row F}

theorem hitRow_ok {Key : Type} {rcfg : EsReadConfig F} {tokens : List (String × TypeToken)}
    {hit : Hit Key F} {entries : List (String × PyValue F)} (h : hitRow rcfg tokens hit = .ok entries) :
    coerceHit (hit.source.getD []) hit.id tokens rcfg.idField rcfg.includeId = .ok entries := by
  rw [hitRow] at h
  split at h
  · rename_i hcoerce
    cases h
    exact hcoerce
  · cases h

/-- A row that was read of a hit is settled. -/
theorem row_settled {Key : Type} {rcfg : EsReadConfig F} {hit : Hit Key F} (hs : PlainSchema r schema)
    (hrow : CellsTyped FiniteInRange schema row)
    (h : hitRow rcfg (schemaFieldTokens schema) hit = .ok (toPythonCells schema row)) :
    CellsTyped Settled schema row := by
  have hkeys : ∀ f ∈ schema, MapKeys (fun _ => True) (sparkTypeToken f.2)
      (columnValue (hit.source.getD []) hit.id rcfg.idField rcfg.includeId f.1) :=
    fun f _ => mapKeys_true (sparkTypeToken f.2) _
  obtain ⟨hholds, -⟩ := coerceHit_holds hkeys (hitRow_ok h)
  have hfields : ∀ f ∈ schema, ReadSettled (F := F) (fun _ => True) f.2 := fun f hf =>
    readSettled (hs.types f hf)
  exact cells_settled hs.apart.nodup hfields hrow hholds

theorem keptFields_all (h : ∀ f ∈ schema, f.1 ∉ droppedColumns cfg) : keptFields cfg schema = schema :=
  List.filter_eq_self.mpr fun f hf => decide_eq_true (h f hf)

omit [PyFloat F] in
theorem keptCells_all (h : ∀ f ∈ schema, f.1 ∉ droppedColumns cfg)
    (hlength : row.length = schema.length) : keptCells cfg schema row = row := by
  induction schema generalizing row with
  | nil =>
    cases row with
    | nil => rfl
    | cons v row => cases hlength
  | cons f schema ih =>
    cases row with
    | nil => cases hlength
    | cons v row =>
      rw [keptCells, if_pos (h f List.mem_cons_self),
        ih (fun f hf => h f (List.mem_cons_of_mem _ hf)) (Nat.succ.inj hlength)]

theorem readBack_settled (hkeep : ∀ f ∈ schema, f.1 ∉ droppedColumns cfg)
    (h : CellsTyped Settled schema row) : readBack cfg schema row = toPythonCells schema row := by
  have hcells : mapCells documentedDelta schema row = row :=
    mapCells_of_typed (fun _ _ _ hv => mapLeaves_of_typed documentedDelta_null hv) h
  rw [readBack, keptFields_all hkeep, keptCells_all hkeep h.length_eq, hcells]

end Rows

section Reindex

variable {J : SparkFunctions F} {parse : String → Option (Json F)}
  {json : SparkType → SparkValue F → Json F} {cfg : EsWriteConfig} {schema : Schema}
  {rows : List (Row F)} {name : String} {Key₀ Key : Type} [LinearOrder Key]

omit [PyFloat F] [LinearOrder Key] in
theorem map_eq_map_of_forall₂ {α β γ : Type} {R : α → β → Prop} {l : List α} {m : List β}
    (h : List.Forall₂ R l m) {f : α → γ} {g : β → γ} (hsame : ∀ a, ∀ b ∈ m, R a b → f a = g b) :
    l.map f = m.map g := by
  induction h with
  | nil => rfl
  | cons hab _ ih =>
    rw [List.map_cons, List.map_cons, hsame _ _ List.mem_cons_self hab,
      ih fun a b hb => hsame a b (List.mem_cons_of_mem _ hb)]

theorem Written.olderHits_nil {id : Row F → String} {st₀ st : Store String (Document F)}
    (hw : Written cfg schema rows id st₀ st) (hempty : ∀ i, st₀ i = none) {snap : Snapshot Key F}
    (hshows : Shows snap st) : olderHits id rows snap = [] := by
  apply List.filter_eq_nil_iff.mpr
  intro h hh
  obtain ⟨i, doc, hi, -, hst⟩ := hshows.hit h hh
  have hmem : i ∈ rows.map id := by
    by_contra hnot
    rw [hw.others i hnot, hempty] at hst
    cases hst
  obtain ⟨row, hrow, rfl⟩ := List.mem_map.mp hmem
  rw [decide_eq_true_eq, not_not, hi]
  exact List.mem_map_of_mem hrow

theorem documentCells_readBack {source : EsReadConfig F} {hit : Hit Key₀ F} {row : Row F}
    (hs : PlainSchema r schema) (hkeep : ∀ f ∈ schema, f.1 ∉ droppedColumns cfg)
    (hrow : CellsTyped FiniteInRange schema row)
    (h : hitRow source (schemaFieldTokens schema) hit = .ok (toPythonCells schema row)) :
    documentCells source (schemaFieldTokens schema) hit =
      .ok ((readBack cfg schema row).map Prod.snd) := by
  have hnames := toPythonCells_fst (F := F) hrow.length_eq
  have hcells : cells (schemaFieldTokens schema) (toPythonCells schema row) =
      (toPythonCells schema row).map Prod.snd := by
    apply cells_of_names
    · rw [hnames, schemaFieldTokens_names]
    · rw [hnames]
      exact hs.apart.nodup
  rw [documentCells, h, readBack_settled hkeep (row_settled hs hrow h), Except.map, hcells]

end Reindex

def movedRow : Row FewFloats := [.string "a", .timestamp (-1000)]

theorem movedWrite : PlainWrite (copyFunctions FewFloats) parseJson valueJson .caseSensitive copyConfig
    copySchema [movedRow] "key" where
  objects := copyFunctions_writesObjects FewFloats
  restores := copyFunctions_restoresJson FewFloats
  opType := rfl
  id := rfl
  plain := copyWrite.plain
  quiet := copyWrite.quiet
  back := copyWrite.back
  typed := by
    simp [copySchema, movedRow, CellsTyped, Typed, InRange, datetimeMin, datetimeMax]
  distinct := List.nodup_singleton _

theorem movedLines : bulkWriteLines (copyFunctions FewFloats) .caseSensitive copyConfig true
    ⟨copySchema, [movedRow]⟩ = .ok [some copyLine] := copyLines

def movedSnapshot (doc : Document FewFloats) : Snapshot Nat FewFloats :=
  { copySnapshot doc with
    docs := [⟨some doc, some "a", 0⟩]
    ordered := List.pairwise_singleton _ _ }

theorem movedSnapshot_shows (doc : Document FewFloats) :
    Shows (movedSnapshot doc) (Function.update (fun _ => none) "a" (some doc)) where
  hit := List.forall_mem_singleton.mpr ⟨"a", doc, rfl, rfl, rfl⟩
  once := List.nodup_singleton _
  all i doc' h := by
    by_cases ha : i = "a"
    · exact ⟨_, List.mem_cons_self, congrArg some ha.symm⟩
    · rw [Function.update_of_ne ha] at h
      cases h

/-- A document of another index, under the key that it has there. -/
def movedHit : Hit Nat FewFloats :=
  ⟨some [("at", .int (-1)), ("key", .str "a"), ("x", .null)], some "7", 5⟩

end EsConnector
