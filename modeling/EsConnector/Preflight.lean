import EsConnector.Config
import EsConnector.PyValue
import EsConnector.SparkTypes

namespace EsConnector
set_option autoImplicit true

/-- What `_preflight` raises, with the names that its message lists. -/
inductive PreflightError where
  | missingIdField (name : String) (available : List String)
  | unknownDropFields (unknown available : List String)
  | missingDeleteFlag (name : Option String) (available : List String)
  | flagNotBoolean (name type : String)
  | missingIndex (index : String)
deriving DecidableEq, Repr

/-- `sorted` of names. -/
def sortedNames (names : List String) : List String := names.mergeSort fun a b => decide (a ≤ b)

/-- The type of the first column of a name. -/
def columnType (schema : Schema) (name : String) : Option SparkType :=
  (schema.find? fun f => f.1 = name).map Prod.snd

/-- `raise` unless a condition holds. -/
def ensure (p : Prop) [Decidable p] (e : PreflightError) : Except PreflightError Unit :=
  if p then .ok () else .error e

variable (cfg : EsWriteConfig) (schema : Schema)

/-- `sorted(present)`. -/
def availableColumns : List String := sortedNames (schema.map Prod.fst).dedup

def preflightId : Except PreflightError Unit :=
  match cfg.idField with
  | some name => ensure (name ∈ schema.map Prod.fst) (.missingIdField name (availableColumns schema))
  | none => .ok ()

def preflightDrops : Except PreflightError Unit :=
  let unknown := cfg.dropFields.filter (· ∉ schema.map Prod.fst)
  ensure (cfg.strictDropFields = true → unknown = [])
    (.unknownDropFields (sortedNames unknown) (availableColumns schema))

/-- The check of the column that flags deletes, which must be a real boolean. -/
def preflightFlag : Except PreflightError Unit :=
  match cfg.deleteFlagColumn, cfg.deleteFlagColumn.bind (columnType schema) with
  | some _, some (.atomic .boolean) => .ok ()
  | some name, some dt => .error (.flagNotBoolean name dt.simpleString)
  | flag, _ => .error (.missingDeleteFlag flag (availableColumns schema))

/-- `_preflight`, where `indices.exists` answers `indexExists`. -/
def preflight (indexExists : Bool) : Except PreflightError Unit := do
  preflightId cfg schema
  preflightDrops cfg schema
  (if cfg.hasDeletes then preflightFlag cfg schema else .ok ())
  ensure (cfg.requireExistingIndex = true → indexExists = true) (.missingIndex cfg.index)

variable {cfg schema}

theorem columnType_mem {schema : Schema} {name : String} {dt : SparkType}
    (h : columnType schema name = some dt) : (name, dt) ∈ schema := by
  obtain ⟨f, hf, rfl⟩ := Option.map_eq_some_iff.mp h
  have hname : f.1 = name := by simpa using List.find?_some hf
  exact hname ▸ List.mem_of_find?_eq_some hf

/-- The columns that a configuration names are there, and the flag is a boolean. -/
structure Preflighted (cfg : EsWriteConfig) (schema : Schema) : Prop where
  id : ∀ name, cfg.idField = some name → name ∈ schema.map Prod.fst
  drops : cfg.strictDropFields = true → ∀ name ∈ cfg.dropFields, name ∈ schema.map Prod.fst
  flag : cfg.hasDeletes = true → ∃ name, cfg.deleteFlagColumn = some name ∧
    columnType schema name = some (.atomic .boolean)

theorem ensure_ok {p : Prop} [Decidable p] {e : PreflightError} : ensure p e = .ok () ↔ p := by
  rw [ensure]
  split <;> simpa

theorem preflightFlag_ok (h : preflightFlag cfg schema = .ok ()) :
    ∃ name, cfg.deleteFlagColumn = some name ∧ columnType schema name = some (.atomic .boolean) := by
  rw [preflightFlag] at h
  split at h
  · rename_i name hname hdt
    rw [hname] at hdt
    exact ⟨name, hname, hdt⟩
  · cases h
  · cases h

/-- What passes `_preflight` has the columns that the configuration names. -/
theorem preflight_ok {indexExists : Bool} (h : preflight cfg schema indexExists = .ok ()) :
    Preflighted cfg schema := by
  obtain ⟨⟨⟩, hid, h⟩ := bind_ok h
  obtain ⟨⟨⟩, hdrops, h⟩ := bind_ok h
  obtain ⟨⟨⟩, hflag, -⟩ := bind_ok h
  refine ⟨?_, ?_, ?_⟩
  · intro name hname
    rw [preflightId, hname] at hid
    exact ensure_ok.mp hid
  · intro hstrict name hname
    have hnone := List.filter_eq_nil_iff.mp (ensure_ok.mp hdrops hstrict) name hname
    simpa using hnone
  · intro hdeletes
    rw [if_pos hdeletes] at hflag
    exact preflightFlag_ok hflag

end EsConnector
