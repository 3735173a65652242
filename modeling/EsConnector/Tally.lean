import Mathlib.Algebra.Group.Defs
import Mathlib.Algebra.GroupWithZero.Nat
import Mathlib.Algebra.BigOperators.Group.List.Basic
import EsConnector.BulkResponse

namespace EsConnector
set_option autoImplicit true

/-- The `counts` dictionary. -/
@[ext] structure Counts where
  written : Nat := 0
  deleted : Nat := 0
  ignored : Nat := 0
  errors : Nat := 0
deriving DecidableEq, Repr

namespace Counts

instance : Zero Counts := ⟨{}⟩
instance : Add Counts :=
  ⟨fun a b => ⟨a.written + b.written, a.deleted + b.deleted, a.ignored + b.ignored,
    a.errors + b.errors⟩⟩

@[simp] theorem written_zero : (0 : Counts).written = 0 := rfl
@[simp] theorem deleted_zero : (0 : Counts).deleted = 0 := rfl
@[simp] theorem ignored_zero : (0 : Counts).ignored = 0 := rfl
@[simp] theorem errors_zero : (0 : Counts).errors = 0 := rfl
@[simp] theorem written_add (a b : Counts) : (a + b).written = a.written + b.written := rfl
@[simp] theorem deleted_add (a b : Counts) : (a + b).deleted = a.deleted + b.deleted := rfl
@[simp] theorem ignored_add (a b : Counts) : (a + b).ignored = a.ignored + b.ignored := rfl
@[simp] theorem errors_add (a b : Counts) : (a + b).errors = a.errors + b.errors := rfl

instance : AddCommMonoid Counts where
  add_assoc a b c := by ext <;> simp [Nat.add_assoc]
  zero_add a := by ext <;> simp
  add_zero a := by ext <;> simp
  add_comm a b := by ext <;> simp [Nat.add_comm]
  nsmul := nsmulRec

/-- The number of lines that got an outcome. -/
def total (c : Counts) : Nat := c.written + c.deleted + c.ignored + c.errors

@[simp] theorem total_zero : (0 : Counts).total = 0 := rfl

@[simp] theorem total_add (a b : Counts) : (a + b).total = a.total + b.total := by
  simp only [total, written_add, deleted_add, ignored_add, errors_add]
  omega

/-- One more line with the given outcome. -/
def one : Outcome → Counts
  | .written => { written := 1 }
  | .deleted => { deleted := 1 }
  | .ignored => { ignored := 1 }
  | .error => { errors := 1 }

@[simp] theorem total_one (o : Outcome) : (one o).total = 1 := by cases o <;> rfl

@[simp] theorem total_errors (n : Nat) : ({ errors := n } : Counts).total = n := by
  simp only [total]
  omega

@[simp] theorem total_written (n : Nat) : ({ written := n } : Counts).total = n := by
  simp only [total]
  omega

end Counts

/-- The full-path diagnostics kept under `bulk_stats`. -/
@[ext] structure Diag where
  docsRetried : Nat := 0
  rejected429 : Nat := 0
  rejected409 : Nat := 0
  rejected4xxOther : Nat := 0
  rejected5xx : Nat := 0
  docsDeduped : Nat := 0
deriving DecidableEq, Repr

namespace Diag

instance : Zero Diag := ⟨{}⟩
instance : Add Diag :=
  ⟨fun a b => ⟨a.docsRetried + b.docsRetried, a.rejected429 + b.rejected429,
    a.rejected409 + b.rejected409, a.rejected4xxOther + b.rejected4xxOther,
    a.rejected5xx + b.rejected5xx, a.docsDeduped + b.docsDeduped⟩⟩

theorem add_def (a b : Diag) : a + b =
    ⟨a.docsRetried + b.docsRetried, a.rejected429 + b.rejected429,
      a.rejected409 + b.rejected409, a.rejected4xxOther + b.rejected4xxOther,
      a.rejected5xx + b.rejected5xx, a.docsDeduped + b.docsDeduped⟩ := rfl

theorem zero_def : (0 : Diag) = {} := rfl

instance : AddCommMonoid Diag where
  add_assoc a b c := by ext <;> simp [add_def, Nat.add_assoc]
  zero_add a := by ext <;> simp [add_def, zero_def]
  add_zero a := by ext <;> simp [add_def, zero_def]
  add_comm a b := by ext <;> simp [add_def, Nat.add_comm]
  nsmul := nsmulRec

end Diag

theorem map_add_zero (d : Option Diag) : d.map (· + 0) = d := by
  cases d <;> simp

/-- `diag[_reject_bucket(status)] += 1`. -/
def rejectBucket (status : Int) : Diag :=
  if status = 429 then { rejected429 := 1 }
  else if status = 409 then { rejected409 := 1 }
  else if 400 ≤ status ∧ status < 500 then { rejected4xxOther := 1 }
  else { rejected5xx := 1 }

inductive SendOutcome where
  | ok | timeout | error
deriving DecidableEq, Repr

/-- The tuple recorded for one `es.bulk` send. -/
structure SendRecord where
  docs : Nat
  bytes : Nat
  rttMs : ℚ
  tookMs : Option ℚ
  cpuMs : ℚ
  httpMs : Option ℚ
  outcome : SendOutcome
deriving DecidableEq, Repr

/-- The accumulators a chunk is shipped into: `counts`, `error_samples`, `stats` and `diag`. -/
@[ext] structure Tally where
  counts : Counts := {}
  errorSamples : List ErrorSample := []
  stats : Option (List SendRecord) := none
  diag : Option Diag := none
deriving DecidableEq

namespace Tally

/-- Empty accumulators, with or without the `bulk_stats` collectors. -/
def start (bulkStats : Bool) : Tally where
  stats := if bulkStats then some [] else none
  diag := if bulkStats then some 0 else none

/-- Empty accumulators that collect what `t` collects. -/
def fresh (t : Tally) : Tally where
  stats := t.stats.map fun _ => []
  diag := t.diag.map fun _ => 0

def addCounts (t : Tally) (c : Counts) : Tally := { t with counts := t.counts + c }

def addSample (t : Tally) (x : ErrorSample) : Tally :=
  if t.errorSamples.length < errorSampleCap then
    { t with errorSamples := t.errorSamples ++ [x] }
  else t

def addDiag (t : Tally) (d : Diag) : Tally := { t with diag := t.diag.map (· + d) }

/-- Count every line of a failed request as an error and keep one sample of it. -/
def failRequest (t : Tally) (lines : Nat) (e : BulkException) : Tally :=
  (t.addCounts { errors := lines }).addSample (requestErrorSample e)

/-- `_PipelinedShipper._merge`: fold the accumulators of a finished task into the shared ones. -/
def merge (t u : Tally) : Tally where
  counts := t.counts + u.counts
  errorSamples :=
    if t.errorSamples.length < errorSampleCap ∧ u.errorSamples ≠ [] then
      t.errorSamples ++ u.errorSamples.take (errorSampleCap - t.errorSamples.length)
    else t.errorSamples
  stats := match t.stats, u.stats with
    | some s, some s' => some (s ++ s')
    | s, _ => s
  diag := match t.diag, u.diag with
    | some d, some d' => some (d + d')
    | d, _ => d

@[simp] theorem addCounts_counts (t : Tally) (c : Counts) :
    (t.addCounts c).counts = t.counts + c := rfl
@[simp] theorem addCounts_errorSamples (t : Tally) (c : Counts) :
    (t.addCounts c).errorSamples = t.errorSamples := rfl
@[simp] theorem addCounts_stats (t : Tally) (c : Counts) : (t.addCounts c).stats = t.stats := rfl
@[simp] theorem addCounts_diag (t : Tally) (c : Counts) : (t.addCounts c).diag = t.diag := rfl

@[simp] theorem addDiag_counts (t : Tally) (d : Diag) : (t.addDiag d).counts = t.counts := rfl
@[simp] theorem addDiag_errorSamples (t : Tally) (d : Diag) :
    (t.addDiag d).errorSamples = t.errorSamples := rfl
@[simp] theorem addDiag_stats (t : Tally) (d : Diag) : (t.addDiag d).stats = t.stats := rfl
@[simp] theorem addDiag_diag (t : Tally) (d : Diag) : (t.addDiag d).diag = t.diag.map (· + d) :=
  rfl

@[simp] theorem addSample_counts (t : Tally) (x : ErrorSample) :
    (t.addSample x).counts = t.counts := by
  rw [addSample]
  split <;> rfl

@[simp] theorem addSample_stats (t : Tally) (x : ErrorSample) :
    (t.addSample x).stats = t.stats := by
  rw [addSample]
  split <;> rfl

@[simp] theorem addSample_diag (t : Tally) (x : ErrorSample) :
    (t.addSample x).diag = t.diag := by
  rw [addSample]
  split <;> rfl

@[simp] theorem failRequest_counts (t : Tally) (n : Nat) (e : BulkException) :
    (t.failRequest n e).counts = t.counts + { errors := n } := by
  simp [failRequest]

@[simp] theorem merge_counts (t u : Tally) : (t.merge u).counts = t.counts + u.counts := rfl

end Tally

end EsConnector
