import Mathlib.Data.List.Dedup
import SafetyDao.AttestationRuns

/-!
# The attestation service with its list of circuits

`list_circuits` reads the distinct values of `circuit_type` in the order of the database's
collation. It runs beside the other calls of the service, on a table that may have rows already.
-/
namespace SafetyDao

section Distinct

variable {α : Type} [LinearOrder α]

/-- `SELECT DISTINCT ... ORDER BY` on one column. -/
def selectDistinct (column : List α) : List α := column.dedup.insertionSort (· ≤ ·)

@[simp] theorem mem_selectDistinct {column : List α} {a : α} :
    a ∈ selectDistinct column ↔ a ∈ column := by
  rw [selectDistinct, List.mem_insertionSort, List.mem_dedup]

theorem pairwise_selectDistinct (column : List α) : (selectDistinct column).Pairwise (· < ·) := by
  have hsorted : (selectDistinct column).Pairwise (· ≤ ·) := List.pairwise_insertionSort _ _
  have hnodup : (selectDistinct column).Nodup :=
    (List.perm_insertionSort _ _).nodup_iff.mpr column.nodup_dedup
  exact (hsorted.and hnodup).imp fun h => lt_of_le_of_ne h.1 h.2

end Distinct

/-- An entry of the answer of `list_circuits`. -/
structure Circuit where
  name : Text
  description : Text
deriving DecidableEq

namespace AttestationListing
open AttestationService

/-- The statements of the service, with the one of `list_circuits`. -/
inductive Op where
  | table (op : AttestationOp)
  | selectCircuits

abbrev Op.Res : Op → Type
  | .table op => op.Res
  | .selectCircuits => Except String (List Text)

abbrev Serving (α : Type) : Type := Program Op.Res α

/-- The collation orders the values of `circuit_type`. -/
def exec (collation : LinearOrder Text) (w : AttestationTable) (op : Op) (env : AttestationEnv) :
    AttestationTable × op.Res :=
  match op with
  | .table op => w.exec op env
  | .selectCircuits =>
    env.attempt w (w, .ok (@selectDistinct Text collation (w.rows.map Attestation.circuitType)))

def ofTable {α : Type} (p : Attesting α) : Serving α := p.embed .table fun _ r => r

def dbListCircuits : Serving (Except DbError (List Text)) := do
  match ← Program.call Op.selectCircuits with
  | .error e => return .error (.sqlx e)
  | .ok rows => return .ok rows

def circuit (name : Text) : Circuit := ⟨name, "ZK circuit for ".toList ++ name⟩

def listCircuits : Serving (Except HandlerError (List Circuit)) := do
  match ← dbListCircuits with
  | .error e => return .error (.db e)
  | .ok circuitNames => return .ok (circuitNames.map circuit)

inductive Call (Json : Type) where
  | attestation (call : AttestationRuns.Call Json)
  | listCircuits

inductive Reply where
  | attestation (r : AttestationRuns.Reply)
  | circuits (r : Except HandlerError (List Circuit))

variable {Json ι : Type} (libs : AttestationLibs Json) (encryptionKey : List UInt8)
  (collation : LinearOrder Text)

def Call.program : Call Json → Serving Reply
  | .attestation call => .attestation <$> ofTable (call.program libs encryptionKey)
  | .listCircuits => .circuits <$> AttestationListing.listCircuits

def perform (_ : ι) (w : AttestationTable) (op : Op) (env : AttestationEnv) :
    AttestationTable × op.Res :=
  exec collation w op env

section Runs

variable [DecidableEq ι] (calls : ι → Call Json) (w : AttestationTable)

/-- The pool at the start: one program for each call, on any table. -/
def start : Pool Op.Res AttestationTable ι Reply :=
  ⟨w, fun t => (calls t).program libs encryptionKey⟩

def reached (schedule : List (ι × AttestationEnv)) : Pool Op.Res AttestationTable ι Reply :=
  (start libs encryptionKey calls w).run (perform collation) schedule

end Runs

end AttestationListing

end SafetyDao
