import SafetyDao.Database
import SafetyDao.ProofEngine

/-!
# Attestations in the database

The table `attestations` and one request for each statement of the attestation
service, together with the clock, fresh identifiers and random bytes it draws.
-/
namespace SafetyDao

structure Attestation where
  id : UUID
  circuitType : Text
  proofData : Text
  proofHash : Text
  userIdHash : Text
  payload : List UInt8
  isVerified : Bool
  createdAt : Time
  updatedAt : Time
deriving DecidableEq

structure NewAttestation where
  circuitType : Text
  userIdHash : Text
  payload : List UInt8
  proofData : Text
  proofHash : Text
deriving DecidableEq

inductive DbError where
  | sqlx (e : String)
  | notFound
deriving DecidableEq

def DbError.text : DbError → Text
  | .sqlx e => "database error: ".toList ++ e.toList
  | .notFound => "not found".toList

/-- What the environment contributes to a request, random bytes included. -/
structure AttestationEnv extends Env where
  random : (n : ℕ) → Vector UInt8 n

instance : Inhabited AttestationEnv := ⟨⟨default, fun n => Vector.replicate n 0⟩⟩

abbrev AttestationTable : Type := Table Attestation.id

inductive AttestationOp where
  | utcNow
  | newV4
  | randomBytes (n : ℕ)
  | insertAttestation (att : Attestation)
  | selectAttestation (id : UUID)
  | updateVerified (id : UUID) (verified : Bool) (updatedAt : Time)
deriving DecidableEq

abbrev AttestationOp.Res : AttestationOp → Type
  | .utcNow => Time
  | .newV4 => UUID
  | .randomBytes n => Vector UInt8 n
  | .insertAttestation _ => Except String Attestation
  | .selectAttestation _ => Except String (Option Attestation)
  | .updateVerified .. => Except String ℕ

def Attestation.setVerified (verified : Bool) (updatedAt : Time) (att : Attestation) :
    Attestation :=
  { att with isVerified := verified, updatedAt := updatedAt }

@[simp] theorem Attestation.setVerified_id (verified : Bool) (updatedAt : Time)
    (att : Attestation) : (att.setVerified verified updatedAt).id = att.id := rfl

namespace AttestationTable

/-- The columns `circuit_type`, `proof_hash` and `user_id_hash` have a length. -/
def insertAttestation (w : AttestationTable) (att : Attestation) :
    AttestationTable × Except String Attestation :=
  if att.circuitType.length ≤ 255 ∧ att.proofHash.length ≤ 64 ∧ att.userIdHash.length ≤ 64 then
    match w.insert att with
    | none => (w, .error "duplicate key value violates unique constraint \"attestations_pkey\"")
    | some t => (t, .ok att)
  else (w, .error "value too long for type character varying")

def exec (w : AttestationTable) (op : AttestationOp) (env : AttestationEnv) :
    AttestationTable × op.Res :=
  match op with
  | .utcNow => (w, env.now)
  | .newV4 => (w, env.uuid)
  | .randomBytes n => (w, env.random n)
  | .insertAttestation att => env.attempt w (w.insertAttestation att)
  | .selectAttestation id => env.attempt w (w, .ok (w.find? id))
  | .updateVerified id verified updatedAt =>
    env.attempt w (w.update id (Attestation.setVerified verified updatedAt)
      (Attestation.setVerified_id _ _), .ok (w.rows.countP (fun att => att.id = id)))

/-- The requests that leave the table alone whatever they answer. -/
def readOnly : AttestationOp → Bool
  | .insertAttestation _ => false
  | .updateVerified .. => false
  | _ => true

theorem exec_readOnly {op : AttestationOp} (h : readOnly op = true) (w : AttestationTable)
    (env : AttestationEnv) : (exec w op env).1 = w := by
  cases op with
  | utcNow => rfl
  | newV4 => rfl
  | randomBytes n => rfl
  | insertAttestation att => cases h
  | updateVerified id verified updatedAt => cases h
  | selectAttestation id => exact env.attempt_keeps (P := fun w' => w' = w) rfl rfl

theorem exec_selectAttestation {w : AttestationTable} {id : UUID} {env : AttestationEnv}
    {found : Option Attestation} (h : (exec w (.selectAttestation id) env).2 = .ok found) :
    found = w.find? id :=
  (Except.ok.inj (Env.ok_of_attempt h)).symm

/-- An attestation either is rejected and nothing changes, or it is the new last row. -/
theorem exec_insertAttestation (w : AttestationTable) (att : Attestation) (env : AttestationEnv) :
    (∃ e, exec w (.insertAttestation att) env = (w, .error e)) ∨
      ∃ t, w.insert att = some t ∧ exec w (.insertAttestation att) env = (t, .ok att) := by
  rcases env.attempt_cases w (w.insertAttestation att) with ⟨e, he⟩ | hok
  · exact .inl ⟨e, he⟩
  · have hexec : exec w (.insertAttestation att) env = w.insertAttestation att := hok
    rw [hexec, insertAttestation]
    split
    · cases hi : Table.insert w att with
      | none => exact .inl ⟨_, rfl⟩
      | some t => exact .inr ⟨t, rfl, rfl⟩
    · exact .inl ⟨_, rfl⟩

theorem exec_updateVerified (w : AttestationTable) (id : UUID) (verified : Bool)
    (updatedAt : Time) (env : AttestationEnv) :
    (∃ e, exec w (.updateVerified id verified updatedAt) env = (w, .error e)) ∨
      exec w (.updateVerified id verified updatedAt) env =
        (w.update id (Attestation.setVerified verified updatedAt)
          (Attestation.setVerified_id _ _), .ok (w.rows.countP fun att => att.id = id)) :=
  env.attempt_cases w _

end AttestationTable

/-- Programs of the attestation service. -/
abbrev Attesting (α : Type) : Type := Program AttestationOp.Res α

namespace Attesting

open Program

abbrev utcNow : Attesting Time := call AttestationOp.utcNow
abbrev newV4 : Attesting UUID := call AttestationOp.newV4
abbrev randomBytes (n : ℕ) : Attesting (Vector UInt8 n) := call (AttestationOp.randomBytes n)
abbrev insertAttestation (att : Attestation) : Attesting (Except String Attestation) :=
  call (AttestationOp.insertAttestation att)
abbrev selectAttestation (id : UUID) : Attesting (Except String (Option Attestation)) :=
  call (AttestationOp.selectAttestation id)
abbrev updateVerified (id : UUID) (verified : Bool) (updatedAt : Time) :
    Attesting (Except String ℕ) := call (AttestationOp.updateVerified id verified updatedAt)

section Recorded

variable {ι : Type}

/-- The table with the requests performed on it so far. -/
abbrev Shared (ι : Type) : Type := Recorded AttestationOp.Res AttestationTable ι

def perform : ι → Shared ι → (op : AttestationOp) → AttestationEnv → Shared ι × op.Res :=
  Recorded.perform AttestationTable.exec

theorem perform_eq (t : ι) (s : Shared ι) (op : AttestationOp) (env : AttestationEnv) :
    perform t s op env = (⟨(s.world.exec op env).1,
      ⟨t, op, (s.world.exec op env).2⟩ :: s.history⟩, (s.world.exec op env).2) := rfl

theorem perform_readOnly_world (t : ι) (s : Shared ι) (op : AttestationOp) (env : AttestationEnv)
    (h : AttestationTable.readOnly op = true) : (perform t s op env).1.world = s.world :=
  AttestationTable.exec_readOnly h s.world env

end Recorded

end Attesting

end SafetyDao
