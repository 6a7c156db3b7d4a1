import SafetyDao.AttestationStore

/-!
# The attestation service

`create_attestation`, `get_attestation` and `verify_attestation` as request
programs. The hash, the cipher and the JSON encoding come from libraries and are
parameters.
-/
namespace SafetyDao

/-- What the service calls of other packages. `aesEncrypt` takes a key, a nonce and
a plaintext. -/
structure AttestationLibs (Json : Type) where
  sha256 : List UInt8 → List UInt8
  aesEncrypt : List UInt8 → Vector UInt8 12 → List UInt8 → Option (List UInt8)
  toVec : Json → Except Text (List UInt8)

inductive CryptoError where
  | aead
  | keyLength
deriving DecidableEq

def CryptoError.text : CryptoError → Text
  | .aead => "encryption error: aead::Error".toList
  | .keyLength => "invalid key length".toList

inductive HandlerError where
  | db (e : DbError)
  | crypto (e : CryptoError)
  | proof (e : ProofError)
  | internal (e : Text)
deriving DecidableEq

namespace HandlerError

def text : HandlerError → Text
  | .db e => e.text
  | .crypto e => e.text
  | .proof e => e.text
  | .internal e => "internal error: ".toList ++ e

/-- The status of the response an error turns into. -/
def status : HandlerError → ℕ
  | .db .notFound => 404
  | _ => 500

end HandlerError

structure ProofRequest (Json : Type) where
  circuitType : Text
  userId : Text
  payload : Json

structure ProofResponse where
  attestationId : UUID
  proofHash : Text
deriving DecidableEq

structure AttestationResponse where
  id : UUID
  circuitType : Text
  proofData : Text
  proofHash : Text
  userIdHash : Text
  isVerified : Bool
  createdAt : Time
  updatedAt : Time
deriving DecidableEq

/-- The JSON object that `verify_attestation` returns. -/
structure VerifyResponse where
  id : UUID
  isValid : Bool
deriving DecidableEq

namespace AttestationService

open Attesting

variable {Json : Type} (libs : AttestationLibs Json) (encryptionKey : List UInt8)

/-- The nonce, followed by what the cipher returns. -/
def encrypt (plaintext key : List UInt8) : Attesting (Except CryptoError (List UInt8)) := do
  if key.length ≠ 32 then
    return .error .keyLength
  else
    let nonce ← randomBytes 12
    match libs.aesEncrypt key nonce plaintext with
    | none => return .error .aead
    | some ciphertext => return .ok (nonce.toList ++ ciphertext)

def hashUserId (userId : Text) (salt : Vector UInt8 16) : Text :=
  Hex.encode (libs.sha256 (salt.toList ++ userId.utf8))

/-- The INSERT of the new row, unverified. -/
def dbCreateAttestation (att : NewAttestation) : Attesting (Except DbError Attestation) := do
  let id ← newV4
  let now ← utcNow
  match ← insertAttestation {
    id := id
    circuitType := att.circuitType
    proofData := att.proofData
    proofHash := att.proofHash
    userIdHash := att.userIdHash
    payload := att.payload
    isVerified := false
    createdAt := now
    updatedAt := now } with
  | .error e => return .error (.sqlx e)
  | .ok row => return .ok row

def dbGetAttestation (id : UUID) : Attesting (Except DbError (Option Attestation)) := do
  match ← selectAttestation id with
  | .error e => return .error (.sqlx e)
  | .ok row => return .ok row

def updateVerificationStatus (id : UUID) (verified : Bool) : Attesting (Except DbError Unit) := do
  let now ← utcNow
  match ← updateVerified id verified now with
  | .error e => return .error (.sqlx e)
  | .ok rowsAffected =>
    if rowsAffected = 0 then return .error .notFound else return .ok ()

def createAttestation (body : ProofRequest Json) :
    Attesting (Except HandlerError ProofResponse) := do
  match libs.toVec body.payload with
  | .error e => return .error (.internal e)
  | .ok payloadBytes =>
    match ← encrypt libs payloadBytes encryptionKey with
    | .error e => return .error (.crypto e)
    | .ok encryptedPayload =>
      let salt ← randomBytes 16
      let userIdHash := hashUserId libs body.userId salt
      match (NoirProver libs.sha256).generateProof body.circuitType payloadBytes [] with
      | .error e => return .error (.proof e)
      | .ok proofOutput =>
        let newAtt : NewAttestation := {
          circuitType := body.circuitType
          userIdHash := userIdHash
          payload := encryptedPayload
          proofData := proofOutput.proofData
          proofHash := proofOutput.proofHash }
        match ← dbCreateAttestation newAtt with
        | .error e => return .error (.db e)
        | .ok attestation => return .ok ⟨attestation.id, proofOutput.proofHash⟩

/-- What is shown of a row: all of it but the encrypted payload. -/
def toResponse (attestation : Attestation) : AttestationResponse where
  id := attestation.id
  circuitType := attestation.circuitType
  proofData := attestation.proofData
  proofHash := attestation.proofHash
  userIdHash := attestation.userIdHash
  isVerified := attestation.isVerified
  createdAt := attestation.createdAt
  updatedAt := attestation.updatedAt

def getAttestation (id : UUID) : Attesting (Except HandlerError AttestationResponse) := do
  match ← dbGetAttestation id with
  | .error e => return .error (.db e)
  | .ok none => return .error (.db .notFound)
  | .ok (some attestation) => return .ok (toResponse attestation)

def verifyAttestation (id : UUID) : Attesting (Except HandlerError VerifyResponse) := do
  match ← dbGetAttestation id with
  | .error e => return .error (.db e)
  | .ok none => return .error (.db .notFound)
  | .ok (some attestation) =>
    match (NoirProver libs.sha256).verifyProof attestation.proofData [] with
    | .error e => return .error (.proof e)
    | .ok isValid =>
      match ← updateVerificationStatus id isValid with
      | .error e => return .error (.db e)
      | .ok _ => return .ok ⟨id, isValid⟩

end AttestationService

end SafetyDao
