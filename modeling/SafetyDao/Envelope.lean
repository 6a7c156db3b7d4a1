import SafetyDao.AttestationService

/-!
# Encrypted payloads of the two services

An envelope is a nonce of twelve bytes followed by what AES-256-GCM makes of the plaintext.
The gateway and the attestation service write the same envelopes and take each other's
apart. What is no envelope the attestation service rejects, while the gateway panics.
-/
namespace SafetyDao

/-- The decryption of a key, a nonce and a ciphertext. -/
abbrev AesDecrypt : Type := List UInt8 → Vector UInt8 12 → List UInt8 → Option (List UInt8)

namespace Envelope

/-- The first twelve bytes. -/
def headNonce (s : List UInt8) (h : 12 ≤ s.length) : Vector UInt8 12 :=
  ⟨(s.take 12).toArray, by simpa using h⟩

theorem headNonce_append (nonce : Vector UInt8 12) (ct : List UInt8)
    (h : 12 ≤ (nonce.toList ++ ct).length) : headNonce (nonce.toList ++ ct) h = nonce := by
  have hbytes : ((nonce.toList ++ ct).take 12).toArray = nonce.toArray := by
    rw [List.take_left' nonce.length_toList]
    exact Array.toArray_toList
  exact Vector.toArray_inj.mp hbytes

theorem headNonce_drop (s : List UInt8) (h : 12 ≤ s.length) :
    (headNonce s h).toList ++ s.drop 12 = s := List.take_append_drop 12 s

end Envelope

section Gateway

variable {Json : Type} (libs : AttestationLibs Json) (aesDecrypt : AesDecrypt)

/-- `encrypt_payload` with the nonce it generates; nothing is a panic. -/
def encryptPayload (nonce : Vector UInt8 12) (plaintext key : List UInt8) : Option (List UInt8) :=
  if key.length ≠ 32 then none
  else (libs.aesEncrypt key nonce plaintext).map fun ciphertext => nonce.toList ++ ciphertext

/-- `decrypt_payload`; nothing is a panic. -/
def decryptPayload (ciphertext key : List UInt8) : Option (List UInt8) :=
  if key.length ≠ 32 then none
  else if h : 12 ≤ ciphertext.length then
    aesDecrypt key (Envelope.headNonce ciphertext h) (ciphertext.drop 12)
  else none

end Gateway

/-- `decrypt` of the attestation service. -/
def AttestationService.decrypt (aesDecrypt : AesDecrypt) (ciphertext key : List UInt8) :
    Except CryptoError (List UInt8) :=
  if h : ciphertext.length < 12 then .error .aead
  else if key.length ≠ 32 then .error .keyLength
  else
    match aesDecrypt key (Envelope.headNonce ciphertext (not_lt.mp h)) (ciphertext.drop 12) with
    | none => .error .aead
    | some plaintext => .ok plaintext

namespace Envelope

variable {Json : Type} (libs : AttestationLibs Json) (aesDecrypt : AesDecrypt)
  (key : List UInt8)

/-- Decryption with a key inverts encryption with the same nonce, and rejects all else. -/
def Inverts : Prop := ∀ nonce plaintext ciphertext,
  aesDecrypt key nonce ciphertext = some plaintext ↔
    libs.aesEncrypt key nonce plaintext = some ciphertext

/-- How a decryption ends. -/
inductive Outcome where
  | plaintext (bytes : List UInt8)
  | rejected
  | aborted

def gatewayOutcome (s : List UInt8) : Outcome :=
  match decryptPayload aesDecrypt s key with
  | none => .aborted
  | some bytes => .plaintext bytes

def attestationOutcome (s : List UInt8) : Outcome :=
  match AttestationService.decrypt aesDecrypt s key with
  | .error _ => .rejected
  | .ok bytes => .plaintext bytes

/-- Both decryptors return the same plaintext or both reject, and neither aborts. -/
def Agree (s : List UInt8) : Prop :=
  gatewayOutcome aesDecrypt key s = attestationOutcome aesDecrypt key s ∧
    gatewayOutcome aesDecrypt key s ≠ .aborted

/-- A nonce followed by an encryption of some plaintext with it. -/
def IsEnvelope (s : List UInt8) : Prop := ∃ nonce plaintext ciphertext,
  libs.aesEncrypt key nonce plaintext = some ciphertext ∧ s = nonce.toList ++ ciphertext

/-- Both encryptors make the same envelope of a plaintext with a nonce, and both decryptors
give the plaintext back. -/
def RoundTrips (nonce : Vector UInt8 12) (plaintext : List UInt8) : Prop :=
  ∃ envelope, encryptPayload libs nonce plaintext key = some envelope ∧
    (∀ (w : AttestationTable) (env : AttestationEnv), env.random 12 = nonce →
      (AttestationService.encrypt libs plaintext key).run AttestationTable.exec w [env] =
        some (.ok envelope, w, [])) ∧
    decryptPayload aesDecrypt envelope key = some plaintext ∧
    AttestationService.decrypt aesDecrypt envelope key = .ok plaintext

section Decryptors

variable {libs aesDecrypt key}

/-- The gateway returns what was encrypted under the nonce in front, or panics. -/
theorem decryptPayload_eq_some_iff (hkey : key.length = 32) (hinv : Inverts libs aesDecrypt key)
    {s plaintext : List UInt8} : decryptPayload aesDecrypt s key = some plaintext ↔
      ∃ nonce ciphertext, libs.aesEncrypt key nonce plaintext = some ciphertext ∧
        s = nonce.toList ++ ciphertext := by
  rw [decryptPayload, if_neg (not_not.mpr hkey)]
  constructor
  · intro h
    split at h
    · rename_i hlength
      exact ⟨_, _, (hinv _ _ _).mp h, (headNonce_drop s hlength).symm⟩
    · cases h
  · rintro ⟨nonce, ciphertext, hencrypt, rfl⟩
    have hlength : 12 ≤ (nonce.toList ++ ciphertext).length := by simp
    rw [dif_pos hlength, headNonce_append, List.drop_left' nonce.length_toList]
    exact (hinv _ _ _).mpr hencrypt

/-- The attestation service returns the same plaintexts, and an error for all else. -/
theorem decrypt_eq_ok_iff (hkey : key.length = 32) {s plaintext : List UInt8} :
    AttestationService.decrypt aesDecrypt s key = .ok plaintext ↔
      decryptPayload aesDecrypt s key = some plaintext := by
  rw [AttestationService.decrypt, decryptPayload, if_neg (not_not.mpr hkey)]
  by_cases hlength : s.length < 12
  · rw [dif_pos hlength, dif_neg (not_le.mpr hlength)]
    exact iff_of_false (fun h => by cases h) (fun h => by cases h)
  · rw [dif_neg hlength, if_neg (not_not.mpr hkey), dif_pos (not_lt.mp hlength)]
    cases aesDecrypt key (headNonce s (not_lt.mp hlength)) (s.drop 12) with
    | none => exact iff_of_false (fun h => by cases h) (fun h => by cases h)
    | some bytes => simp

/-- The decryptors agree where the gateway returns. -/
theorem agree_iff_decrypts (hkey : key.length = 32) {s : List UInt8} :
    Agree aesDecrypt key s ↔ ∃ plaintext, decryptPayload aesDecrypt s key = some plaintext := by
  unfold Agree gatewayOutcome attestationOutcome
  cases hgateway : decryptPayload aesDecrypt s key with
  | none => simp
  | some bytes =>
    rw [(decrypt_eq_ok_iff hkey).mpr hgateway]
    simp

end Decryptors

/-- The attestation service draws the nonce and makes the envelope that the gateway makes. -/
theorem run_encrypt (hkey : key.length = 32) {plaintext ciphertext : List UInt8}
    {env : AttestationEnv} (w : AttestationTable)
    (h : libs.aesEncrypt key (env.random 12) plaintext = some ciphertext) :
    (AttestationService.encrypt libs plaintext key).run AttestationTable.exec w [env] =
      some (.ok ((env.random 12).toList ++ ciphertext), w, []) := by
  rw [AttestationService.encrypt, if_neg (not_not.mpr hkey), Program.call_bind]
  refine Program.run_request.mpr ⟨env, [], rfl, ?_⟩
  have hnonce : (AttestationTable.exec w (.randomBytes 12) env).2 = env.random 12 := rfl
  rw [hnonce, h]
  rfl

/-- Under a key of 32 bytes a plaintext makes the round trip through either pair of an encryptor
and a decryptor if the cipher takes it, and the decryptors agree exactly on the envelopes. -/
theorem interchangeable_iff (hkey : key.length = 32) (hinv : Inverts libs aesDecrypt key) :
    (∀ nonce plaintext, RoundTrips libs aesDecrypt key nonce plaintext ↔
      (libs.aesEncrypt key nonce plaintext).isSome) ∧
    ∀ s, Agree aesDecrypt key s ↔ IsEnvelope libs key s := by
  refine ⟨fun nonce plaintext => ⟨?_, ?_⟩, fun s => ?_⟩
  · rintro ⟨envelope, hgateway, -⟩
    rw [encryptPayload, if_neg (not_not.mpr hkey)] at hgateway
    obtain ⟨ciphertext, hencrypt, -⟩ := Option.map_eq_some_iff.mp hgateway
    exact Option.isSome_of_eq_some hencrypt
  · intro h
    obtain ⟨ciphertext, hencrypt⟩ := Option.isSome_iff_exists.mp h
    have hdecrypt := (decryptPayload_eq_some_iff hkey hinv).mpr ⟨nonce, ciphertext, hencrypt, rfl⟩
    refine ⟨nonce.toList ++ ciphertext, ?_, ?_, hdecrypt, (decrypt_eq_ok_iff hkey).mpr hdecrypt⟩
    · rw [encryptPayload, if_neg (not_not.mpr hkey), hencrypt]
      rfl
    · rintro w env rfl
      exact run_encrypt libs key hkey w hencrypt
  · rw [agree_iff_decrypts hkey]
    simp only [decryptPayload_eq_some_iff hkey hinv, IsEnvelope]
    exact exists_comm

section ZeroKey

def zeroKey : List UInt8 := List.replicate 32 0

def zeroNonce : Vector UInt8 12 := Vector.replicate 12 0

def zeroText : List UInt8 := List.replicate 16 0

/-- AES-256-GCM of sixteen zero bytes under the zero key and nonce, with its tag. -/
def zeroCiphertext : List UInt8 :=
  [0xce, 0xa7, 0x40, 0x3d, 0x4d, 0x60, 0x6b, 0x6e, 0x07, 0x4e, 0xc5, 0xd3, 0xba, 0xf3, 0x9d, 0x18,
    0xd0, 0xd1, 0xc8, 0xa7, 0x99, 0x99, 0x6b, 0xf0, 0x26, 0x5b, 0x98, 0xb5, 0xd4, 0x8a, 0xb9, 0x19]

/-- The cipher on that text alone. -/
def zeroLibs : AttestationLibs Unit where
  sha256 := id
  aesEncrypt key nonce plaintext :=
    if key = zeroKey ∧ nonce = zeroNonce ∧ plaintext = zeroText then some zeroCiphertext else none
  toVec _ := .ok []

def zeroDecrypt : AesDecrypt := fun key nonce ciphertext =>
  if key = zeroKey ∧ nonce = zeroNonce ∧ ciphertext = zeroCiphertext then some zeroText else none

theorem inverts_zeroKey : Inverts zeroLibs zeroDecrypt zeroKey := by
  intro nonce plaintext ciphertext
  simp only [zeroLibs, zeroDecrypt, Option.ite_none_right_eq_some, Option.some.injEq, true_and]
  constructor
  · rintro ⟨⟨hnonce, hciphertext⟩, htext⟩
    exact ⟨⟨hnonce, htext.symm⟩, hciphertext.symm⟩
  · rintro ⟨⟨hnonce, htext⟩, hciphertext⟩
    exact ⟨⟨hnonce, hciphertext.symm⟩, htext.symm⟩

theorem interchangeable_zeroText :
    RoundTrips zeroLibs zeroDecrypt zeroKey zeroNonce zeroText ∧
      Agree zeroDecrypt zeroKey (zeroNonce.toList ++ zeroCiphertext) := by
  obtain ⟨htrips, hagree⟩ :=
    interchangeable_iff zeroLibs zeroDecrypt zeroKey (by decide) inverts_zeroKey
  refine ⟨(htrips _ _).mpr (by decide), (hagree _).mpr ?_⟩
  exact ⟨zeroNonce, zeroText, zeroCiphertext, by decide, rfl⟩

/-- The gateway panics on the empty byte string, which the attestation service rejects. -/
theorem short_input_aborts : ¬ ∀ (libs : AttestationLibs Unit) (aesDecrypt : AesDecrypt)
    (key : List UInt8), key.length = 32 → Inverts libs aesDecrypt key →
    ∀ s, Agree aesDecrypt key s := by
  intro h
  have hagree := h zeroLibs zeroDecrypt zeroKey (by decide) inverts_zeroKey []
  exact hagree.2 rfl

end ZeroKey

end Envelope

end SafetyDao
