import SafetyDao.Text

/-!
# The mock proof engines

`NoirProver` and `Risc0Prover` differ in the tag of their proofs and in a text put
before what is hashed; both write a proof as tag, hash and private inputs,
separated by colons. The hash is a parameter.
-/
namespace SafetyDao

inductive ProofError where
  | generation (e : Text)
  | verification (e : Text)
deriving DecidableEq

def ProofError.text : ProofError → Text
  | .generation e => "proof generation error: ".toList ++ e
  | .verification e => "proof verification error: ".toList ++ e

structure ProofOutput where
  proofData : Text
  proofHash : Text
  publicOutputs : List UInt8
deriving DecidableEq

structure ProofEngine where
  generateProof : Text → List UInt8 → List UInt8 → Except ProofError ProofOutput
  verifyProof : Text → List UInt8 → Except ProofError Bool

/-- The text of a proof: tag, hash and private inputs. -/
def proofText (tag proofHash : Text) (privateInputs : List UInt8) : Text :=
  tag ++ ':' :: (proofHash ++ ':' :: Hex.encode privateInputs)

def mockGenerate (sha256 : List UInt8 → List UInt8) (salt : List UInt8) (tag circuitType : Text)
    (privateInputs publicInputs : List UInt8) : Except ProofError ProofOutput :=
  let proofHash := Hex.encode (sha256 (salt ++ circuitType.utf8 ++ privateInputs ++ publicInputs))
  .ok ⟨proofText tag proofHash privateInputs, proofHash, publicInputs⟩

def mockVerify (sha256 : List UInt8 → List UInt8) (tag proofData : Text)
    (publicInputs : List UInt8) : Except ProofError Bool :=
  match Text.splitN ':' 2 proofData with
  | [first, hashStr] =>
    if first ≠ tag then .ok false
    else match Hex.decode hashStr with
      | none => .error (.verification "invalid hex in proof data".toList)
      | some hashBytes => .ok (hashBytes = sha256 publicInputs)
  | _ => .ok false

def noirTag : Text := "mock_proof".toList

def risc0Tag : Text := "risc0_mock".toList

def NoirProver (sha256 : List UInt8 → List UInt8) : ProofEngine where
  generateProof := mockGenerate sha256 [] noirTag
  verifyProof := mockVerify sha256 noirTag

def Risc0Prover (sha256 : List UInt8 → List UInt8) : ProofEngine where
  generateProof := mockGenerate sha256 (Text.utf8 "risc0".toList) risc0Tag
  verifyProof := mockVerify sha256 risc0Tag

inductive EngineName where
  | noir | risc0
deriving DecidableEq, Repr

def EngineName.engine (sha256 : List UInt8 → List UInt8) : EngineName → ProofEngine
  | .noir => NoirProver sha256
  | .risc0 => Risc0Prover sha256

theorem colon_not_mem_noirTag : ':' ∉ noirTag := by decide

theorem colon_not_mem_risc0Tag : ':' ∉ risc0Tag := by decide

theorem colon_not_mem_hex (bytes : List UInt8) : ':' ∉ Hex.encode bytes :=
  Hex.not_mem_encode rfl bytes

/-- The verifier splits once, so what it takes for the hash still has a colon in it. -/
theorem mockVerify_proofText (sha256 : List UInt8 → List UInt8) {tag : Text} (htag : ':' ∉ tag)
    (proofHash : Text) (privateInputs publicInputs : List UInt8) :
    mockVerify sha256 tag (proofText tag proofHash privateInputs) publicInputs =
      .error (.verification "invalid hex in proof data".toList) := by
  have hdecode : Hex.decode (proofHash ++ ':' :: Hex.encode privateInputs) = none :=
    Hex.decode_eq_none ':' (by simp) rfl
  rw [mockVerify, proofText, Text.splitN_append htag]
  simp only [Text.splitN, ne_eq, not_true_eq_false, if_false, hdecode]

/-- The third piece of a proof is the private inputs. -/
theorem splitN_proofText {tag proofHash : Text} (htag : ':' ∉ tag) (hhash : ':' ∉ proofHash)
    (privateInputs : List UInt8) :
    Text.splitN ':' 3 (proofText tag proofHash privateInputs) =
      [tag, proofHash, Hex.encode privateInputs] := by
  rw [proofText, Text.splitN_append htag, Text.splitN_append hhash, Text.splitN]

end SafetyDao
