import SafetyDao.ProofEngine

/-!
# What a proof hash is bound to

Both engines hash the circuit type, the private and the public inputs one after the other, and
RISC Zero a prefix before them. The joined bytes keep neither where an input ends nor whether the
first of them are a prefix, so that every call shares its hash with calls that cut the same bytes
elsewhere.
-/
namespace SafetyDao

/-- A call of `generate_proof` on one of the engines. -/
structure ProofCall where
  engine : EngineName
  circuitType : Text
  privateInputs : List UInt8
  publicInputs : List UInt8
deriving DecidableEq

/-- The bytes that an engine hashes before the inputs. -/
def EngineName.salt : EngineName → List UInt8
  | .noir => []
  | .risc0 => Text.utf8 "risc0".toList

def EngineName.tag : EngineName → Text
  | .noir => noirTag
  | .risc0 => risc0Tag

namespace ProofCall
variable (sha256 : List UInt8 → List UInt8)

def generate (c : ProofCall) : Except ProofError ProofOutput :=
  (c.engine.engine sha256).generateProof c.circuitType c.privateInputs c.publicInputs

/-- The bytes of a call in the order in which the hasher gets them. -/
def hashed (c : ProofCall) : List UInt8 :=
  c.engine.salt ++ c.circuitType.utf8 ++ c.privateInputs ++ c.publicInputs

/-- A proof hash that both calls give is of one statement. -/
def Bound (c d : ProofCall) : Prop :=
  ∀ p q, c.generate sha256 = .ok p → d.generate sha256 = .ok q → p.proofHash = q.proofHash →
    c.engine = d.engine ∧ c.circuitType = d.circuitType ∧ c.privateInputs = d.privateInputs ∧
      c.publicInputs = d.publicInputs

/-- The calls cut what they hash at the same places. -/
def SameCuts (c d : ProofCall) : Prop :=
  c.engine = d.engine ∧ c.circuitType.utf8.length = d.circuitType.utf8.length ∧
    c.privateInputs.length = d.privateInputs.length

section Hashes

theorem generate_eq (c : ProofCall) :
    c.generate sha256 =
      .ok ⟨proofText c.engine.tag (Hex.encode (sha256 c.hashed)) c.privateInputs,
        Hex.encode (sha256 c.hashed), c.publicInputs⟩ := by
  obtain ⟨engine, circuitType, privateInputs, publicInputs⟩ := c
  cases engine <;> rfl

/-- As long as the hash tells the calls' bytes apart, these decide. -/
theorem bound_iff_hashed {c d : ProofCall}
    (hsha : sha256 c.hashed = sha256 d.hashed → c.hashed = d.hashed) :
    c.Bound sha256 d ↔ (c.hashed = d.hashed → c = d) := by
  constructor
  · intro hbound heq
    have hhash : Hex.encode (sha256 c.hashed) = Hex.encode (sha256 d.hashed) := by rw [heq]
    obtain ⟨hengine, hcircuit, hprivate, hpublic⟩ :=
      hbound _ _ (c.generate_eq sha256) (d.generate_eq sha256) hhash
    obtain ⟨engine, circuitType, privateInputs, publicInputs⟩ := c
    simp only at hengine hcircuit hprivate hpublic
    rw [hengine, hcircuit, hprivate, hpublic]
  · intro himp p q hp hq hhash
    rw [generate_eq] at hp hq
    obtain rfl := Except.ok.inj hp
    obtain rfl := Except.ok.inj hq
    obtain rfl := himp (hsha (Hex.encode_injective hhash))
    exact ⟨rfl, rfl, rfl, rfl⟩

end Hashes

section Cuts

/-- Bytes cut twice at the same places fall into the same inputs. -/
theorem eq_of_sameCuts {c d : ProofCall} (hcuts : c.SameCuts d) (h : c.hashed = d.hashed) :
    c = d := by
  obtain ⟨engine, circuitType, privateInputs, publicInputs⟩ := c
  obtain ⟨engine', circuitType', privateInputs', publicInputs'⟩ := d
  obtain ⟨hengine, hcircuit, hprivate⟩ := hcuts
  simp only at hengine hcircuit hprivate
  subst hengine
  simp only [hashed, List.append_assoc] at h
  have hinputs := List.append_cancel_left h
  obtain ⟨hbytes, hrest⟩ := List.append_inj hinputs hcircuit
  obtain ⟨hsame, hpublic⟩ := List.append_inj hrest hprivate
  rw [Text.utf8_injective hbytes, hsame, hpublic]

/-- Equal hashes mean equal statements exactly for calls that are cut alike or joined to
different bytes. -/
theorem bound_iff {c d : ProofCall}
    (hsha : sha256 c.hashed = sha256 d.hashed → c.hashed = d.hashed) :
    c.Bound sha256 d ↔ c.SameCuts d ∨ c.hashed ≠ d.hashed := by
  rw [bound_iff_hashed sha256 hsha]
  constructor
  · intro himp
    by_cases h : c.hashed = d.hashed
    · obtain rfl := himp h
      exact .inl ⟨rfl, rfl, rfl⟩
    · exact .inr h
  · rintro (hcuts | hne) h
    · exact eq_of_sameCuts hcuts h
    · exact absurd h hne

end Cuts

section Shifts

/-- The call whose public inputs are all that is hashed. -/
def asPublic (bytes : List UInt8) : ProofCall := ⟨.noir, [], [], bytes⟩

/-- The call whose private inputs are all that is hashed. -/
def asPrivate (bytes : List UInt8) : ProofCall := ⟨.noir, [], bytes, []⟩

theorem hashed_asPublic (bytes : List UInt8) : (asPublic bytes).hashed = bytes := rfl

theorem hashed_asPrivate (bytes : List UInt8) : (asPrivate bytes).hashed = bytes :=
  List.append_nil bytes

theorem eq_nil_of_hashed_eq_nil {c : ProofCall} (h : c.hashed = []) : c = asPublic [] := by
  obtain ⟨engine, circuitType, privateInputs, publicInputs⟩ := c
  simp only [hashed, List.append_eq_nil_iff] at h
  obtain ⟨⟨⟨hsalt, hcircuit⟩, hprivate⟩, hpublic⟩ := h
  have hengine : engine = .noir := by
    cases engine with
    | noir => rfl
    | risc0 => exact absurd hsalt (by decide)
  have hcircuit' : circuitType = [] := Text.utf8_injective hcircuit
  rw [hengine, hcircuit', hprivate, hpublic, asPublic]

/-- Only one call has a hash of its own: that of the engine without a prefix on empty inputs. -/
theorem bound_to_all_iff {c : ProofCall}
    (hsha : ∀ d : ProofCall, sha256 c.hashed = sha256 d.hashed → c.hashed = d.hashed) :
    (∀ d, c.Bound sha256 d) ↔ c = asPublic [] := by
  constructor
  · intro hbound
    have hpublic : c = asPublic c.hashed :=
      (bound_iff_hashed sha256 (hsha _)).mp (hbound _) (hashed_asPublic _).symm
    have hprivate : c = asPrivate c.hashed :=
      (bound_iff_hashed sha256 (hsha _)).mp (hbound _) (hashed_asPrivate _).symm
    have hnil : c.hashed = [] := by
      have hinputs := congrArg ProofCall.publicInputs (hpublic.symm.trans hprivate)
      exact hinputs
    exact eq_nil_of_hashed_eq_nil hnil
  · rintro rfl d
    refine (bound_iff_hashed sha256 (hsha d)).mpr fun h => ?_
    exact (eq_nil_of_hashed_eq_nil h.symm).symm

end Shifts

/-- SHA-256 at the bytes of an age circuit without inputs, for Noir and for RISC Zero. -/
def ageDigest (bytes : List UInt8) : List UInt8 :=
  if bytes = Text.utf8 "age_verification".toList then
    [148, 102, 111, 127, 121, 190, 193, 177, 167, 127, 2, 187, 192, 76, 32, 19, 30, 244, 212, 91,
      208, 95, 91, 46, 216, 125, 84, 102, 167, 9, 177, 85]
  else
    [195, 52, 54, 49, 38, 165, 25, 135, 89, 96, 103, 87, 37, 116, 214, 20, 170, 5, 67, 116, 169,
      154, 26, 221, 28, 125, 103, 245, 148, 151, 139, 181]

def ageCall (engine : EngineName) : ProofCall := ⟨engine, "age_verification".toList, [], []⟩

theorem age_bound :
    ageDigest (ageCall .noir).hashed ≠ ageDigest (ageCall .risc0).hashed ∧
      ((ageCall .noir).Bound ageDigest (ageCall .risc0) ↔
        (ageCall .noir).SameCuts (ageCall .risc0) ∨
          (ageCall .noir).hashed ≠ (ageCall .risc0).hashed) := by
  have hne : ageDigest (ageCall .noir).hashed ≠ ageDigest (ageCall .risc0).hashed := by decide
  exact ⟨hne, bound_iff ageDigest fun h => absurd h hne⟩

/-- The last character of a circuit type can as well be the first private input. -/
theorem moved_character_same_hash :
    ¬ ∀ (sha256 : List UInt8 → List UInt8) (c d : ProofCall),
      (sha256 c.hashed = sha256 d.hashed → c.hashed = d.hashed) → c.Bound sha256 d := by
  intro h
  have hsame : (ProofCall.mk .noir "age1".toList [56] []).hashed =
      (ProofCall.mk .noir "age".toList [49, 56] []).hashed := by decide
  have hbound := h id (.mk .noir "age1".toList [56] []) (.mk .noir "age".toList [49, 56] [])
    fun _ => hsame
  obtain ⟨-, hcircuit, -⟩ := hbound _ _ (generate_eq id _) (generate_eq id _) (by rw [hsame])
  exact absurd hcircuit (by decide)

end ProofCall

end SafetyDao
