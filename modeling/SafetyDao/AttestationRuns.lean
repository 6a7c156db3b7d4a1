import SafetyDao.AttestationService

/-!
# What stored attestations prove and reveal

Any number of creations, reads and verifications run interleaved, statement by
statement. Every row is the mock proof of its payload and stays so: its text is
what the verifier rejects, and its last piece is the payload in hexadecimal.
-/
namespace SafetyDao.AttestationRuns
open AttestationService
open Attesting (Shared perform perform_eq perform_readOnly_world)

inductive Call (Json : Type) where
  | create (body : ProofRequest Json)
  | get (id : UUID)
  | verify (id : UUID)

inductive Reply where
  | create (r : Except HandlerError ProofResponse)
  | get (r : Except HandlerError AttestationResponse)
  | verify (r : Except HandlerError VerifyResponse)

variable {Json ι α : Type} (libs : AttestationLibs Json) (encryptionKey : List UInt8)

def Call.program : Call Json → Attesting Reply
  | .create body => Reply.create <$> createAttestation libs encryptionKey body
  | .get id => Reply.get <$> getAttestation id
  | .verify id => Reply.verify <$> verifyAttestation libs id

/-- The text is a mock proof whose private inputs are the given bytes. -/
def Carries (payloadBytes : List UInt8) (proofData : Text) : Prop :=
  ∃ hash, ':' ∉ hash ∧ proofData = proofText noirTag hash payloadBytes

/-- Every row carries some payload, and none is verified. -/
def Inv (s : Shared ι) : Prop :=
  ∀ att ∈ s.world.rows, att.isVerified = false ∧ ∃ payloadBytes, Carries payloadBytes att.proofData

/-- Rows stay as they are, and new ones are as they should be. -/
structure Moves (s s' : Shared ι) : Prop where
  rows : ∀ id att, s.world.find? id = some att → s'.world.find? id = some att
  inv : Inv s → Inv s'

theorem Moves.refl (s : Shared ι) : Moves s s := ⟨fun _ _ h => h, id⟩

theorem Moves.trans {s₁ s₂ s₃ : Shared ι} (h₁ : Moves s₁ s₂) (h₂ : Moves s₂ s₃) : Moves s₁ s₃ :=
  ⟨fun id att h => h₂.rows id att (h₁.rows id att h), fun h => h₂.inv (h₁.inv h)⟩

theorem moves_of_world_eq {s s' : Shared ι} (h : s'.world = s.world) : Moves s s' := by
  refine ⟨fun id att hf => by rw [h]; exact hf, fun hinv => ?_⟩
  unfold Inv at hinv ⊢
  rw [h]
  exact hinv

theorem moves_insertAttestation (t : ι) (s : Shared ι) {att : Attestation}
    (hunverified : att.isVerified = false) {payloadBytes : List UInt8}
    (hcarries : Carries payloadBytes att.proofData) (env : AttestationEnv) :
    Moves s (perform t s (.insertAttestation att) env).1 := by
  rcases AttestationTable.exec_insertAttestation s.world att env with ⟨e, he⟩ | ⟨tbl, ht, he⟩
  · rw [perform_eq, he]
    exact moves_of_world_eq rfl
  · rw [perform_eq, he]
    constructor
    · intro id row hf
      rw [Table.find?_insert ht, if_neg]
      · exact hf
      · rintro rfl
        rw [(Table.insert_eq_some.mp ht).1] at hf
        cases hf
    · intro hinv row hrow
      rcases (Table.mem_insert ht).mp hrow with hrow | rfl
      · exact hinv row hrow
      · exact ⟨hunverified, payloadBytes, hcarries⟩

/-- What creation stores carries the payload of the request. -/
theorem carries_generateProof {circuitType : Text} {payloadBytes publicInputs : List UInt8}
    {out : ProofOutput} (h : (NoirProver libs.sha256).generateProof circuitType payloadBytes
      publicInputs = .ok out) : Carries payloadBytes out.proofData := by
  rw [← Except.ok.inj h]
  exact ⟨_, colon_not_mem_hex _, rfl⟩

theorem Carries.verifyProof {payloadBytes : List UInt8} {proofData : Text}
    (h : Carries payloadBytes proofData) (publicInputs : List UInt8) :
    (NoirProver libs.sha256).verifyProof proofData publicInputs =
      .error (.verification "invalid hex in proof data".toList) := by
  obtain ⟨hash, -, rfl⟩ := h
  exact mockVerify_proofText libs.sha256 colon_not_mem_noirTag hash payloadBytes publicInputs

section Contracts

/-- Every request is admitted. -/
def anyRequest (_ : ι) (_ : Shared ι) (_ : AttestationOp) (_ : AttestationEnv) : Prop := True

def contract (post : α → Shared ι → Prop) : Contract (Shared ι) α := ⟨Moves, Moves, post⟩

variable {t : ι} {post : α → Shared ι → Prop}

theorem moves_keep_inv (s s' : Shared ι) (hm : Moves s s') (h : Inv s) : Inv s' := hm.inv h

theorem holds_readOnly {op : AttestationOp} (hop : AttestationTable.readOnly op = true)
    {next : op.Res → Attesting α} {s : Shared ι} (hs : Inv s)
    (hnext : ∀ s₁ env, Inv s₁ → Inv (perform t s₁ op env).1 →
      Contract.Holds perform anyRequest t (contract post) (next (perform t s₁ op env).2)
        (perform t s₁ op env).1) :
    Contract.Holds perform anyRequest t (contract post) (.request op next) s :=
  Contract.Holds.of_moves moves_keep_inv
    (fun s₁ env => moves_of_world_eq (perform_readOnly_world t s₁ op env hop)) hs
    fun s₁ env hs₁ _ hs' => hnext s₁ env hs₁ hs'

/-- After a successful creation its row is there, with the payload. -/
def Created (body : ProofRequest Json) (r : Except HandlerError ProofResponse) (s : Shared ι) :
    Prop :=
  ∀ resp, r = .ok resp → ∃ payloadBytes att, libs.toVec body.payload = .ok payloadBytes ∧
    s.world.find? resp.attestationId = some att ∧ Carries payloadBytes att.proofData

theorem Created.moves {libs : AttestationLibs Json} {body : ProofRequest Json}
    {r : Except HandlerError ProofResponse}
    {s s' : Shared ι} (h : Created libs body r s) (hm : Moves s s') : Created libs body r s' := by
  intro resp hresp
  obtain ⟨payloadBytes, att, hbytes, hfind, hcarries⟩ := h resp hresp
  exact ⟨payloadBytes, att, hbytes, hm.rows _ _ hfind, hcarries⟩

/-- A request of which only the answer matters. -/
theorem holds_draw {op : AttestationOp} (hop : AttestationTable.readOnly op = true)
    {next : op.Res → Attesting α} {s : Shared ι} (hs : Inv s)
    (hnext : ∀ r s', Inv s' → Contract.Holds perform anyRequest t (contract post) (next r) s') :
    Contract.Holds perform anyRequest t (contract post) (.request op next) s :=
  holds_readOnly hop hs fun _ _ _ hs' => hnext _ _ hs'

/-- A row that was inserted is there, as it was inserted. -/
theorem holds_dbCreateAttestation (new : NewAttestation) {payloadBytes : List UInt8}
    (hcarries : Carries payloadBytes new.proofData) {s : Shared ι} (hs : Inv s) :
    Contract.Holds perform anyRequest t (contract fun r s => Inv s ∧ ∀ row, r = .ok row →
      s.world.find? row.id = some row ∧ row.proofData = new.proofData)
      (dbCreateAttestation new) s := by
  unfold dbCreateAttestation
  simp only [Program.call_bind, Program.pure_eq]
  refine holds_draw rfl hs fun id s₁ hs₁ => ?_
  refine holds_draw rfl hs₁ fun now s₂ hs₂ => ?_
  generalize hatt : (Attestation.mk id new.circuitType new.proofData new.proofHash new.userIdHash
    new.payload false now now) = att
  have hunverified : att.isVerified = false := by rw [← hatt]
  have hproof : att.proofData = new.proofData := by rw [← hatt]
  refine Contract.Holds.of_stable moves_keep_inv hs₂ fun s₃ hs₃ env _ => ?_
  have hm := moves_insertAttestation t s₃ hunverified (hproof ▸ hcarries) env
  refine ⟨hm, ?_⟩
  have hinv := hm.inv hs₃
  rcases AttestationTable.exec_insertAttestation s₃.world att env with ⟨e, he⟩ | ⟨tbl, ht, he⟩
  · rw [perform_eq, he] at hinv ⊢
    exact fun s₄ hm₄ => ⟨hm₄.inv hinv, fun row h => by cases h⟩
  · rw [perform_eq, he] at hinv ⊢
    intro s₄ hm₄
    refine ⟨hm₄.inv hinv, fun row hrow => ?_⟩
    rw [← Except.ok.inj hrow]
    refine ⟨hm₄.rows _ _ ?_, hproof⟩
    rw [Table.find?_insert ht, if_pos rfl]

/-- What the cipher returns does not matter to the row's proof. -/
theorem holds_encrypt (plaintext key : List UInt8) {s : Shared ι} (hs : Inv s) :
    Contract.Holds perform anyRequest t (contract fun _ s => Inv s)
      (encrypt libs plaintext key) s := by
  unfold encrypt
  split
  · exact fun s' hm => hm.inv hs
  · simp only [Program.call_bind, Program.pure_eq]
    refine holds_draw rfl hs fun nonce s₁ hs₁ => ?_
    split <;> exact fun s' hm => hm.inv hs₁

theorem holds_createAttestation (body : ProofRequest Json) {s : Shared ι} (hs : Inv s) :
    Contract.Holds perform anyRequest t (contract (Created libs body))
      (createAttestation libs encryptionKey body) s := by
  have hfail : ∀ (e : HandlerError) (s : Shared ι), Contract.Holds perform anyRequest t
      (contract (Created libs body)) (.done (.error e)) s := fun e s s' _ resp h => by cases h
  unfold createAttestation
  cases hbytes : libs.toVec body.payload with
  | error e => exact hfail _ _
  | ok payloadBytes =>
  refine (holds_encrypt libs payloadBytes encryptionKey hs).bind Moves.refl fun r s₁ hs₁ => ?_
  cases r with
  | error e => exact hfail _ _
  | ok encryptedPayload =>
  simp only [Program.call_bind, Program.pure_eq]
  refine holds_draw rfl hs₁ fun salt s₂ hs₂ => ?_
  cases hout : (NoirProver libs.sha256).generateProof body.circuitType payloadBytes [] with
  | error e => exact hfail _ _
  | ok out =>
  have hcarries := carries_generateProof libs hout
  refine (holds_dbCreateAttestation _ hcarries hs₂).bind Moves.refl fun r s₃ hs₃ => ?_
  cases r with
  | error e => exact hfail _ _
  | ok row =>
  obtain ⟨hfind, hproof⟩ := hs₃.2 row rfl
  intro s₄ hm resp hresp
  rw [← Except.ok.inj hresp]
  exact ⟨payloadBytes, row, hbytes, hm.rows _ _ hfind, hproof ▸ hcarries⟩

theorem holds_getAttestation (id : UUID) {s : Shared ι} (hs : Inv s) :
    Contract.Holds perform anyRequest t (contract fun _ _ => True) (getAttestation id) s := by
  unfold getAttestation dbGetAttestation
  simp only [Program.call_bind, Program.request_bind, Program.pure_eq]
  refine holds_draw rfl hs fun r s₁ _ => ?_
  cases r with
  | error e => exact fun _ _ => trivial
  | ok found => cases found <;> exact fun _ _ => trivial

/-- No verification succeeds, and none reaches its UPDATE. -/
theorem holds_verifyAttestation (id : UUID) {s : Shared ι} (hs : Inv s) :
    Contract.Holds perform anyRequest t (contract fun r _ => ∃ e, r = .error e)
      (verifyAttestation libs id) s := by
  unfold verifyAttestation dbGetAttestation
  simp only [Program.call_bind, Program.request_bind, Program.pure_eq]
  refine holds_readOnly rfl hs fun s₁ env₁ hs₁ _ => ?_
  cases hr : (perform t s₁ (.selectAttestation id) env₁).2 with
  | error e => exact fun _ _ => ⟨_, rfl⟩
  | ok found =>
    cases found with
    | none => exact fun _ _ => ⟨_, rfl⟩
    | some att =>
      have hfind := AttestationTable.exec_selectAttestation hr
      obtain ⟨payloadBytes, hcarries⟩ := (hs₁ att (Table.mem_of_find? hfind.symm)).2
      simp only [Program.done_bind, hcarries.verifyProof libs []]
      exact fun _ _ => ⟨_, rfl⟩

/-- What a call has reached when it returns. -/
def callPost (calls : ι → Call Json) (t : ι) (r : Reply) (s : Shared ι) : Prop :=
  (∀ body res, calls t = .create body → r = .create res → Created libs body res s) ∧
    ∀ id res, calls t = .verify id → r = .verify res → ∃ e, res = .error e

theorem holds_program (calls : ι → Call Json) (t : ι) {s : Shared ι} (hs : Inv s) :
    Contract.Holds perform anyRequest t (contract (callPost libs calls t))
      ((calls t).program libs encryptionKey) s := by
  cases hc : calls t with
  | create body =>
    refine (holds_createAttestation libs encryptionKey body hs).bind Moves.refl fun r s hr => ?_
    refine fun s' hm => ⟨fun body' res hcall hreply => ?_, fun id res hcall => ?_⟩
    · rw [hc, Call.create.injEq] at hcall
      rw [Reply.create.injEq] at hreply
      exact hcall ▸ hreply ▸ Created.moves hr hm
    · rw [hc] at hcall
      cases hcall
  | get id =>
    refine (holds_getAttestation id hs).bind Moves.refl fun r s _ s' _ => ⟨?_, ?_⟩ <;>
      (intro _ _ hcall; rw [hc] at hcall; cases hcall)
  | verify id =>
    refine (holds_verifyAttestation libs id hs).bind Moves.refl fun r s hr s' _ => ⟨?_, ?_⟩
    · intro body res hcall
      rw [hc] at hcall
      cases hcall
    · intro id' res _ hreply
      rw [← Reply.verify.inj hreply]
      exact hr

end Contracts

section Runs

variable [DecidableEq ι]

/-- The pool at the start: one program per call, and no attestation yet. -/
def start (calls : ι → Call Json) : Pool AttestationOp.Res (Shared ι) ι Reply :=
  ⟨⟨.empty, []⟩, fun t => (calls t).program libs encryptionKey⟩

def reached (calls : ι → Call Json) (schedule : List (ι × AttestationEnv)) :
    Pool AttestationOp.Res (Shared ι) ι Reply :=
  (start libs encryptionKey calls).run perform schedule

/-- In every reachable state the invariant holds, and every call that has returned
is at its postcondition. -/
theorem reached_sound (calls : ι → Call Json) (schedule : List (ι × AttestationEnv)) :
    Inv (reached libs encryptionKey calls schedule).state ∧
      ∀ t r, (reached libs encryptionKey calls schedule).threads t = .done r →
        callPost libs calls t r (reached libs encryptionKey calls schedule).state := by
  have hstart : Inv (start libs encryptionKey calls).state := by
    intro att hatt
    cases hatt
  obtain ⟨hholds, hmoves⟩ := Contract.run_shared Moves.refl (fun _ _ _ h₁ h₂ => h₁.trans h₂)
    (Pool.guarded_of_forall (fun _ _ _ _ => trivial) (start libs encryptionKey calls) schedule)
    (fun t => holds_program libs encryptionKey calls t hstart)
  exact ⟨hmoves.inv hstart, fun t r hdone => (hholds t).done hdone Moves.refl⟩

end Runs

/-- Neither engine ever verifies a proof that it has generated, and in no run does a
verification succeed or a stored attestation become verified. -/
theorem no_proof_verifies (libs : AttestationLibs Json) (encryptionKey : List UInt8) :
    (∀ (engine : EngineName) (circuitType : Text) (privateInputs publicInputs : List UInt8)
      (out : ProofOutput), (engine.engine libs.sha256).generateProof circuitType privateInputs
        publicInputs = .ok out →
      (engine.engine libs.sha256).verifyProof out.proofData publicInputs =
        .error (.verification "invalid hex in proof data".toList)) ∧
    ∀ (ι : Type) [DecidableEq ι] (calls : ι → Call Json) (schedule : List (ι × AttestationEnv)),
      (∀ att ∈ (reached libs encryptionKey calls schedule).state.world.rows,
        att.isVerified = false) ∧
      ∀ t id res, calls t = .verify id →
        (reached libs encryptionKey calls schedule).threads t = .done (.verify res) →
        ∃ e, res = .error e := by
  constructor
  · intro engine circuitType privateInputs publicInputs out hout
    cases engine with
    | noir =>
      rw [← Except.ok.inj hout]
      exact mockVerify_proofText libs.sha256 colon_not_mem_noirTag _ privateInputs publicInputs
    | risc0 =>
      rw [← Except.ok.inj hout]
      exact mockVerify_proofText libs.sha256 colon_not_mem_risc0Tag _ privateInputs publicInputs
  · intro ι _ calls schedule
    obtain ⟨hinv, hpost⟩ := reached_sound libs encryptionKey calls schedule
    exact ⟨fun att hatt => (hinv att hatt).1,
      fun t id res hcall hdone => (hpost t _ hdone).2 id res hcall rfl⟩

/-- The verifier asks for a colon-free hash, but what it takes is hash and inputs. -/
theorem noir_proof_rejected :
    ¬ ∀ (sha256 : List UInt8 → List UInt8) (engine : EngineName) (circuitType : Text)
      (privateInputs publicInputs : List UInt8) (out : ProofOutput),
      (engine.engine sha256).generateProof circuitType privateInputs publicInputs = .ok out →
      (engine.engine sha256).verifyProof out.proofData publicInputs = .ok true := by
  intro h
  have hok := h (fun _ => [0]) .noir "age".toList [1] [] _ rfl
  revert hok
  decide

section Recovery

/-- Reads the private inputs back from what `get_attestation` returns. -/
def recoverPayload (_circuitType proofData _proofHash _userIdHash : Text) : List UInt8 :=
  match Text.splitN ':' 3 proofData with
  | [_, _, inputs] => (Hex.decode inputs).getD []
  | _ => []

/-- In every run, whatever key, nonces and salts, `f` applied to the response on an
attestation that was created is the serialized payload of its request. -/
def Recovers (libs : AttestationLibs Json) (f : Text → Text → Text → Text → List UInt8) : Prop :=
  ∀ (encryptionKey : List UInt8) (ι : Type) [DecidableEq ι] (calls : ι → Call Json)
    (schedule : List (ι × AttestationEnv)) (t : ι) (body : ProofRequest Json)
    (resp : ProofResponse), calls t = .create body →
    (reached libs encryptionKey calls schedule).threads t = .done (.create (.ok resp)) →
    ∀ t' response s', (getAttestation resp.attestationId).Completes (perform t')
      (reached libs encryptionKey calls schedule).state (.ok response) s' →
    libs.toVec body.payload =
      .ok (f response.circuitType response.proofData response.proofHash response.userIdHash)

theorem Carries.recoverPayload {payloadBytes : List UInt8} {proofData : Text}
    (h : Carries payloadBytes proofData) (circuitType proofHash userIdHash : Text) :
    recoverPayload circuitType proofData proofHash userIdHash = payloadBytes := by
  obtain ⟨hash, hhash, rfl⟩ := h
  rw [AttestationRuns.recoverPayload, splitN_proofText colon_not_mem_noirTag hhash]
  simp only [Hex.decode_encode, Option.getD_some]

/-- `get_attestation` answers with the row of its identifier. -/
theorem ensures_getAttestation (t : ι) (id : UUID) (s : Shared ι) :
    Program.Ensures (perform t) (fun r _ => ∀ response, r = .ok response →
      ∃ att, s.world.find? id = some att ∧ response = toResponse att) (getAttestation id) s := by
  unfold getAttestation dbGetAttestation
  simp only [Program.call_bind, Program.request_bind, Program.pure_eq]
  intro env
  cases hr : (perform t s (.selectAttestation id) env).2 with
  | error e => exact fun response h => by cases h
  | ok found =>
    cases found with
    | none => exact fun response h => by cases h
    | some att =>
      have hfind := AttestationTable.exec_selectAttestation hr
      exact fun response h => ⟨att, hfind.symm, (Except.ok.inj h).symm⟩

theorem recovers_recoverPayload (libs : AttestationLibs Json) : Recovers libs recoverPayload := by
  intro encryptionKey ι _ calls schedule t body resp hcall hdone t' response s' hget
  obtain ⟨-, hpost⟩ := reached_sound libs encryptionKey calls schedule
  obtain ⟨payloadBytes, att, hbytes, hfind, hcarries⟩ :=
    (hpost t _ hdone).1 body _ hcall rfl resp rfl
  obtain ⟨att', hfind', rfl⟩ := (ensures_getAttestation t' resp.attestationId _).completes hget
    response rfl
  rw [hfind, Option.some.injEq] at hfind'
  subst hfind'
  rw [hbytes, toResponse, hcarries.recoverPayload]

/-- The payload of every attestation can be read off its response without the key. -/
theorem payload_recoverable (libs : AttestationLibs Json) : ∃ f, Recovers libs f :=
  ⟨recoverPayload, recovers_recoverPayload libs⟩

/-- A hash and a cipher of no use, and payloads that are their own encoding. -/
def plainLibs : AttestationLibs (List UInt8) where
  sha256 _ := [0]
  aesEncrypt _ _ plaintext := some plaintext
  toVec := .ok

/-- Store the payload "hi" and read the attestation. -/
def storeAndRead : Attesting (Except HandlerError AttestationResponse) := do
  let _ ← createAttestation plainLibs (List.replicate 32 0) ⟨"age".toList, "u".toList, [104, 105]⟩
  getAttestation 5

def storedHi : AttestationResponse :=
  ⟨5, "age".toList, "mock_proof:00:6869".toList, "00".toList, "00".toList, false, 0, 0⟩

/-- The response on "hi" has the payload in it, and a decoder exists for every library. -/
theorem hi_read_back :
    (∃ s, storeAndRead.Completes (perform ()) ⟨.empty, []⟩ (.ok storedHi) s) ∧
    recoverPayload storedHi.circuitType storedHi.proofData storedHi.proofHash storedHi.userIdHash =
      [104, 105] ∧
    ¬ ∀ (Json : Type) (libs : AttestationLibs Json), ¬ ∃ f, Recovers libs f := by
  refine ⟨⟨_, List.replicate 6 ⟨.good 0 5, fun n => Vector.replicate n 0⟩, rfl⟩, by decide, ?_⟩
  exact fun h => h _ plainLibs ⟨recoverPayload, recovers_recoverPayload plainLibs⟩

end Recovery

end SafetyDao.AttestationRuns
