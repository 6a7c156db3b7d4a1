import Mathlib.Data.Char
import Mathlib.Data.List.Lex
import SafetyDao.AttestationListing

/-!
# The life of an attestation

Calls of the attestation service run interleaved on any table. A row stays, and nothing of it
changes but the mark of its verification, which can only become the verdict on its own proof. So
what a call has answered stays true, and a list of circuits is what the table had at one moment
of the call.
-/
namespace SafetyDao.AttestationLifecycle
open AttestationListing
open AttestationService

variable {Json ι : Type} (libs : AttestationLibs Json)

/-- A later version of a row. The mark is the old one, or the verdict on the proof. -/
structure Later (att att' : Attestation) : Prop where
  same : att' = att.setVerified att'.isVerified att'.updatedAt
  verdict : att' = att ∨
    (NoirProver libs.sha256).verifyProof att.proofData [] = .ok att'.isVerified

/-- The row is of the request, with the proof that was generated for it, as it is inserted. -/
structure Created (body : ProofRequest Json) (att : Attestation) : Prop where
  circuitType : att.circuitType = body.circuitType
  userIdHash : ∃ salt, att.userIdHash = hashUserId libs body.userId salt
  proof : ∃ payloadBytes out, libs.toVec body.payload = .ok payloadBytes ∧
    (NoirProver libs.sha256).generateProof body.circuitType payloadBytes [] = .ok out ∧
      att.proofData = out.proofData ∧ att.proofHash = out.proofHash
  isVerified : att.isVerified = false
  updatedAt : att.updatedAt = att.createdAt

/-- Every row was there at the start or is of one of the calls, or a later version of such a
row. -/
def Origin (calls : ι → Call Json) (w₀ w : AttestationTable) : Prop :=
  ∀ att ∈ w.rows, ∃ att₀, Later libs att₀ att ∧
    (att₀ ∈ w₀.rows ∨ ∃ t body, calls t = .attestation (.create body) ∧ Created libs body att₀)

/-- The row is there, in this version or a later one. -/
def Holding (att : Attestation) (w : AttestationTable) : Prop :=
  ∃ att', w.find? att.id = some att' ∧ Later libs att att'

variable {libs}

section Later

variable {att att' att'' : Attestation}

theorem Later.refl (att : Attestation) : Later libs att att := ⟨rfl, .inl rfl⟩

theorem Later.proofData_eq (h : Later libs att att') : att'.proofData = att.proofData := by
  rw [h.same]
  rfl

theorem Later.id_eq (h : Later libs att att') : att'.id = att.id := by
  rw [h.same]
  rfl

theorem Later.trans (h₁ : Later libs att att') (h₂ : Later libs att' att'') :
    Later libs att att'' := by
  constructor
  · rw [h₂.same, h₁.same]
    rfl
  · rcases h₂.verdict with rfl | hverdict
    · exact h₁.verdict
    · rw [h₁.proofData_eq] at hverdict
      exact .inr hverdict

/-- Once the mark is the verdict, it stays so. -/
theorem Later.decided (h : Later libs att att') {verified : Bool}
    (hverdict : (NoirProver libs.sha256).verifyProof att.proofData [] = .ok verified)
    (hmark : att.isVerified = verified) : att'.isVerified = verified := by
  rcases h.verdict with rfl | hlater
  · exact hmark
  · rw [hverdict] at hlater
    exact (Except.ok.inj hlater).symm

end Later

section Moves

variable (libs) (calls : ι → Call Json) (w₀ : AttestationTable)

/-- What the calls do to the table. -/
structure Moves (w w' : AttestationTable) : Prop where
  rows : ∀ id att, w.find? id = some att → ∃ att', w'.find? id = some att' ∧ Later libs att att'
  origin : Origin libs calls w₀ w → Origin libs calls w₀ w'

variable {libs calls w₀} {w w' w'' : AttestationTable}

theorem Moves.refl (w : AttestationTable) : Moves libs calls w₀ w w :=
  ⟨fun _ att h => ⟨att, h, .refl att⟩, id⟩

theorem Moves.trans (h₁ : Moves libs calls w₀ w w') (h₂ : Moves libs calls w₀ w' w'') :
    Moves libs calls w₀ w w'' := by
  refine ⟨fun id att h => ?_, fun h => h₂.origin (h₁.origin h)⟩
  obtain ⟨att', h', hlater⟩ := h₁.rows id att h
  obtain ⟨att'', h'', hlater'⟩ := h₂.rows id att' h'
  exact ⟨att'', h'', hlater.trans hlater'⟩

theorem Holding.moves {att : Attestation} (h : Holding libs att w)
    (hm : Moves libs calls w₀ w w') : Holding libs att w' := by
  obtain ⟨att', h', hlater⟩ := h
  obtain ⟨att'', h'', hlater'⟩ := hm.rows _ _ h'
  exact ⟨att'', h'', hlater.trans hlater'⟩

theorem holding_of_find? {id : UUID} {att : Attestation} (h : w.find? id = some att) :
    Holding libs att w := by
  obtain rfl := Table.key_of_find? h
  exact ⟨att, h, .refl att⟩

/-- A row of a call is added to the rows. -/
theorem moves_insertAttestation {att : Attestation} {t : ι} {body : ProofRequest Json}
    (hcall : calls t = .attestation (.create body)) (hcreated : Created libs body att)
    (env : AttestationEnv) : Moves libs calls w₀ w (w.exec (.insertAttestation att) env).1 := by
  rcases AttestationTable.exec_insertAttestation w att env with ⟨e, he⟩ | ⟨tbl, ht, he⟩
  · rw [he]
    exact .refl w
  · rw [he]
    refine ⟨fun id row hfind => ⟨row, ?_, .refl row⟩, fun horigin row hrow => ?_⟩
    · rw [Table.find?_insert ht, if_neg]
      · exact hfind
      · rintro rfl
        rw [(Table.insert_eq_some.mp ht).1] at hfind
        cases hfind
    · rcases (Table.mem_insert ht).mp hrow with hrow | rfl
      · exact horigin row hrow
      · exact ⟨row, .refl row, .inr ⟨t, body, hcall, hcreated⟩⟩

/-- The mark of a row becomes the verdict on its proof. -/
theorem moves_updateVerified {id : UUID} {verified : Bool} (updatedAt : Time)
    (hverdict : ∀ att, w.find? id = some att →
      (NoirProver libs.sha256).verifyProof att.proofData [] = .ok verified) (env : AttestationEnv) :
    Moves libs calls w₀ w (w.exec (.updateVerified id verified updatedAt) env).1 := by
  refine env.attempt_keeps (P := Moves libs calls w₀ w) (.refl w) ?_
  have hlater : ∀ att, w.find? id = some att →
      Later libs att (att.setVerified verified updatedAt) :=
    fun att hfind => ⟨rfl, .inr (hverdict att hfind)⟩
  refine ⟨fun i att hfind => ?_, fun horigin row hrow => ?_⟩
  · rw [Table.find?_update]
    split
    · rename_i hi
      subst hi
      rw [hfind]
      exact ⟨_, rfl, hlater att hfind⟩
    · exact ⟨att, hfind, .refl att⟩
  · simp only [Table.mem_update] at hrow
    obtain ⟨att, hatt, rfl⟩ := hrow
    split
    · rename_i hid
      have hl := hlater att (hid ▸ Table.find?_of_mem hatt)
      obtain ⟨att₀, hl₀, hfirst⟩ := horigin att hatt
      exact ⟨att₀, hl₀.trans hl, hfirst⟩
    · exact horigin att hatt

end Moves

section Contracts

variable {calls : ι → Call Json} {w₀ : AttestationTable}

/-- The statements of the table on their own. -/
def performTable (_ : ι) (w : AttestationTable) (op : AttestationOp) (env : AttestationEnv) :
    AttestationTable × op.Res :=
  w.exec op env

def anyRequest {Op : Type} (_ : ι) (_ : AttestationTable) (_ : Op) (_ : AttestationEnv) : Prop :=
  True

variable {α : Type} {t : ι} {post : α → AttestationTable → Prop} {w : AttestationTable}

/-- A request that changes nothing, under an assertion that the others keep. -/
theorem holds_readOnly {op : AttestationOp} (hop : AttestationTable.readOnly op = true)
    {next : op.Res → Attesting α} {P : AttestationTable → Prop}
    (hstable : ∀ w w', Moves libs calls w₀ w w' → P w → P w') (hw : P w)
    (hnext : ∀ w env, P w → Contract.Holds performTable anyRequest t
      ⟨Moves libs calls w₀, Moves libs calls w₀, post⟩ (next (w.exec op env).2) w) :
    Contract.Holds performTable anyRequest t ⟨Moves libs calls w₀, Moves libs calls w₀, post⟩
      (.request op next) w := by
  have hsame : ∀ w env, (performTable t w op env).1 = w :=
    fun w env => AttestationTable.exec_readOnly hop w env
  refine Contract.Holds.of_moves hstable (fun w env => ?_) hw fun w env hP _ _ => ?_
  · rw [hsame]
    exact .refl w
  · rw [hsame]
    exact hnext w env hP

/-- The row that a creation has answered with is there. -/
def ToldCreated (libs : AttestationLibs Json) (body : ProofRequest Json)
    (r : Except HandlerError ProofResponse) (w : AttestationTable) : Prop :=
  ∀ resp, r = .ok resp → ∃ att, Created libs body att ∧ att.id = resp.attestationId ∧
    att.proofHash = resp.proofHash ∧ Holding libs att w

theorem ToldCreated.moves {body : ProofRequest Json} {r : Except HandlerError ProofResponse}
    {w w' : AttestationTable} (h : ToldCreated libs body r w) (hm : Moves libs calls w₀ w w') :
    ToldCreated libs body r w' := by
  intro resp hresp
  obtain ⟨att, hcreated, hid, hhash, hholding⟩ := h resp hresp
  exact ⟨att, hcreated, hid, hhash, hholding.moves hm⟩

theorem holds_encrypt (plaintext key : List UInt8) (w : AttestationTable) :
    Contract.Holds performTable anyRequest t
      ⟨Moves libs calls w₀, Moves libs calls w₀, fun _ _ => True⟩
      (encrypt libs plaintext key) w := by
  unfold encrypt
  split
  · exact fun _ _ => trivial
  · simp only [Program.call_bind, Program.pure_eq]
    refine holds_readOnly rfl (Contract.keeps_true _) trivial fun w env _ => ?_
    split <;> exact fun _ _ => trivial

theorem holds_createAttestation (encryptionKey : List UInt8) {body : ProofRequest Json}
    (hcall : calls t = .attestation (.create body)) (w : AttestationTable) :
    Contract.Holds performTable anyRequest t
      ⟨Moves libs calls w₀, Moves libs calls w₀, ToldCreated libs body⟩
      (createAttestation libs encryptionKey body) w := by
  have hfail : ∀ (e : HandlerError) (w : AttestationTable), Contract.Holds performTable anyRequest t
      ⟨Moves libs calls w₀, Moves libs calls w₀, ToldCreated libs body⟩ (.done (.error e)) w :=
    fun e w w' _ resp h => by cases h
  unfold createAttestation
  cases hbytes : libs.toVec body.payload with
  | error e => exact hfail _ _
  | ok payloadBytes =>
  refine (holds_encrypt payloadBytes encryptionKey w).bind Moves.refl fun r w₁ _ => ?_
  cases r with
  | error e => exact hfail _ _
  | ok encryptedPayload =>
  simp only [Program.call_bind, Program.pure_eq]
  refine holds_readOnly rfl (Contract.keeps_true _) trivial fun w₂ env _ => ?_
  cases hout : (NoirProver libs.sha256).generateProof body.circuitType payloadBytes [] with
  | error e => exact hfail _ _
  | ok out =>
  simp only [dbCreateAttestation, Program.call_bind, Program.request_bind, Program.pure_eq]
  refine holds_readOnly rfl (Contract.keeps_true _) trivial fun w₃ env₃ _ => ?_
  refine holds_readOnly rfl (Contract.keeps_true _) trivial fun w₄ env₄ _ => ?_
  generalize hatt : Attestation.mk _ body.circuitType _ _ _ _ _ _ _ = att
  have hcreated : Created libs body att := by
    rw [← hatt]
    exact ⟨rfl, ⟨_, rfl⟩, ⟨payloadBytes, out, hbytes, hout, rfl, rfl⟩, rfl, rfl⟩
  have hhash : att.proofHash = out.proofHash := by rw [← hatt]
  intro w₅ _ env _
  refine ⟨moves_insertAttestation hcall hcreated env, ?_⟩
  rcases AttestationTable.exec_insertAttestation w₅ att env with ⟨e, he⟩ | ⟨tbl, ht, he⟩
  · simp only [performTable, he]
    exact hfail _ _
  · simp only [performTable, he]
    refine fun w₆ hm => ToldCreated.moves ?_ hm
    rintro resp ⟨⟩
    exact ⟨att, hcreated, rfl, hhash, holding_of_find? (by rw [Table.find?_insert ht, if_pos rfl])⟩

/-- The row that was shown is there, as it was shown or later. -/
def ToldRow (libs : AttestationLibs Json) (r : Except HandlerError AttestationResponse)
    (w : AttestationTable) : Prop :=
  ∀ response, r = .ok response → ∃ att, response = toResponse att ∧ Holding libs att w

theorem ToldRow.moves {r : Except HandlerError AttestationResponse} {w w' : AttestationTable}
    (h : ToldRow libs r w) (hm : Moves libs calls w₀ w w') : ToldRow libs r w' := by
  intro response hresponse
  obtain ⟨att, hshown, hholding⟩ := h response hresponse
  exact ⟨att, hshown, hholding.moves hm⟩

theorem holds_getAttestation (id : UUID) (w : AttestationTable) :
    Contract.Holds performTable anyRequest t
      ⟨Moves libs calls w₀, Moves libs calls w₀, ToldRow libs⟩ (getAttestation id) w := by
  unfold getAttestation dbGetAttestation
  simp only [Program.call_bind, Program.request_bind, Program.pure_eq]
  refine holds_readOnly rfl (Contract.keeps_true _) trivial fun w₁ env _ => ?_
  cases hr : (w₁.exec (.selectAttestation id) env).2 with
  | error e => exact fun _ _ response h => by cases h
  | ok found =>
    cases found with
    | none => exact fun _ _ response h => by cases h
    | some att =>
      have hfind := AttestationTable.exec_selectAttestation hr
      rintro w₂ hm response ⟨⟩
      exact ⟨att, rfl, (holding_of_find? hfind.symm).moves hm⟩

/-- The verdict that was told is that on the proof of the row, and its mark. -/
def ToldVerdict (libs : AttestationLibs Json) (r : Except HandlerError VerifyResponse)
    (w : AttestationTable) : Prop :=
  ∀ response, r = .ok response → ∃ att, w.find? response.id = some att ∧
    (NoirProver libs.sha256).verifyProof att.proofData [] = .ok response.isValid ∧
      att.isVerified = response.isValid

theorem ToldVerdict.moves {r : Except HandlerError VerifyResponse} {w w' : AttestationTable}
    (h : ToldVerdict libs r w) (hm : Moves libs calls w₀ w w') : ToldVerdict libs r w' := by
  intro response hresponse
  obtain ⟨att, hfind, hverdict, hmark⟩ := h response hresponse
  obtain ⟨att', hfind', hlater⟩ := hm.rows _ _ hfind
  exact ⟨att', hfind', by rwa [hlater.proofData_eq], hlater.decided hverdict hmark⟩

theorem holds_verifyAttestation (id : UUID) (w : AttestationTable) :
    Contract.Holds performTable anyRequest t
      ⟨Moves libs calls w₀, Moves libs calls w₀, ToldVerdict libs⟩
      (verifyAttestation libs id) w := by
  have hfail : ∀ (e : HandlerError) (w : AttestationTable), Contract.Holds performTable anyRequest t
      ⟨Moves libs calls w₀, Moves libs calls w₀, ToldVerdict libs⟩ (.done (.error e)) w :=
    fun e w w' _ response h => by cases h
  unfold verifyAttestation dbGetAttestation
  simp only [Program.call_bind, Program.request_bind, Program.pure_eq]
  refine holds_readOnly rfl (Contract.keeps_true _) trivial fun w₁ env _ => ?_
  cases hr : (w₁.exec (.selectAttestation id) env).2 with
  | error e => exact hfail _ _
  | ok found =>
  cases found with
  | none => exact hfail _ _
  | some att =>
  have hfind := (AttestationTable.exec_selectAttestation hr).symm
  obtain rfl := Table.key_of_find? hfind
  simp only [Program.done_bind]
  cases hverdict : (NoirProver libs.sha256).verifyProof att.proofData [] with
  | error e => exact hfail _ _
  | ok isValid =>
  simp only [updateVerificationStatus, Program.call_bind, Program.request_bind, Program.pure_eq]
  -- from here on the row is there, with the proof that was judged
  refine holds_readOnly rfl (fun _ _ hm h => Holding.moves h hm) (holding_of_find? hfind)
    fun w₂ env₂ hw₂ => ?_
  refine Contract.Holds.of_stable (fun _ _ hm h => Holding.moves h hm) hw₂ fun w₃ hw₃ env₃ _ => ?_
  obtain ⟨att', hfind', hlater⟩ := hw₃
  have hjudged : ∀ att'', w₃.find? att.id = some att'' →
      (NoirProver libs.sha256).verifyProof att''.proofData [] = .ok isValid := by
    rintro att'' hfind''
    rw [hfind', Option.some.injEq] at hfind''
    rw [← hfind'', hlater.proofData_eq, hverdict]
  refine ⟨moves_updateVerified _ hjudged env₃, ?_⟩
  rcases AttestationTable.exec_updateVerified w₃ att.id isValid (w₂.exec .utcNow env₂).2 env₃ with
    ⟨e, he⟩ | hok
  · simp only [performTable, he]
    exact hfail _ _
  · simp only [performTable, hok]
    split
    · exact hfail _ _
    · refine fun w₄ hm => ToldVerdict.moves ?_ hm
      rintro response ⟨⟩
      refine ⟨att'.setVerified isValid (w₂.exec .utcNow env₂).2, ?_, hjudged att' hfind', rfl⟩
      rw [Table.find?_update, if_pos rfl, hfind']
      rfl

/-- Every circuit that was listed is that of some row. -/
def ToldCircuits (r : Except HandlerError (List Circuit)) (w : AttestationTable) : Prop :=
  ∀ circuits, r = .ok circuits → ∀ c ∈ circuits, c = circuit c.name ∧
    ∃ att ∈ w.rows, att.circuitType = c.name

theorem Moves.circuitType {w w' : AttestationTable} (hm : Moves libs calls w₀ w w')
    {att : Attestation} (hatt : att ∈ w.rows) :
    ∃ att' ∈ w'.rows, att'.circuitType = att.circuitType := by
  obtain ⟨att', hfind, hlater⟩ := hm.rows _ _ (Table.find?_of_mem hatt)
  refine ⟨att', Table.mem_of_find? hfind, ?_⟩
  rw [hlater.same]
  rfl

theorem ToldCircuits.moves {r : Except HandlerError (List Circuit)} {w w' : AttestationTable}
    (h : ToldCircuits r w) (hm : Moves libs calls w₀ w w') : ToldCircuits r w' := by
  intro circuits hcircuits c hc
  obtain ⟨hname, att, hatt, htype⟩ := h circuits hcircuits c hc
  obtain ⟨att', hatt', htype'⟩ := hm.circuitType hatt
  exact ⟨hname, att', hatt', htype'.trans htype⟩

/-- What the statement of `list_circuits` answers with. -/
theorem exec_selectCircuits {collation : LinearOrder Text} {w : AttestationTable}
    {env : AttestationEnv} {names : List Text}
    (h : (exec collation w .selectCircuits env).2 = .ok names) :
    names = @selectDistinct Text collation (w.rows.map Attestation.circuitType) :=
  (Except.ok.inj (Env.ok_of_attempt h)).symm

theorem perform_selectCircuits (collation : LinearOrder Text) (w : AttestationTable)
    (env : AttestationEnv) : (perform collation t w .selectCircuits env).1 = w :=
  env.attempt_keeps (P := fun w' => w' = w) rfl rfl

theorem holds_listCircuits (collation : LinearOrder Text) (w : AttestationTable) :
    Contract.Holds (perform collation) anyRequest t
      ⟨Moves libs calls w₀, Moves libs calls w₀, ToldCircuits⟩ listCircuits w := by
  unfold listCircuits dbListCircuits
  simp only [Program.call_bind, Program.request_bind, Program.pure_eq]
  refine Contract.Holds.of_stable (Contract.keeps_true _) trivial fun w₁ _ env _ => ?_
  rw [perform_selectCircuits]
  refine ⟨.refl w₁, ?_⟩
  cases hr : (perform collation t w₁ .selectCircuits env).2 with
  | error e => exact fun _ _ circuits h => by cases h
  | ok names =>
    rintro w₂ hm circuits ⟨⟩ c hc
    obtain ⟨name, hname, rfl⟩ := List.mem_map.mp hc
    rw [exec_selectCircuits hr, mem_selectDistinct] at hname
    obtain ⟨att, hatt, rfl⟩ := List.mem_map.mp hname
    exact ⟨rfl, hm.circuitType hatt⟩

variable (libs) in
/-- What a call has told is so. -/
def Told (call : Call Json) : Reply → AttestationTable → Prop
  | .attestation (.create r), w =>
    ∀ body, call = .attestation (.create body) → ToldCreated libs body r w
  | .attestation (.get r), w => ToldRow libs r w
  | .attestation (.verify r), w => ToldVerdict libs r w
  | .circuits r, w => ToldCircuits r w

theorem Told.moves {call : Call Json} {r : Reply} {w w' : AttestationTable}
    (h : Told libs call r w) (hm : Moves libs calls w₀ w w') : Told libs call r w' := by
  match r with
  | .attestation (.create r) => exact fun body hbody => (h body hbody).moves hm
  | .attestation (.get r) => exact ToldRow.moves h hm
  | .attestation (.verify r) => exact ToldVerdict.moves h hm
  | .circuits r => exact ToldCircuits.moves h hm

/-- What a call of the service meets on its table, it meets beside the list of circuits. -/
theorem holds_ofTable {collation : LinearOrder Text} {p : Attesting α}
    (h : Contract.Holds performTable anyRequest t
      ⟨Moves libs calls w₀, Moves libs calls w₀, post⟩ p w) :
    Contract.Holds (perform collation) anyRequest t
      ⟨Moves libs calls w₀, Moves libs calls w₀, post⟩ (ofTable p) w :=
  h.embed (f := Op.table) (fun _ _ _ => rfl) fun _ _ _ h => h

theorem holds_attestation (encryptionKey : List UInt8) {call : AttestationRuns.Call Json}
    (hcall : calls t = .attestation call) (w : AttestationTable) :
    Contract.Holds performTable anyRequest t
      ⟨Moves libs calls w₀, Moves libs calls w₀, fun r => Told libs (calls t) (.attestation r)⟩
      (call.program libs encryptionKey) w := by
  cases call with
  | create body =>
    refine (holds_createAttestation encryptionKey hcall w).bind Moves.refl fun r w₁ hr w₂ hm => ?_
    intro body' hbody
    obtain rfl : body = body' := by
      rw [hcall] at hbody
      cases hbody
      rfl
    exact hr.moves hm
  | get id =>
    refine (holds_getAttestation id w).bind Moves.refl fun r w₁ hr w₂ hm => ?_
    exact ToldRow.moves hr hm
  | verify id =>
    refine (holds_verifyAttestation id w).bind Moves.refl fun r w₁ hr w₂ hm => ?_
    exact ToldVerdict.moves hr hm

theorem holds_program (encryptionKey : List UInt8) (collation : LinearOrder Text)
    (w : AttestationTable) : Contract.Holds (perform collation) anyRequest t
      ⟨Moves libs calls w₀, Moves libs calls w₀, Told libs (calls t)⟩
      ((calls t).program libs encryptionKey) w := by
  cases hc : calls t with
  | listCircuits =>
    refine (holds_listCircuits collation w).bind Moves.refl fun r w₁ hr w₂ hm => ?_
    exact ToldCircuits.moves hr hm
  | attestation call =>
    have hcall := @holds_attestation _ _ libs calls w₀ t encryptionKey call hc w
    rw [hc] at hcall
    refine (holds_ofTable hcall).bind Moves.refl fun r w₁ hr w₂ hm => ?_
    exact Told.moves hr hm

end Contracts

section Runs

variable [DecidableEq ι] (libs) (encryptionKey : List UInt8) (collation : LinearOrder Text)
  (calls : ι → Call Json) (w : AttestationTable)

variable {libs encryptionKey collation calls w} in
theorem run_sound (xs : List (ι × AttestationEnv)) :
    (∀ t, Contract.Holds (perform collation) anyRequest t
      ⟨Moves libs calls w, Moves libs calls w, Told libs (calls t)⟩
      ((reached libs encryptionKey collation calls w xs).threads t)
      (reached libs encryptionKey collation calls w xs).state) ∧
    Moves libs calls w w (reached libs encryptionKey collation calls w xs).state :=
  Contract.run_shared Moves.refl (fun _ _ _ => Moves.trans)
    (Pool.guarded_of_forall (fun _ _ _ _ => trivial) _ xs)
    fun _ => holds_program encryptionKey collation w

variable {libs encryptionKey collation calls w} in
/-- The table moves on from where a run has brought it. -/
theorem run_moves (xs ys : List (ι × AttestationEnv)) :
    Moves libs calls w (reached libs encryptionKey collation calls w xs).state
      (reached libs encryptionKey collation calls w (xs ++ ys)).state := by
  rw [reached, reached, Pool.run_append, ← reached]
  exact (Contract.run_shared Moves.refl (fun _ _ _ => Moves.trans)
    (Pool.guarded_of_forall (fun _ _ _ _ => trivial) _ ys) (run_sound xs).1).2

/-- Between any two moments no row is lost or changes but for its mark, none comes but from a
call that creates it, unverified, and what a call has answered by the first moment is still so at
the second. -/
theorem run_attested (xs ys : List (ι × AttestationEnv)) :
    (∀ att ∈ (reached libs encryptionKey collation calls w xs).state.rows,
      Holding libs att (reached libs encryptionKey collation calls w (xs ++ ys)).state) ∧
    Origin libs calls w (reached libs encryptionKey collation calls w xs).state ∧
    ∀ t reply, (reached libs encryptionKey collation calls w xs).threads t = .done reply →
      Told libs (calls t) reply
        (reached libs encryptionKey collation calls w (xs ++ ys)).state := by
  obtain ⟨hholds, hmove⟩ := @run_sound _ _ libs _ encryptionKey collation calls w xs
  refine ⟨fun att hatt => ?_, ?_, fun t reply hdone => ?_⟩
  · exact (holding_of_find? (Table.find?_of_mem hatt)).moves (run_moves xs ys)
  · exact hmove.origin fun att hatt => ⟨att, .refl att, .inl hatt⟩
  · exact ((hholds t).done hdone Moves.refl).moves (run_moves xs ys)

/-- A list of circuits that is answered is made of the names that were selected. -/
def ReturnsCircuits (selected : Except String (List Text)) (reply : Reply) : Prop :=
  ∀ circuits, reply = .circuits (.ok circuits) →
    ∃ names, selected = .ok names ∧ circuits = names.map circuit

/-- A list of circuits has the types of the rows at one moment of its call, in the order of the
collation and each once, and so the type of every row that was there before the call. -/
theorem circuits_snapshot (xs ys : List (ι × AttestationEnv)) (t : ι)
    (hcall : calls t = .listCircuits) (hnew : ∀ slot ∈ xs, slot.1 ≠ t) (circuits : List Circuit)
    (hdone : (reached libs encryptionKey collation calls w (xs ++ ys)).threads t =
      .done (.circuits (.ok circuits))) :
    ∃ ys₁ ys₂, ∃ names : List Text, ys = ys₁ ++ ys₂ ∧ circuits = names.map circuit ∧
      names.Pairwise collation.lt ∧
      (∀ name, name ∈ names ↔ ∃ att ∈
        (reached libs encryptionKey collation calls w (xs ++ ys₁)).state.rows,
          att.circuitType = name) ∧
      ∀ att ∈ (reached libs encryptionKey collation calls w xs).state.rows,
        att.circuitType ∈ names := by
  set pool := reached libs encryptionKey collation calls w xs with hpool
  have hrun : ∀ zs, reached libs encryptionKey collation calls w (xs ++ zs) =
      pool.run (perform collation) zs := by
    intro zs
    rw [hpool, reached, Pool.run_append, ← reached]
  have hthread : pool.threads t = (calls t).program libs encryptionKey := by
    rw [hpool, reached, Pool.threads_run_of_forall_ne _ hnew]
    rfl
  rw [hcall] at hthread
  have hdone' := hdone
  rw [hrun] at hdone'
  obtain ⟨ys₁, env, ys₂, rfl, hstep⟩ := Pool.exists_turn hthread hdone'
  rw [Pool.run_append, Pool.run, hstep] at hdone'
  have hreturns : ReturnsCircuits (perform collation t (pool.run (perform collation) ys₁).state
      .selectCircuits env).2 (.circuits (.ok circuits)) := by
    refine Contract.Holds.returns (fun reply _ => ReturnsCircuits _ reply) ?_ hdone'
    dsimp only
    rw [Function.update_self]
    cases hr : (perform collation t (pool.run (perform collation) ys₁).state
      .selectCircuits env).2 with
    | error e => exact fun _ _ circuits h => by cases h
    | ok names =>
      rintro _ - circuits ⟨⟩
      exact ⟨names, rfl, rfl⟩
  obtain ⟨names, hnames, rfl⟩ := hreturns circuits rfl
  have hselected := exec_selectCircuits hnames
  rw [← hrun] at hselected
  have hmem : ∀ name, name ∈ names ↔ ∃ att ∈
      (reached libs encryptionKey collation calls w (xs ++ ys₁)).state.rows,
        att.circuitType = name := by
    intro name
    rw [hselected, mem_selectDistinct, List.mem_map]
  refine ⟨ys₁, (t, env) :: ys₂, names, rfl, rfl, ?_, hmem, fun att hatt => ?_⟩
  · rw [hselected]
    exact @pairwise_selectDistinct Text collation _
  · exact (hmem _).mpr ((run_moves xs ys₁).circuitType hatt)

end Runs

/-- Two attestations of different circuits, and the list of circuits. -/
def twoAndList : Fin 3 → Call (List UInt8)
  | 0 => .attestation (.create ⟨"age".toList, "u".toList, [104, 105]⟩)
  | 1 => .attestation (.create ⟨"id".toList, "u".toList, [104]⟩)
  | 2 => .listCircuits

/-- Thread `t` performs `n` requests, and an identifier that it draws is its own. -/
def turns (t : Fin 3) (n : ℕ) : List (Fin 3 × AttestationEnv) :=
  List.replicate n (t, ⟨.good 0 t, fun n => Vector.replicate n 0⟩)

/-- The second attestation comes in while the circuits are listed. -/
theorem twoAndList_snapshot : ∃ (circuits : List Circuit) (ys₁ ys₂ : List (Fin 3 × AttestationEnv))
    (names : List Text), turns 1 5 ++ turns 2 1 = ys₁ ++ ys₂ ∧ circuits = names.map circuit ∧
    names.Pairwise (inferInstance : LinearOrder (List Char)).lt ∧
    (∀ name, name ∈ names ↔ ∃ att ∈ (reached AttestationRuns.plainLibs (List.replicate 32 0)
      inferInstance twoAndList .empty (turns 0 5 ++ ys₁)).state.rows, att.circuitType = name) ∧
    ∀ att ∈ (reached AttestationRuns.plainLibs (List.replicate 32 0) inferInstance twoAndList .empty
      (turns 0 5)).state.rows, att.circuitType ∈ names :=
  ⟨_, circuits_snapshot AttestationRuns.plainLibs (List.replicate 32 0) inferInstance twoAndList
    .empty (turns 0 5) (turns 1 5 ++ turns 2 1) 2 rfl (by decide) _ rfl⟩

end SafetyDao.AttestationLifecycle
