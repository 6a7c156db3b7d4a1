import SafetyDao.AttestationLifecycle

/-!
# The error replies of the attestation service

An error becomes a response with a status and its text. The service answers 404 to no one who
asks for an attestation that was there when the call began: rows stay, so the one it looks up is
found, and the one it marks is marked.
-/
namespace SafetyDao

/-- The response of an error: the status, and the member `error` of the body. -/
structure ErrorResponse where
  status : ℕ
  error : Text
deriving DecidableEq

def HandlerError.intoResponse (e : HandlerError) : ErrorResponse := ⟨e.status, e.text⟩

theorem HandlerError.intoResponse_of_status {e : HandlerError} (h : e.intoResponse.status = 404) :
    e = .db .notFound ∧ e.intoResponse = ⟨404, "not found".toList⟩ := by
  cases e with
  | db e =>
    cases e with
    | notFound => exact ⟨rfl, rfl⟩
    | sqlx e => cases h
  | crypto e => cases h
  | proof e => cases h
  | internal e => cases h

namespace AttestationReplies
open AttestationListing
open AttestationLifecycle (Moves anyRequest performTable holds_readOnly run_sound)
open AttestationService

def errorOf {α : Type} : Except HandlerError α → Option HandlerError
  | .error e => some e
  | .ok _ => none

/-- The error that a reply is. -/
def replyError : Reply → Option HandlerError
  | .attestation (.create r) => errorOf r
  | .attestation (.get r) => errorOf r
  | .attestation (.verify r) => errorOf r
  | .circuits r => errorOf r

/-- The attestation that a call asks for. -/
def asksFor {Json : Type} : Call Json → Option UUID
  | .attestation (.get id) | .attestation (.verify id) => some id
  | _ => none

/-- The call did not miss a row. -/
def Found {α : Type} (r : Except HandlerError α) : Prop := errorOf r ≠ some (.db .notFound)

variable {Json ι : Type} {libs : AttestationLibs Json} {calls : ι → Call Json}
  {w₀ w w' : AttestationTable} {t : ι}

def Present (id : UUID) (w : AttestationTable) : Prop := (w.find? id).isSome

theorem Present.moves {id : UUID} (hm : Moves libs calls w₀ w w') (h : Present id w) :
    Present id w' := by
  obtain ⟨att, hatt⟩ := Option.isSome_iff_exists.mp h
  obtain ⟨att', hatt', -⟩ := hm.rows id att hatt
  exact Option.isSome_iff_exists.mpr ⟨att', hatt'⟩

theorem Present.ne_zero {id : UUID} (h : Present id w) :
    w.rows.countP (fun att => att.id = id) ≠ 0 := by
  obtain ⟨att, hatt⟩ := Option.isSome_iff_exists.mp h
  have hcount : 0 < w.rows.countP fun att => att.id = id :=
    List.countP_pos_iff.mpr ⟨att, Table.mem_of_find? hatt, by simpa using Table.key_of_find? hatt⟩
  exact hcount.ne'

section Contracts

variable {α : Type} {post : α → AttestationTable → Prop}

/-- The contract of a thread that makes no promise about its own moves. -/
abbrev Watched (libs : AttestationLibs Json) (calls : ι → Call Json) (w₀ : AttestationTable)
    (t : ι) (post : α → AttestationTable → Prop) (p : Attesting α) (w : AttestationTable) : Prop :=
  Contract.Holds performTable anyRequest t ⟨Moves libs calls w₀, fun _ _ => True, post⟩ p w

/-- A request that changes nothing, of a row that is there. -/
theorem watched_readOnly {op : AttestationOp} (hop : AttestationTable.readOnly op = true)
    {id : UUID} {next : op.Res → Attesting α} (h : Present id w)
    (hnext : ∀ w env, Present id w →
      Watched libs calls w₀ t post (next (w.exec op env).2) w) :
    Watched libs calls w₀ t post (.request op next) w := by
  refine Contract.Holds.of_stable (fun _ _ => Present.moves) h fun w₁ h₁ env _ => ⟨trivial, ?_⟩
  have hsame : (performTable t w₁ op env).1 = w₁ := AttestationTable.exec_readOnly hop w₁ env
  rw [hsame]
  exact hnext w₁ env h₁

theorem watched_selectAttestation {id : UUID}
    {next : Except String (Option Attestation) → Attesting α} (h : Present id w)
    (hfailed : ∀ e w, Present id w → Watched libs calls w₀ t post (next (.error e)) w)
    (hrow : ∀ att w, Present id w → Watched libs calls w₀ t post (next (.ok (some att))) w) :
    Watched libs calls w₀ t post (.request (.selectAttestation id) next) w := by
  refine watched_readOnly rfl h fun w₁ env h₁ => ?_
  cases hr : (w₁.exec (.selectAttestation id) env).2 with
  | error e => exact hfailed e w₁ h₁
  | ok found =>
    cases found with
    | none =>
      rw [Present, ← AttestationTable.exec_selectAttestation hr] at h₁
      cases h₁
    | some att => exact hrow att w₁ h₁

theorem watched_getAttestation {id : UUID} (h : Present id w) :
    Watched libs calls w₀ t (fun r _ => Found r) (getAttestation id) w := by
  unfold getAttestation dbGetAttestation
  simp only [Program.call_bind, Program.request_bind, Program.pure_eq]
  exact watched_selectAttestation h (fun e w₁ _ _ _ hmissed => by cases hmissed)
    fun att w₁ _ _ _ hmissed => by cases hmissed

theorem watched_verifyAttestation {id : UUID} (h : Present id w) :
    Watched libs calls w₀ t (fun r _ => Found r) (verifyAttestation libs id) w := by
  unfold verifyAttestation dbGetAttestation
  simp only [Program.call_bind, Program.request_bind, Program.pure_eq]
  refine watched_selectAttestation h (fun e w₁ _ _ _ hmissed => by cases hmissed)
    fun att w₁ h₁ => ?_
  simp only [Program.done_bind]
  cases (NoirProver libs.sha256).verifyProof att.proofData [] with
  | error e => exact fun _ _ hmissed => by cases hmissed
  | ok isValid =>
  simp only [updateVerificationStatus, Program.call_bind, Program.request_bind, Program.pure_eq]
  refine watched_readOnly rfl h₁ fun w₂ env₂ h₂ => ?_
  refine Contract.Holds.of_stable (fun _ _ => Present.moves) h₂ fun w₃ h₃ env₃ _ => ⟨trivial, ?_⟩
  rcases AttestationTable.exec_updateVerified w₃ id isValid (w₂.exec .utcNow env₂).2 env₃ with
    ⟨e, he⟩ | hok
  · simp only [performTable, he]
    exact fun _ _ hmissed => by cases hmissed
  · simp only [performTable, hok, if_neg h₃.ne_zero]
    exact fun _ _ hmissed => by cases hmissed

theorem watched_createAttestation (encryptionKey : List UInt8) (body : ProofRequest Json)
    (w : AttestationTable) :
    Watched libs calls w₀ t (fun r _ => Found r) (createAttestation libs encryptionKey body) w := by
  unfold createAttestation
  cases libs.toVec body.payload with
  | error e => exact fun _ _ hmissed => by cases hmissed
  | ok payloadBytes =>
  have hencrypt : Watched libs calls w₀ t (fun _ _ => True)
      (encrypt libs payloadBytes encryptionKey) w :=
    Contract.Holds.of_issues (fun _ _ _ _ _ => trivial) (fun _ _ => trivial)
      (Program.issues_any _) w
  refine hencrypt.bind Moves.refl fun r w₁ _ => ?_
  cases r with
  | error e => exact fun _ _ hmissed => by cases hmissed
  | ok encryptedPayload =>
  simp only [Program.call_bind, Program.pure_eq]
  intro w₂ _ env _
  refine ⟨trivial, ?_⟩
  cases (NoirProver libs.sha256).generateProof body.circuitType payloadBytes [] with
  | error e => exact fun _ _ hmissed => by cases hmissed
  | ok out =>
  simp only [dbCreateAttestation, Program.call_bind, Program.request_bind, Program.pure_eq]
  refine fun w₃ _ env₃ _ => ⟨trivial, fun w₄ _ env₄ _ => ⟨trivial, fun w₅ _ env₅ _ =>
    ⟨trivial, ?_⟩⟩⟩
  generalize (performTable t w₅ (.insertAttestation _) env₅).2 = r
  cases r with
  | error e => exact fun _ _ hmissed => by cases hmissed
  | ok row => exact fun _ _ hmissed => by cases hmissed

variable (libs calls w₀ t) in
/-- A call that misses no row that it looks up, beside the others. -/
abbrev Finds (collation : LinearOrder Text) (p : Serving Reply) (w : AttestationTable) : Prop :=
  Contract.Holds (perform collation) anyRequest t ⟨Moves libs calls w₀, fun _ _ => True,
    fun reply _ => replyError reply ≠ some (.db .notFound)⟩ p w

theorem finds_attestation {collation : LinearOrder Text}
    {reply : Except HandlerError α → AttestationRuns.Reply} {p : Attesting (Except HandlerError α)}
    (hp : Watched libs calls w₀ t (fun r _ => Found r) p w)
    (hreply : ∀ r, replyError (.attestation (reply r)) = errorOf r) :
    Finds libs calls w₀ t collation (.attestation <$> ofTable (reply <$> p)) w := by
  have hmap : Watched libs calls w₀ t
      (fun r _ => replyError (.attestation r) ≠ some (.db .notFound)) (reply <$> p) w :=
    hp.bind Moves.refl fun r w₁ hr w₂ _ heq => hr ((hreply r).symm.trans heq)
  have hofTable : Contract.Holds (perform collation) anyRequest t ⟨Moves libs calls w₀,
      fun _ _ => True, fun r _ => replyError (.attestation r) ≠ some (.db .notFound)⟩
      (ofTable (reply <$> p)) w :=
    hmap.embed (f := Op.table) (fun _ _ _ => rfl) fun _ _ _ hany => hany
  exact hofTable.bind Moves.refl fun r w₁ hr w₂ _ => hr

theorem finds_program (encryptionKey : List UInt8) (collation : LinearOrder Text)
    {call : Call Json} (h : ∀ id, asksFor call = some id → Present id w) :
    Finds libs calls w₀ t collation (call.program libs encryptionKey) w := by
  cases call with
  | attestation call =>
    cases call with
    | create body =>
      exact finds_attestation (watched_createAttestation encryptionKey body w) fun _ => rfl
    | get id => exact finds_attestation (watched_getAttestation (h id rfl)) fun _ => rfl
    | verify id => exact finds_attestation (watched_verifyAttestation (h id rfl)) fun _ => rfl
  | listCircuits =>
    refine fun w₁ _ env _ => ⟨trivial, ?_⟩
    generalize (perform collation t w₁ .selectCircuits env).2 = r
    cases r with
    | error e => exact fun _ _ hmissed => by cases hmissed
    | ok names => exact fun _ _ hmissed => by cases hmissed

end Contracts

/-- Who is answered 404 reads `not found`, and has asked for an attestation that was not there
when the call began. -/
theorem run_notFound [DecidableEq ι] (libs : AttestationLibs Json) (encryptionKey : List UInt8)
    (collation : LinearOrder Text) (calls : ι → Call Json) (w : AttestationTable)
    (xs ys : List (ι × AttestationEnv)) (t : ι) (hnew : ∀ slot ∈ xs, slot.1 ≠ t) (reply : Reply)
    (hdone : (reached libs encryptionKey collation calls w (xs ++ ys)).threads t = .done reply)
    (e : HandlerError) (he : replyError reply = some e) (hstatus : e.intoResponse.status = 404) :
    e.intoResponse.error = "not found".toList ∧ ∃ id, asksFor (calls t) = some id ∧
      (reached libs encryptionKey collation calls w xs).state.find? id = none := by
  obtain ⟨rfl, htext⟩ := HandlerError.intoResponse_of_status hstatus
  refine ⟨congrArg ErrorResponse.error htext, ?_⟩
  by_contra hmissing
  push Not at hmissing
  have hthread : (reached libs encryptionKey collation calls w xs).threads t =
      (calls t).program libs encryptionKey := by
    rw [reached, Pool.threads_run_of_forall_ne _ hnew]
    rfl
  have hpresent : ∀ id, asksFor (calls t) = some id →
      Present id (reached libs encryptionKey collation calls w xs).state :=
    fun id hid => Option.isSome_iff_ne_none.mpr (hmissing id hid)
  have hboth : ∀ u, Contract.Holds (perform collation) anyRequest u
      ⟨Moves libs calls w, Moves libs calls w,
        fun reply _ => u = t → replyError reply ≠ some (.db .notFound)⟩
      ((reached libs encryptionKey collation calls w xs).threads u)
      (reached libs encryptionKey collation calls w xs).state := by
    intro u
    have hholds := (@run_sound _ _ libs _ encryptionKey collation calls w xs).1 u
    by_cases hu : u = t
    · subst hu
      have hfinds : Finds libs calls w u collation ((calls u).program libs encryptionKey)
          (reached libs encryptionKey collation calls w xs).state :=
        finds_program encryptionKey collation hpresent
      rw [← hthread] at hfinds
      exact (hholds.and hfinds).imp fun _ _ h _ => h.2
    · exact hholds.imp fun _ _ _ h => absurd h hu
  have hrun := (Contract.run_shared Moves.refl (fun _ _ _ => Moves.trans)
    (Pool.guarded_of_forall (fun _ _ _ _ => trivial) _ ys) hboth).1 t
  rw [reached, Pool.run_append, ← reached] at hdone
  exact hrun.done hdone Moves.refl rfl he

/-- An attestation is asked for while it is created. -/
def getAndCreate : Bool → Call (List UInt8)
  | false => .attestation (.get 1)
  | true => .attestation (.create ⟨"age".toList, "u".toList, [104, 105]⟩)

/-- A thread performs `n` requests. -/
def turns (t : Bool) (n : ℕ) : List (Bool × AttestationEnv) :=
  List.replicate n (t, ⟨.good 0 1, fun n => Vector.replicate n 0⟩)

/-- It is looked up just before it is inserted. -/
theorem getAndCreate_notFound :
    HandlerError.intoResponse (.db .notFound) = ⟨404, "not found".toList⟩ ∧
    ∃ id, asksFor (getAndCreate false) = some id ∧
      (reached AttestationRuns.plainLibs (List.replicate 32 0) inferInstance getAndCreate .empty
        (turns true 4)).state.find? id = none :=
  ⟨rfl, (run_notFound AttestationRuns.plainLibs (List.replicate 32 0) inferInstance getAndCreate
    .empty (turns true 4) (turns false 1 ++ turns true 1) false (by decide) _ rfl _ rfl rfl).2⟩

end AttestationReplies

end SafetyDao
