import SafetyDao.Ddl
import Mathlib.Data.List.Induction

/-!
# The scripts applied to the database

Three scripts create the tables of the one database: `001_initial_schema.sql`, which the
database container runs, `schemaSQL`, which the check-in service runs at each start, and
the migration of the attestation service, which sqlx records and runs once. Besides the
scripts this module has the columns that the statements of the two services name.
Types, defaults and keys decide neither whether a script runs nor whether a column is there.
-/
namespace SafetyDao

namespace SchemaScripts

def plain (names : List String) : List Column := names.map fun name => ⟨name, none⟩

def oneOf (name : String) (allowed : List String) : List Column := [⟨name, some allowed⟩]

def table (name : String) (columns : List (List Column)) (references : List (String × String)) :
    Ddl :=
  .createTable true ⟨name, columns.flatten⟩ references

/-- `CREATE INDEX name ON table(column)`. -/
def index (name table column : String) : Ddl := .createIndex false name table column

/-- `CREATE INDEX IF NOT EXISTS name ON table(column)`. -/
def indexIfNotExists (name table column : String) : Ddl := .createIndex true name table column

/-- `migrations/001_initial_schema.sql`. -/
def initialSchema : List Ddl := [
  table "users" [plain ["id", "wallet_address"], oneOf "role" ["admin", "moderator", "member"],
    plain ["display_name", "encrypted_contact", "is_active", "created_at", "updated_at"]] [],
  table "attestations" [plain ["id", "user_id_hash", "encrypted_payload"],
    oneOf "proof_type" ["noir", "risc0"],
    plain ["proof_data", "proof_hash", "circuit_type", "metadata_json", "is_verified",
      "created_at"]] [],
  index "idx_attestations_user_hash" "attestations" "user_id_hash",
  table "check_ins" [plain ["id", "user_id", "scheduled_at", "window_minutes"],
    oneOf "status" ["pending", "completed", "missed", "emergency"],
    plain ["completed_at", "notes", "created_at"]] [("users", "id")],
  index "idx_check_ins_user" "check_ins" "user_id",
  index "idx_check_ins_status" "check_ins" "status",
  index "idx_check_ins_scheduled" "check_ins" "scheduled_at",
  table "emergency_alerts" [plain ["id", "user_id"],
    oneOf "trigger_type" ["missed_checkin", "manual", "sos_gesture"],
    plain ["location_data", "contact_method", "resolved_at", "resolution_note", "created_at"]]
    [("users", "id")],
  index "idx_emergency_user" "emergency_alerts" "user_id",
  table "bad_client_reports" [plain ["id", "attestation_id", "encrypted_details",
      "similarity_hash", "location_region"],
    oneOf "report_category" ["unsafe", "theft", "assault", "harassment", "other"],
    plain ["confidence_score"], oneOf "status" ["pending", "verified", "dismissed"],
    plain ["moderator_id", "moderator_notes", "created_at", "updated_at"]]
    [("attestations", "id"), ("users", "id")],
  index "idx_bcr_status" "bad_client_reports" "status",
  index "idx_bcr_category" "bad_client_reports" "report_category",
  index "idx_bcr_similarity" "bad_client_reports" "similarity_hash",
  table "dao_proposals" [plain ["id", "title", "description"],
    oneOf "proposal_type" ["general", "membership", "budget", "parameter"],
    oneOf "status" ["draft", "active", "passed", "rejected", "executed"],
    oneOf "voting_type" ["simple_majority", "super_majority", "quadratic"],
    plain ["starts_at", "ends_at", "created_by", "created_at"]] [("users", "id")],
  index "idx_dao_proposals_status" "dao_proposals" "status",
  table "dao_votes" [plain ["id", "proposal_id", "voter_id"],
    oneOf "vote" ["yes", "no", "abstain"], plain ["voting_weight", "tx_hash", "created_at"]]
    [("dao_proposals", "id"), ("users", "id")],
  index "idx_dao_votes_proposal" "dao_votes" "proposal_id",
  table "audit_log" [plain ["id", "actor_id", "action", "resource_type", "resource_id",
    "details_json", "ip_address", "created_at"]] [("users", "id")],
  index "idx_audit_actor" "audit_log" "actor_id",
  index "idx_audit_action" "audit_log" "action",
  index "idx_audit_created" "audit_log" "created_at"]

def schemaSQL : List Ddl := [
  table "users" [plain ["id", "wallet_address"], oneOf "role" ["user", "moderator", "admin"],
    plain ["display_name", "phone", "created_at", "updated_at"]] [],
  table "check_ins" [plain ["id", "user_id", "scheduled_at", "completed_at"],
    oneOf "status" ["pending", "completed", "missed", "cancelled"],
    plain ["note", "created_at", "updated_at"]] [("users", "id")],
  table "emergency_alerts" [plain ["id", "user_id"],
    oneOf "alert_type" ["general", "safety", "medical", "legal"],
    plain ["location_lat", "location_lng"], oneOf "status" ["active", "resolved", "false_alarm"],
    plain ["resolved_by", "resolved_at", "created_at", "updated_at"]]
    [("users", "id"), ("users", "id")],
  table "bad_client_reports" [plain ["id", "reporter_id", "client_identifier"],
    oneOf "category" ["violent", "harassment", "theft", "stalking", "non_payment", "other"],
    plain ["description"], oneOf "status" ["pending", "verified", "dismissed"],
    plain ["moderator_id", "moderated_at", "created_at", "updated_at"]]
    [("users", "id"), ("users", "id")],
  table "dao_proposals" [plain ["id", "proposer_id", "title", "description"],
    oneOf "status" ["active", "passed", "rejected", "cancelled"],
    plain ["vote_quorum", "vote_deadline", "created_at", "updated_at"]] [("users", "id")],
  table "dao_votes" [plain ["id", "proposal_id", "user_id"],
    oneOf "vote" ["yes", "no", "abstain"], plain ["weight", "voted_at"]]
    [("dao_proposals", "id"), ("users", "id")],
  table "audit_logs" [plain ["id", "user_id", "action", "resource_type", "resource_id",
    "details", "ip_address", "created_at"]] [("users", "id")],
  indexIfNotExists "idx_check_ins_user_id" "check_ins" "user_id",
  indexIfNotExists "idx_check_ins_status" "check_ins" "status",
  indexIfNotExists "idx_check_ins_scheduled_at" "check_ins" "scheduled_at",
  indexIfNotExists "idx_emergency_alerts_user_id" "emergency_alerts" "user_id",
  indexIfNotExists "idx_emergency_alerts_status" "emergency_alerts" "status",
  indexIfNotExists "idx_bad_client_reports_reporter_id" "bad_client_reports" "reporter_id",
  indexIfNotExists "idx_bad_client_reports_category" "bad_client_reports" "category",
  indexIfNotExists "idx_bad_client_reports_status" "bad_client_reports" "status",
  indexIfNotExists "idx_dao_proposals_status" "dao_proposals" "status",
  indexIfNotExists "idx_dao_votes_proposal_id" "dao_votes" "proposal_id",
  indexIfNotExists "idx_audit_logs_user_id" "audit_logs" "user_id",
  indexIfNotExists "idx_audit_logs_action" "audit_logs" "action"]

/-- `services/attestation/migrations/20240101000000_create_attestations.sql`. -/
def createAttestations : List Ddl := [
  .createExtension "pgcrypto",
  table "attestations" [plain ["id", "circuit_type", "proof_data", "proof_hash", "user_id_hash",
    "payload", "is_verified", "created_at", "updated_at"]] [],
  indexIfNotExists "idx_attestations_user_id_hash" "attestations" "user_id_hash",
  indexIfNotExists "idx_attestations_circuit_type" "attestations" "circuit_type"]

inductive Script where
  | initialSchema | schemaSQL | createAttestations
deriving DecidableEq

def Script.statements : Script → List Ddl
  | .initialSchema => SchemaScripts.initialSchema
  | .schemaSQL => SchemaScripts.schemaSQL
  | .createAttestations => SchemaScripts.createAttestations

/-- The schema, and whether sqlx has recorded the migration. -/
structure Database where
  schema : Schema
  migrated : Bool
deriving DecidableEq

namespace Database

def empty : Database := ⟨.empty, false⟩

def run (d : Database) : Script → Except DdlError Database
  | .createAttestations =>
    if d.migrated then .ok d
    else
      match d.schema.runScript Script.createAttestations.statements with
      | .error e => .error e
      | .ok s => .ok ⟨s, true⟩
  | script =>
    match d.schema.runScript script.statements with
    | .error e => .error e
    | .ok s => .ok { d with schema := s }

def runAll (d : Database) : List Script → Except DdlError Database
  | [] => .ok d
  | script :: rest =>
    match d.run script with
    | .error e => .error e
    | .ok d' => d'.runAll rest

end Database

def uses (table : String) (columns : List String) : List ColumnUse :=
  columns.map fun column => ⟨table, column, []⟩

/-- What the statements of the check-in service name, and the values the service itself
puts there. -/
def checkinDaoUses : List ColumnUse :=
  uses "users" ["id", "wallet_address", "display_name", "phone", "created_at", "updated_at"] ++
  uses "check_ins" ["id", "user_id", "scheduled_at", "completed_at", "note", "created_at",
    "updated_at"] ++
  uses "emergency_alerts" ["id", "user_id", "location_lat", "location_lng", "resolved_by",
    "resolved_at", "created_at", "updated_at"] ++
  uses "bad_client_reports" ["id", "reporter_id", "client_identifier", "category", "description",
    "moderator_id", "moderated_at", "created_at", "updated_at"] ++
  uses "dao_proposals" ["id", "proposer_id", "title", "description", "vote_quorum",
    "vote_deadline", "created_at", "updated_at"] ++
  uses "dao_votes" ["id", "proposal_id", "user_id", "weight", "voted_at"] ++
  [⟨"users", "role", ["user"]⟩, ⟨"check_ins", "status", ["pending", "completed", "missed"]⟩,
    ⟨"emergency_alerts", "alert_type", ["general", "safety"]⟩,
    ⟨"emergency_alerts", "status", ["active", "resolved"]⟩,
    ⟨"bad_client_reports", "status", ["pending", "verified", "dismissed"]⟩,
    ⟨"dao_proposals", "status", ["active"]⟩, ⟨"dao_votes", "vote", ["yes", "no", "abstain"]⟩]

/-- What the statements of the attestation service name. -/
def attestationUses : List ColumnUse :=
  uses "attestations" ["id", "circuit_type", "proof_data", "proof_hash", "user_id_hash",
    "payload", "is_verified", "created_at", "updated_at"]

def Database.Supports (d : Database) (needs : List ColumnUse) : Prop :=
  ∀ use ∈ needs, d.schema.Supports use

instance (d : Database) (needs : List ColumnUse) : Decidable (d.Supports needs) := by
  unfold Database.Supports
  infer_instance

/-- No script fails, and each service whose script has run finds its columns. -/
def Served (scripts : List Script) : Prop :=
  ∃ d, Database.empty.runAll scripts = .ok d ∧
    (.schemaSQL ∈ scripts → d.Supports checkinDaoUses) ∧
    (.createAttestations ∈ scripts → d.Supports attestationUses)

theorem served_iff_match (scripts : List Script) : Served scripts ↔
    match Database.empty.runAll scripts with
    | .error _ => False
    | .ok d => (.schemaSQL ∈ scripts → d.Supports checkinDaoUses) ∧
        (.createAttestations ∈ scripts → d.Supports attestationUses) := by
  unfold Served
  cases Database.empty.runAll scripts <;> simp

instance (scripts : List Script) : Decidable (Served scripts) := by
  refine @decidable_of_iff' _ _ (served_iff_match scripts) ?_
  split <;> infer_instance

namespace Database

variable {d d' d'' : Database} {script : Script}

theorem runAll_append (d : Database) (xs ys : List Script) :
    d.runAll (xs ++ ys) = match d.runAll xs with
      | .error e => .error e
      | .ok d' => d'.runAll ys := by
  induction xs generalizing d with
  | nil => rfl
  | cons x xs ih =>
    simp only [List.cons_append, runAll]
    cases d.run x with
    | error e => rfl
    | ok d' => exact ih d'

theorem runAll_append_eq_ok {xs ys : List Script} (h : d.runAll (xs ++ ys) = .ok d'') :
    ∃ d', d.runAll xs = .ok d' ∧ d'.runAll ys = .ok d'' := by
  rw [runAll_append] at h
  cases hx : d.runAll xs with
  | error e =>
    rw [hx] at h
    cases h
  | ok d' =>
    rw [hx] at h
    exact ⟨d', rfl, h⟩

theorem runAll_cons_eq_ok {rest : List Script} (h : d.runAll (script :: rest) = .ok d'') :
    ∃ d', d.run script = .ok d' ∧ d'.runAll rest = .ok d'' := by
  cases hx : d.run script with
  | error e =>
    simp only [runAll, hx] at h
    cases h
  | ok d' =>
    simp only [runAll, hx] at h
    exact ⟨d', rfl, h⟩

theorem runScript_of_run (h : d.run script = .ok d') (hm : script ≠ .createAttestations) :
    d.schema.runScript script.statements = .ok d'.schema ∧ d'.migrated = d.migrated := by
  cases script with
  | createAttestations => exact absurd rfl hm
  | initialSchema | schemaSQL =>
    simp only [run] at h
    split at h
    · cases h
    · obtain rfl := Except.ok.inj h
      exact ⟨by assumption, rfl⟩

theorem extends_run (h : d.run script = .ok d') :
    d.schema.Extends d'.schema ∧ (d.migrated = true → d'.migrated = true) := by
  by_cases hm : script = .createAttestations
  · subst hm
    simp only [run] at h
    split at h
    · exact Except.ok.inj h ▸ ⟨.refl _, id⟩
    · split at h
      · cases h
      · obtain rfl := Except.ok.inj h
        exact ⟨Schema.extends_runScript (by assumption), fun _ => rfl⟩
  · obtain ⟨hs, hmig⟩ := runScript_of_run h hm
    exact ⟨Schema.extends_runScript hs, fun hd => hmig.trans hd⟩

theorem extends_runAll {scripts : List Script} (h : d.runAll scripts = .ok d') :
    d.schema.Extends d'.schema := by
  induction scripts generalizing d with
  | nil => exact Except.ok.inj h ▸ .refl _
  | cons script rest ih =>
    obtain ⟨d₁, h₁, hrest⟩ := runAll_cons_eq_ok h
    exact (extends_run h₁).1.trans (ih hrest)

theorem run_fails_of_blocked {ddl : Ddl} (hm : script ≠ .createAttestations)
    (hmem : ddl ∈ script.statements) (h : ddl.Blocked d.schema) : d.run script ≠ .ok d' := by
  intro hrun
  obtain ⟨e, he⟩ := Schema.runScript_of_blocked hmem h
  rw [(runScript_of_run hrun hm).1] at he
  cases he

/-- A script that will change nothing any more. -/
def Done (d : Database) (script : Script) : Prop := d.run script = .ok d

theorem done_createAttestations (h : d.migrated = true) : d.Done .createAttestations := by
  simp [Done, run, h]

theorem guarded_schemaSQL : ∀ ddl ∈ Script.schemaSQL.statements, ddl.Guarded := by decide +kernel

/-- The scripts of the two services, once they have run, stay done. -/
theorem done_of_run (h : d.run script = .ok d') (hs : script ≠ .initialSchema)
    (hext : d'.schema.Extends d''.schema) (hm : d'.migrated = true → d''.migrated = true) :
    d''.Done script := by
  cases script with
  | initialSchema => exact absurd rfl hs
  | schemaSQL =>
    have hagain := Schema.runScript_again guarded_schemaSQL
      (runScript_of_run h (by decide)).1 hext
    simp [Done, run, hagain]
  | createAttestations =>
    refine done_createAttestations (hm ?_)
    simp only [run] at h
    split at h
    · exact Except.ok.inj h ▸ ‹_›
    · split at h
      · cases h
      · exact Except.ok.inj h ▸ rfl

theorem Done.run {other : Script} (h : d.Done script) (hs : script ≠ .initialSchema)
    (hrun : d.run other = .ok d') : d'.Done script :=
  done_of_run h hs (extends_run hrun).1 (extends_run hrun).2

theorem Done.runAll {scripts : List Script} (h : d.Done script) (hs : script ≠ .initialSchema)
    (hrun : d.runAll scripts = .ok d') : d'.Done script := by
  induction scripts generalizing d with
  | nil => exact Except.ok.inj hrun ▸ h
  | cons other rest ih =>
    obtain ⟨d₁, h₁, hrest⟩ := runAll_cons_eq_ok hrun
    exact ih (h.run hs h₁) hrest

theorem done_of_mem {scripts : List Script} (hmem : script ∈ scripts) (hs : script ≠ .initialSchema)
    (hrun : d.runAll scripts = .ok d') : d'.Done script := by
  obtain ⟨xs, ys, rfl⟩ := List.append_of_mem hmem
  obtain ⟨d₁, -, h₁⟩ := runAll_append_eq_ok hrun
  obtain ⟨d₂, h₂, hrest⟩ := runAll_cons_eq_ok h₁
  exact (done_of_run h₂ hs (.refl _) id).runAll hs hrest

theorem runAll_of_done {scripts : List Script} (h : ∀ script ∈ scripts, d.Done script) :
    d.runAll scripts = .ok d := by
  induction scripts with
  | nil => rfl
  | cons script rest ih =>
    have hdone : d.run script = .ok d := h script List.mem_cons_self
    simp only [runAll, hdone]
    exact ih fun s hs => h s (List.mem_cons_of_mem script hs)

end Database

section Orders

open Database

/-- The orders in which the scripts of the two services can first run. -/
def orders : List (List Script) :=
  [[], [.schemaSQL], [.createAttestations], [.schemaSQL, .createAttestations],
    [.createAttestations, .schemaSQL]]

theorem served_orders : ∀ l ∈ orders, Served l := by decide +kernel

theorem append_mem_orders {l : List Script} {script : Script} (hl : l ∈ orders)
    (hs : script ≠ .initialSchema) (hmem : script ∉ l) : l ++ [script] ∈ orders := by
  revert l
  cases script with
  | initialSchema => exact absurd rfl hs
  | schemaSQL => decide
  | createAttestations => decide

/-- Without the initial schema, only the order of the first runs counts. -/
theorem runAll_eq_order {scripts : List Script} (h : .initialSchema ∉ scripts) :
    ∃ l ∈ orders, empty.runAll scripts = empty.runAll l ∧
      ∀ script, script ∈ scripts ↔ script ∈ l := by
  induction scripts using List.reverseRecOn with
  | nil => exact ⟨[], by decide, rfl, fun _ => Iff.rfl⟩
  | append_singleton scripts script ih =>
    rw [List.mem_append, not_or, List.mem_singleton] at h
    obtain ⟨l, hl, hrun, hmem⟩ := ih h.1
    obtain ⟨d, hd, -⟩ := served_orders l hl
    by_cases hs : script ∈ l
    · have hdone : d.run script = .ok d := done_of_mem hs (Ne.symm h.2) hd
      refine ⟨l, hl, ?_, fun other => ?_⟩
      · simp only [runAll_append, hrun, hd, runAll, hdone]
      · rw [List.mem_append, hmem, List.mem_singleton]
        exact ⟨fun ho => ho.elim id fun he => he ▸ hs, .inl⟩
    · refine ⟨l ++ [script], append_mem_orders hl (Ne.symm h.2) hs, ?_, fun other => ?_⟩
      · rw [runAll_append, runAll_append, hrun]
      · rw [List.mem_append, List.mem_append, hmem]

theorem served_of_not_mem {scripts : List Script} (h : .initialSchema ∉ scripts) :
    Served scripts := by
  obtain ⟨l, hl, hrun, hmem⟩ := runAll_eq_order h
  obtain ⟨d, hd, hcheckin, hattestation⟩ := served_orders l hl
  exact ⟨d, hrun.trans hd, fun hs => hcheckin ((hmem _).mp hs),
    fun hs => hattestation ((hmem _).mp hs)⟩

/-- The initial schema has an index that `schemaSQL` has created under the same name. -/
theorem initialSchema_after_schemaSQL {d d' : Database} (h : d.Done .schemaSQL) :
    d.run .initialSchema ≠ .ok d' := by
  have hsat : (indexIfNotExists "idx_check_ins_status" "check_ins" "status").Satisfied d.schema :=
    Schema.satisfied_of_runScript (runScript_of_run h (by decide)).1 _
      (by simp [Script.statements, schemaSQL])
  have hmem : index "idx_check_ins_status" "check_ins" "status" ∈
      Script.initialSchema.statements := by
    simp [Script.statements, initialSchema]
  exact run_fails_of_blocked (by decide) hmem (.inl ⟨rfl, hsat.2⟩)

/-- The initial schema cannot run twice. -/
theorem initialSchema_after_initialSchema {d d₁ d₂ d' : Database}
    (h : d.run .initialSchema = .ok d₁) (hext : d₁.schema.Extends d₂.schema) :
    d₂.run .initialSchema ≠ .ok d' := by
  have hmem : index "idx_check_ins_user" "check_ins" "user_id" ∈
      Script.initialSchema.statements := by
    simp [Script.statements, initialSchema]
  have hsat : (index "idx_check_ins_user" "check_ins" "user_id").Satisfied d₂.schema :=
    (Schema.satisfied_of_runScript (runScript_of_run h (by decide)).1 _ hmem).extends hext
  exact run_fails_of_blocked (by decide) hmem (.inl ⟨rfl, hsat.2⟩)

/-- Where the initial schema has created a table first, the column is missing. -/
def Lacks (d : Database) (table column : String) : Prop :=
  ∃ t, d.schema.table? table = some t ∧ ¬ t.HasColumn column

instance (d : Database) (table column : String) : Decidable (Lacks d table column) :=
  decidable_of_iff (∃ t ∈ d.schema.table? table, ¬ t.HasColumn column) Iff.rfl

theorem schemaSQL_of_lacks {d d₁ d' : Database} (h : Lacks d "emergency_alerts" "status")
    (hext : d.schema.Extends d₁.schema) : d₁.run .schemaSQL ≠ .ok d' := by
  obtain ⟨t, ht, hc⟩ := h
  have hmem : indexIfNotExists "idx_emergency_alerts_status" "emergency_alerts" "status" ∈
      Script.schemaSQL.statements := by
    simp [Script.statements, schemaSQL]
  exact run_fails_of_blocked (by decide) hmem (.inr ⟨t, hext.tables _ t ht, hc⟩)

theorem not_supports_of_lacks {d d' : Database} (h : Lacks d "attestations" "payload")
    (hext : d.schema.Extends d'.schema) : ¬ d'.Supports attestationUses := by
  obtain ⟨t, ht, hc⟩ := h
  have hmem : (⟨"attestations", "payload", []⟩ : ColumnUse) ∈ attestationUses := by
    simp [attestationUses, uses]
  exact fun hsup => Schema.not_supports_of_extends ht hc hext (hsup _ hmem)

/-- What the initial schema leaves in a fresh database, and in one of the attestation
service. -/
theorem initialSchema_first : ∃ d, empty.runAll [.initialSchema] = .ok d ∧
    Lacks d "emergency_alerts" "status" ∧ Lacks d "attestations" "payload" := by
  refine ⟨_, rfl, ?_⟩
  decide +kernel

theorem initialSchema_second : ∃ d,
    empty.runAll [.createAttestations, .initialSchema] = .ok d ∧ d.migrated = true ∧
      Lacks d "emergency_alerts" "status" ∧ d.Supports attestationUses := by
  refine ⟨_, rfl, ?_⟩
  decide +kernel

/-- Before the initial schema only the attestation service can have run. -/
theorem runAll_before {xs : List Script} (hinit : .initialSchema ∉ xs) (hsql : .schemaSQL ∉ xs)
    (hne : xs ≠ []) : empty.runAll xs = empty.runAll [.createAttestations] := by
  obtain ⟨l, hl, hrun, hmem⟩ := runAll_eq_order hinit
  have honly : ∀ l ∈ orders, .schemaSQL ∉ l → .createAttestations ∈ l →
      l = [.createAttestations] := by decide
  obtain ⟨script, hscript⟩ := List.exists_mem_of_ne_nil xs hne
  have hatt : .createAttestations ∈ xs := by
    cases script with
    | initialSchema => exact absurd hscript hinit
    | schemaSQL => exact absurd hscript hsql
    | createAttestations => exact hscript
  rw [hrun, honly l hl (fun h => hsql ((hmem _).mpr h)) ((hmem _).mp hatt)]

/-- The initial schema has run once, without the check-in service, and the attestation
service, if it ran at all, was there before. -/
def InTurn (scripts : List Script) : Prop :=
  .schemaSQL ∉ scripts ∧ scripts.count .initialSchema = 1 ∧
    (.createAttestations ∈ scripts → scripts.head? = some .createAttestations)

theorem inTurn_of_served {xs ys : List Script} (hxs : .initialSchema ∉ xs)
    (h : Served (xs ++ .initialSchema :: ys)) : InTurn (xs ++ .initialSchema :: ys) := by
  obtain ⟨d, hd, -, hattestation⟩ := h
  obtain ⟨d₁, h₁, hrest⟩ := runAll_append_eq_ok hd
  obtain ⟨d₂, h₂, hys⟩ := runAll_cons_eq_ok hrest
  have hsql : .schemaSQL ∉ xs := fun hmem =>
    initialSchema_after_schemaSQL (done_of_mem hmem (by decide) h₁) h₂
  have hlater : ∀ script ∈ ys, ∃ d₃ d₄ : Database,
      d₂.schema.Extends d₃.schema ∧ d₃.run script = .ok d₄ := by
    intro script hmem
    obtain ⟨us, vs, rfl⟩ := List.append_of_mem hmem
    obtain ⟨d₃, h₃, htail⟩ := runAll_append_eq_ok hys
    obtain ⟨d₄, h₄, -⟩ := runAll_cons_eq_ok htail
    exact ⟨d₃, d₄, extends_runAll h₃, h₄⟩
  have honce : .initialSchema ∉ ys := fun hmem => by
    obtain ⟨d₃, d₄, hext, h₄⟩ := hlater _ hmem
    exact initialSchema_after_initialSchema h₂ hext h₄
  have hstart : empty.runAll (xs ++ [.initialSchema]) = .ok d₂ := by
    simp only [runAll_append, h₁, runAll, h₂]
  have hlacks : Lacks d₂ "emergency_alerts" "status" ∧
      (xs = [] → Lacks d₂ "attestations" "payload") := by
    by_cases hne : xs = []
    · obtain ⟨d₀, h₀, hstatus, hpayload⟩ := initialSchema_first
      subst hne
      obtain rfl := Except.ok.inj (h₀.symm.trans hstart)
      exact ⟨hstatus, fun _ => hpayload⟩
    · obtain ⟨d₀, h₀, -, hstatus, -⟩ := initialSchema_second
      rw [runAll_append, runAll_before hxs hsql hne, ← runAll_append] at hstart
      obtain rfl := Except.ok.inj (h₀.symm.trans hstart)
      exact ⟨hstatus, fun h => absurd h hne⟩
  have hsql' : .schemaSQL ∉ ys := fun hmem => by
    obtain ⟨d₃, d₄, hext, h₄⟩ := hlater _ hmem
    exact schemaSQL_of_lacks hlacks.1 hext h₄
  refine ⟨by simp [hsql, hsql'], ?_, fun hatt => ?_⟩
  · rw [List.count_append, List.count_cons_self, List.count_eq_zero_of_not_mem hxs,
      List.count_eq_zero_of_not_mem honce]
  · cases xs with
    | nil =>
      exact absurd (hattestation hatt)
        (not_supports_of_lacks (hlacks.2 rfl) (extends_runAll hys))
    | cons script rest =>
      cases script with
      | initialSchema => exact absurd List.mem_cons_self hxs
      | schemaSQL => exact absurd List.mem_cons_self hsql
      | createAttestations => rfl

theorem served_of_inTurn {xs ys : List Script} (hxs : .initialSchema ∉ xs)
    (h : InTurn (xs ++ .initialSchema :: ys)) : Served (xs ++ .initialSchema :: ys) := by
  obtain ⟨hsql, hcount, hhead⟩ := h
  have hsqlx : .schemaSQL ∉ xs := fun hmem => hsql (List.mem_append_left _ hmem)
  have hys : ∀ script ∈ ys, script = .createAttestations := by
    intro script hmem
    rw [List.count_append, List.count_cons_self, List.count_eq_zero_of_not_mem hxs] at hcount
    cases script with
    | initialSchema => exact absurd hmem (List.count_eq_zero.mp (by omega))
    | schemaSQL => exact absurd (List.mem_append_right _ (List.mem_cons_of_mem _ hmem)) hsql
    | createAttestations => rfl
  by_cases hne : xs = []
  · subst hne
    have hnil : ys = [] := by
      refine List.eq_nil_iff_forall_not_mem.mpr fun script hmem => ?_
      have hatt := hys script hmem ▸ List.mem_cons_of_mem Script.initialSchema hmem
      cases hhead hatt
    obtain ⟨d, hd, -⟩ := initialSchema_first
    subst hnil
    exact ⟨d, hd, fun hmem => absurd hmem hsql, fun hmem => by cases hhead hmem⟩
  · obtain ⟨d, hd, hmigrated, -, hsupports⟩ := initialSchema_second
    have hrun : empty.runAll (xs ++ .initialSchema :: ys) = .ok d := by
      have hdone : d.runAll ys = .ok d :=
        runAll_of_done fun script hmem => hys script hmem ▸ done_createAttestations hmigrated
      rw [show xs ++ .initialSchema :: ys = (xs ++ [.initialSchema]) ++ ys by simp,
        runAll_append, runAll_append, runAll_before hxs hsqlx hne, ← runAll_append,
        List.singleton_append, hd]
      exact hdone
    exact ⟨d, hrun, fun hmem => absurd hmem hsql, fun _ => hsupports⟩

/-- The scripts get along exactly when the initial schema is not among them, or the
check-in service is not and the initial schema comes once and after the attestation
service. -/
theorem served_iff_inTurn (scripts : List Script) :
    Served scripts ↔ .initialSchema ∉ scripts ∨ InTurn scripts := by
  by_cases hmem : .initialSchema ∈ scripts
  · obtain ⟨xs, ys, rfl, hxs⟩ := List.eq_append_cons_of_mem hmem
    exact ⟨fun h => .inr (inTurn_of_served hxs h),
      fun h => h.elim (fun hno => absurd hmem hno) (served_of_inTurn hxs)⟩
  · exact iff_of_true (served_of_not_mem hmem) (.inl hmem)

/-- The database container runs the initial schema, and the check-in service cannot start. -/
theorem schemaSQL_fails_on_initialSchema : ¬ ∀ scripts : List Script, Served scripts :=
  fun h => absurd (h [.initialSchema, .schemaSQL]) (by decide +kernel)

end Orders

end SchemaScripts

end SafetyDao
