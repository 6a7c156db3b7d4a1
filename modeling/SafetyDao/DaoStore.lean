import SafetyDao.Database
import Mathlib.Algebra.Ring.Int.Defs

/-!
# Proposals and votes in the database

The tables `dao_proposals` and `dao_votes` and one request for each SQL statement
of the DAO service. The votes are keyed by the pair their UNIQUE constraint names,
which is also the pair both INSERT statements name in their ON CONFLICT clause.
-/
namespace SafetyDao

inductive ProposalStatus where
  | active | passed | rejected | cancelled
deriving DecidableEq, Repr

def ProposalStatus.text : ProposalStatus → String
  | .active => "active"
  | .passed => "passed"
  | .rejected => "rejected"
  | .cancelled => "cancelled"

structure DAOProposal where
  id : UUID
  proposerID : UUID
  title : String
  description : String
  status : ProposalStatus
  voteQuorum : ℤ
  voteDeadline : Time
  createdAt : Time
  updatedAt : Time
deriving DecidableEq

inductive Choice where
  | yes | no | abstain
deriving DecidableEq, Repr

def Choice.text : Choice → String
  | .yes => "yes"
  | .no => "no"
  | .abstain => "abstain"

/-- The map `validVotes`. -/
def validVotes (vote : String) : Option Choice :=
  [Choice.yes, .no, .abstain].find? (fun c => c.text = vote)

structure DAOVote where
  id : UUID
  proposalID : UUID
  userID : UUID
  vote : Choice
  weight : ℤ
  votedAt : Time
deriving DecidableEq

namespace DAOVote

/-- The columns of `UNIQUE(proposal_id, user_id)`. -/
def key (v : DAOVote) : UUID × UUID := (v.proposalID, v.userID)

/-- `DO UPDATE SET vote = $4, weight = $5, voted_at = $6`. -/
def revote (v row : DAOVote) : DAOVote :=
  { row with vote := v.vote, weight := v.weight, votedAt := v.votedAt }

@[simp] theorem revote_key (v row : DAOVote) : (v.revote row).key = row.key := rfl

end DAOVote

structure DaoStore where
  proposals : Table DAOProposal.id
  votes : Table DAOVote.key

/-- The three sums of the tally. -/
structure Tally where
  yesCount : ℤ
  noCount : ℤ
  abstainCount : ℤ
deriving DecidableEq, Repr

inductive DaoOp where
  | timeNow
  | newUUID
  | insertProposal (proposal : DAOProposal)
  | insertAutomaticVote (id proposalID userID : UUID) (votedAt : Time)
  | selectProposal (proposalID : UUID)
  | selectProposals (status : String)
  | rowsNext
  | rowsScan
  | upsertVote (v : DAOVote)
  | tallyVotes (proposalID : UUID)
deriving DecidableEq

abbrev DaoOp.Res : DaoOp → Type
  | .timeNow => Time
  | .newUUID => UUID
  | .insertProposal _ => Except String Unit
  | .insertAutomaticVote .. => Except String Unit
  | .selectProposal _ => Except String DAOProposal
  | .selectProposals _ => Except String (List DAOProposal)
  | .rowsNext => Except String Unit
  | .rowsScan => Except String Unit
  | .upsertVote _ => Except String Unit
  | .tallyVotes _ => Except String Tally

namespace DaoStore

/-- The quorum has to fit the column type INT. -/
def insertProposal (w : DaoStore) (proposal : DAOProposal) : DaoStore × Except String Unit :=
  if -2 ^ 31 ≤ proposal.voteQuorum ∧ proposal.voteQuorum < 2 ^ 31 then
    match w.proposals.insert proposal with
    | none => (w, .error "duplicate key value violates unique constraint \"dao_proposals_pkey\"")
    | some t => ({ w with proposals := t }, .ok ())
  else (w, .error "value is out of range for int4")

/-- `INSERT INTO dao_votes ... ON CONFLICT (proposal_id, user_id)`, with what the
clause does on a conflict. -/
def insertVote (w : DaoStore) (v : DAOVote) (onConflict : DaoStore) :
    DaoStore × Except String Unit :=
  match w.votes.insert v with
  | none => (onConflict, .ok ())
  | some t =>
    if v.id ∈ w.votes.rows.map DAOVote.id then
      (w, .error "duplicate key value violates unique constraint \"dao_votes_pkey\"")
    else if (w.proposals.find? v.proposalID).isNone then
      (w, .error "insert or update on table \"dao_votes\" violates foreign key constraint")
    else ({ w with votes := t }, .ok ())

/-- The proposer's vote: `ON CONFLICT (proposal_id, user_id) DO NOTHING`. -/
def insertAutomaticVote (w : DaoStore) (id proposalID userID : UUID) (votedAt : Time) :
    DaoStore × Except String Unit :=
  w.insertVote ⟨id, proposalID, userID, .yes, 1, votedAt⟩ w

/-- `ON CONFLICT (proposal_id, user_id) DO UPDATE`. -/
def upsertVote (w : DaoStore) (v : DAOVote) : DaoStore × Except String Unit :=
  w.insertVote v { w with votes := w.votes.update v.key v.revote v.revote_key }

def selectProposals (w : DaoStore) (env : Env) (status : String) : List DAOProposal :=
  (env.arrange DAOProposal.id
    (w.proposals.rows.filter fun p => status = "" ∨ p.status.text = status)).insertionSort
      (fun a b => b.createdAt ≤ a.createdAt)

/-- `COALESCE(SUM(CASE WHEN vote = c THEN weight ELSE 0 END), 0)` over the votes on
a proposal. -/
def sumWeights (w : DaoStore) (proposalID : UUID) (c : Choice) : ℤ :=
  ((w.votes.rows.filter fun v => v.proposalID = proposalID).map
    (fun v => if v.vote = c then v.weight else 0)).sum

def tallyVotes (w : DaoStore) (proposalID : UUID) : Tally :=
  ⟨w.sumWeights proposalID .yes, w.sumWeights proposalID .no, w.sumWeights proposalID .abstain⟩

def exec (w : DaoStore) (op : DaoOp) (env : Env) : DaoStore × op.Res :=
  match op with
  | .timeNow => (w, env.now)
  | .newUUID => (w, env.uuid)
  | .insertProposal proposal => env.attempt w (w.insertProposal proposal)
  | .insertAutomaticVote id proposalID userID votedAt =>
    env.attempt w (w.insertAutomaticVote id proposalID userID votedAt)
  | .selectProposal id => env.attempt w (w, queryRow (w.proposals.find? id))
  | .selectProposals status => env.attempt w (w, .ok (w.selectProposals env status))
  | .rowsNext => env.attempt w (w, .ok ())
  | .rowsScan => env.attempt w (w, .ok ())
  | .upsertVote v => env.attempt w (w.upsertVote v)
  | .tallyVotes id => env.attempt w (w, .ok (w.tallyVotes id))

/-- The requests that leave the tables alone whatever they answer. -/
def readOnly : DaoOp → Bool
  | .timeNow | .newUUID | .rowsNext | .rowsScan => true
  | .selectProposal _ | .selectProposals _ | .tallyVotes _ => true
  | _ => false

theorem exec_readOnly {op : DaoOp} (h : readOnly op = true) (w : DaoStore) (env : Env) :
    (w.exec op env).1 = w := by
  cases op <;> simp only [readOnly, Bool.false_eq_true] at h <;> simp only [exec] <;>
    (unfold Env.attempt; split <;> rfl)

theorem exec_selectProposal {w : DaoStore} {id : UUID} {env : Env} {p : DAOProposal}
    (h : (w.exec (.selectProposal id) env).2 = .ok p) : w.proposals.find? id = some p :=
  queryRow_eq_ok.mp (Env.ok_of_attempt h)

theorem exec_tallyVotes {w : DaoStore} {id : UUID} {env : Env} {tally : Tally}
    (h : (w.exec (.tallyVotes id) env).2 = .ok tally) : tally = w.tallyVotes id :=
  (Except.ok.inj (Env.ok_of_attempt h)).symm

theorem exec_selectProposals {w : DaoStore} {status : String} {env : Env}
    {rows : List DAOProposal} (h : (w.exec (.selectProposals status) env).2 = .ok rows) :
    rows = w.selectProposals env status :=
  (Except.ok.inj (Env.ok_of_attempt h)).symm

theorem mem_selectProposals {w : DaoStore} {env : Env} {status : String} {p : DAOProposal} :
    p ∈ w.selectProposals env status ↔
      p ∈ w.proposals.rows ∧ (status = "" ∨ p.status.text = status) := by
  simp [selectProposals, List.mem_insertionSort]

/-- A proposal either is rejected and nothing changes, or it is the new last row. -/
theorem insertProposal_cases (w : DaoStore) (proposal : DAOProposal) :
    (∃ e, w.insertProposal proposal = (w, .error e)) ∨
      ∃ t, w.proposals.insert proposal = some t ∧
        w.insertProposal proposal = ({ w with proposals := t }, .ok ()) := by
  rw [insertProposal]
  split
  · cases hi : w.proposals.insert proposal with
    | none => exact .inl ⟨_, rfl⟩
    | some t => exact .inr ⟨t, rfl, rfl⟩
  · exact .inl ⟨_, rfl⟩

theorem exec_insertProposal (w : DaoStore) (proposal : DAOProposal) (env : Env) :
    (∃ e, w.exec (.insertProposal proposal) env = (w, .error e)) ∨
      ∃ t, w.proposals.insert proposal = some t ∧
        w.exec (.insertProposal proposal) env = ({ w with proposals := t }, .ok ()) := by
  rcases env.attempt_cases w (w.insertProposal proposal) with ⟨e, he⟩ | hok
  · exact .inl ⟨e, he⟩
  · have hexec : w.exec (.insertProposal proposal) env = w.insertProposal proposal := hok
    rw [hexec]
    exact w.insertProposal_cases proposal

/-- An INSERT of a vote is rejected, adds the row of a new pair, or meets a row of
the same pair and does what its clause says. -/
theorem insertVote_cases (w : DaoStore) (v : DAOVote) (onConflict : DaoStore) :
    (∃ e, w.insertVote v onConflict = (w, .error e)) ∨
      (∃ t, w.votes.insert v = some t ∧
        w.insertVote v onConflict = ({ w with votes := t }, .ok ())) ∨
      ((∃ row, w.votes.find? v.key = some row) ∧
        w.insertVote v onConflict = (onConflict, .ok ())) := by
  unfold insertVote
  cases hi : w.votes.insert v with
  | none => exact .inr (.inr ⟨Table.insert_eq_none.mp hi, rfl⟩)
  | some t =>
    dsimp only
    split_ifs
    · exact .inl ⟨_, rfl⟩
    · exact .inl ⟨_, rfl⟩
    · exact .inr (.inl ⟨t, rfl, rfl⟩)

theorem exec_insertAutomaticVote (w : DaoStore) (id proposalID userID : UUID) (votedAt : Time)
    (env : Env) :
    (∃ e, w.exec (.insertAutomaticVote id proposalID userID votedAt) env = (w, .error e)) ∨
      (∃ t, w.votes.insert ⟨id, proposalID, userID, .yes, 1, votedAt⟩ = some t ∧
        w.exec (.insertAutomaticVote id proposalID userID votedAt) env =
          ({ w with votes := t }, .ok ())) ∨
      ((∃ row, w.votes.find? (proposalID, userID) = some row) ∧
        w.exec (.insertAutomaticVote id proposalID userID votedAt) env = (w, .ok ())) := by
  rcases env.attempt_cases w (w.insertAutomaticVote id proposalID userID votedAt) with ⟨e, he⟩ | hok
  · exact .inl ⟨e, he⟩
  · have hexec : w.exec (.insertAutomaticVote id proposalID userID votedAt) env =
        w.insertVote ⟨id, proposalID, userID, .yes, 1, votedAt⟩ w := hok
    rw [hexec]
    exact w.insertVote_cases _ w

theorem exec_upsertVote (w : DaoStore) (v : DAOVote) (env : Env) :
    (∃ e, w.exec (.upsertVote v) env = (w, .error e)) ∨
      (∃ t, w.votes.insert v = some t ∧
        w.exec (.upsertVote v) env = ({ w with votes := t }, .ok ())) ∨
      ((∃ row, w.votes.find? v.key = some row) ∧ w.exec (.upsertVote v) env =
        ({ w with votes := w.votes.update v.key v.revote v.revote_key }, .ok ())) := by
  rcases env.attempt_cases w (w.upsertVote v) with ⟨e, he⟩ | hok
  · exact .inl ⟨e, he⟩
  · have hexec : w.exec (.upsertVote v) env =
        w.insertVote v { w with votes := w.votes.update v.key v.revote v.revote_key } := hok
    rw [hexec]
    exact w.insertVote_cases _ _

end DaoStore

/-- Programs of the DAO service. -/
abbrev Dao (α : Type) : Type := Program DaoOp.Res α

namespace Dao

open Program

abbrev timeNow : Dao Time := call DaoOp.timeNow
abbrev newUUID : Dao UUID := call DaoOp.newUUID
abbrev insertProposal (proposal : DAOProposal) : Dao (Except String Unit) :=
  call (DaoOp.insertProposal proposal)
abbrev insertAutomaticVote (id proposalID userID : UUID) (votedAt : Time) :
    Dao (Except String Unit) :=
  call (DaoOp.insertAutomaticVote id proposalID userID votedAt)
abbrev selectProposal (proposalID : UUID) : Dao (Except String DAOProposal) :=
  call (DaoOp.selectProposal proposalID)
abbrev selectProposals (status : String) : Dao (Except String (List DAOProposal)) :=
  call (DaoOp.selectProposals status)
abbrev rowsNext : Dao (Except String Unit) := call DaoOp.rowsNext
abbrev rowsScan : Dao (Except String Unit) := call DaoOp.rowsScan
abbrev upsertVote (v : DAOVote) : Dao (Except String Unit) := call (DaoOp.upsertVote v)
abbrev tallyVotes (proposalID : UUID) : Dao (Except String Tally) :=
  call (DaoOp.tallyVotes proposalID)

section Recorded

variable {ι : Type}

/-- The tables with the requests performed on them so far. -/
abbrev Shared (ι : Type) : Type := Recorded DaoOp.Res DaoStore ι

abbrev History (ι : Type) : Type := List (Event DaoOp.Res ι)

def perform : ι → Shared ι → (op : DaoOp) → Env → Shared ι × op.Res :=
  Recorded.perform DaoStore.exec

theorem perform_eq (t : ι) (s : Shared ι) (op : DaoOp) (env : Env) :
    perform t s op env = (⟨(s.world.exec op env).1,
      ⟨t, op, (s.world.exec op env).2⟩ :: s.history⟩, (s.world.exec op env).2) := rfl

theorem perform_readOnly_world (t : ι) (s : Shared ι) (op : DaoOp) (env : Env)
    (h : DaoStore.readOnly op = true) : (perform t s op env).1.world = s.world :=
  DaoStore.exec_readOnly h s.world env

end Recorded

end Dao

end SafetyDao
