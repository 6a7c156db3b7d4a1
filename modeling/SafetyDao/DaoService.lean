import SafetyDao.DaoStore

/-!
# The DAO service

`createProposal`, `getProposal`, `listProposals`, `castVote` and `getResults` as
request programs, branch by branch.
-/
namespace SafetyDao

structure NewProposal where
  title : String
  description : String
  voteQuorum : ℤ
  voteDeadline : Time
deriving DecidableEq

structure VoteResults where
  proposal : DAOProposal
  yesVotes : ℤ
  noVotes : ℤ
  abstentions : ℤ
  totalVotes : ℤ
  quorumMet : Bool
  passed : Option Bool
deriving DecidableEq

namespace DaoService

open Dao

/-- A failing automatic vote is logged and the proposal is returned all the same. -/
def createProposal (proposerID : UUID) (input : NewProposal) : Dao (Except String DAOProposal) := do
  if input.title = "" then
    return .error "title is required"
  else
    let now ← timeNow
    if input.voteDeadline < now then
      return .error "vote_deadline must be in the future"
    else
      let voteQuorum := if input.voteQuorum < 1 then 5 else input.voteQuorum
      let id ← newUUID
      let createdAt ← timeNow
      let updatedAt ← timeNow
      let proposal : DAOProposal := {
        id := id
        proposerID := proposerID
        title := input.title
        description := input.description
        status := .active
        voteQuorum := voteQuorum
        voteDeadline := input.voteDeadline
        createdAt := createdAt
        updatedAt := updatedAt }
      match ← insertProposal proposal with
      | .error e => return .error ("creating proposal: " ++ e)
      | .ok _ =>
        let voteID ← newUUID
        let votedAt ← timeNow
        let _ ← insertAutomaticVote voteID proposal.id proposerID votedAt
        return .ok proposal

def getProposal (proposalID : UUID) : Dao (Except String DAOProposal) := do
  match ← selectProposal proposalID with
  | .error e => return .error ("proposal not found: " ++ e)
  | .ok p => return .ok p

def listProposals (status : String) : Dao (Except String (List DAOProposal)) := do
  match ← selectProposals status with
  | .error e => return .error ("listing proposals: " ++ e)
  | .ok rows => scanRows rowsNext rowsScan "scanning proposal: " [] rows

def castVote (proposalID userID : UUID) (vote : String) : Dao (Except String DAOVote) := do
  match validVotes vote with
  | none => return .error "invalid vote: must be yes, no, or abstain"
  | some choice =>
    match ← getProposal proposalID with
    | .error e => return .error e
    | .ok proposal =>
      if proposal.status ≠ .active then
        return .error "proposal is not active"
      else
        let now ← timeNow
        if now > proposal.voteDeadline then
          return .error "voting deadline has passed"
        else
          let id ← newUUID
          let votedAt ← timeNow
          let v : DAOVote := {
            id := id
            proposalID := proposalID
            userID := userID
            vote := choice
            weight := 1
            votedAt := votedAt }
          match ← upsertVote v with
          | .error e => return .error ("casting vote: " ++ e)
          | .ok _ => return .ok v

/-- The report on a proposal and the sums of its votes. -/
def voteResults (proposal : DAOProposal) (tally : Tally) : VoteResults where
  proposal := proposal
  yesVotes := tally.yesCount
  noVotes := tally.noCount
  abstentions := tally.abstainCount
  totalVotes := tally.yesCount + tally.noCount + tally.abstainCount
  quorumMet := tally.yesCount + tally.noCount + tally.abstainCount ≥ proposal.voteQuorum
  passed :=
    if proposal.status = .passed ∨ proposal.status = .rejected then
      some (proposal.status = .passed)
    else none

def getResults (proposalID : UUID) : Dao (Except String VoteResults) := do
  match ← getProposal proposalID with
  | .error e => return .error e
  | .ok proposal =>
    match ← tallyVotes proposalID with
    | .error e => return .error ("tallying votes: " ++ e)
    | .ok tally => return .ok (voteResults proposal tally)

end DaoService

end SafetyDao
