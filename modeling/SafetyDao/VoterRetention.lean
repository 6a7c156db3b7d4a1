import SafetyDao.Participation
import Mathlib.Tactic.Positivity

/-!
# Voters who come back

`dao_participation` counts the rows of a voter and takes no other voter back than one with two of
them. In a table of votes, which has one row for a proposal and a voter, these are the voters of
two proposals or more.
-/
namespace SafetyDao.VoterRetention
open Participation (VotesFrame daoParticipation)

variable {π ν : Type} [DecidableEq π] [DecidableEq ν]

/-- The frame has these proposals and voters, row by row. -/
structure Holds (votes : VotesFrame π ν) (rows : List (π × ν)) : Prop where
  proposalId : votes.proposalId = some (rows.map Prod.fst)
  voterId : votes.voterId = some (rows.map Prod.snd)

def voters (rows : List (π × ν)) : Finset ν := (rows.map Prod.snd).toFinset

def proposalsOf (rows : List (π × ν)) (voter : ν) : Finset π :=
  ((rows.filter fun r => r.2 = voter).map Prod.fst).toFinset

/-- Those who have voted on two proposals or more. -/
def returning (rows : List (π × ν)) : Finset ν :=
  (voters rows).filter fun voter => 2 ≤ (proposalsOf rows voter).card

section Rows

variable {rows : List (π × ν)}

/-- With one row for a proposal and a voter, a voter's rows are as many as the proposals. -/
theorem count_eq_card (hnodup : rows.Nodup) (voter : ν) :
    (rows.map Prod.snd).count voter = (proposalsOf rows voter).card := by
  have hproposals : ((rows.filter fun r => r.2 = voter).map Prod.fst).Nodup := by
    refine (hnodup.filter _).map_on fun r hr r' hr' heq => ?_
    have hsnd := of_decide_eq_true (List.mem_filter.mp hr).2
    have hsnd' := of_decide_eq_true (List.mem_filter.mp hr').2
    exact Prod.ext heq (hsnd.trans hsnd'.symm)
  rw [proposalsOf, List.toFinset_card_of_nodup hproposals, List.length_map,
    ← List.countP_eq_length_filter, List.count, List.countP_map]
  rfl

theorem card_proposalsOf_le (voter : ν) :
    (proposalsOf rows voter).card ≤ (rows.map Prod.fst).toFinset.card := by
  refine Finset.card_le_card fun p hp => ?_
  rw [proposalsOf, List.mem_toFinset] at hp
  exact List.mem_toFinset.mpr ((List.filter_sublist.map Prod.fst).subset hp)

/-- On a single proposal nobody comes back. -/
theorem returning_eq_empty (h : (rows.map Prod.fst).toFinset.card ≤ 1) : returning rows = ∅ := by
  refine Finset.filter_eq_empty_iff.mpr fun voter _ htwo => ?_
  have hle : (proposalsOf rows voter).card ≤ _ := card_proposalsOf_le voter
  omega

/-- The voters that the code counts. -/
theorem countP_returning (hnodup : rows.Nodup) :
    ((rows.map Prod.snd).dedup.countP fun voter => 1 < (rows.map Prod.snd).count voter) =
      (returning rows).card := by
  have hreturning : returning rows = ((rows.map Prod.snd).dedup.filter
      fun voter => 1 < (rows.map Prod.snd).count voter).toFinset := by
    ext voter
    simp only [returning, voters, Finset.mem_filter, List.mem_toFinset, List.mem_filter,
      List.mem_dedup, count_eq_card hnodup, decide_eq_true_eq, Nat.lt_iff_add_one_le]
  rw [hreturning, List.toFinset_card_of_nodup ((List.nodup_dedup _).filter _),
    List.countP_eq_length_filter]

omit [DecidableEq π] in
theorem Perm.voters_eq {others : List (π × ν)} (h : rows.Perm others) :
    voters rows = voters others := by
  ext voter
  simp only [voters, List.mem_toFinset, (h.map Prod.snd).mem_iff]

theorem Perm.returning_eq {others : List (π × ν)} (h : rows.Perm others) :
    returning rows = returning others := by
  have hproposals : ∀ voter, proposalsOf rows voter = proposalsOf others voter := by
    intro voter
    ext p
    simp only [proposalsOf, List.mem_toFinset, ((h.filter _).map Prod.fst).mem_iff]
  simp only [returning, Perm.voters_eq h, hproposals]

end Rows

section Retention

variable {votes : VotesFrame π ν} {rows : List (π × ν)} (mean : List ℚ → ℚ)

omit [DecidableEq π] [DecidableEq ν] in
theorem Holds.nrow_eq (hvotes : Holds votes rows) : votes.nrow = rows.length := by
  have hlength := votes.rectangular (rows.map Prod.fst).length
    (List.reduceOption_mem_iff.mpr (by simp [hvotes.proposalId]))
  rw [← hlength, List.length_map]

/-- `total_proposals` is computed before the voters are looked at. -/
theorem retention_of_holds (hvotes : Holds votes rows) (hne : rows ≠ []) (hnodup : rows.Nodup) :
    (daoParticipation mean id votes).voterRetention =
      if 1 < (rows.map Prod.fst).toFinset.card then
        ((returning rows).card : ℚ) / (voters rows).card * 100
      else 0 := by
  have hrows : votes.nrow ≠ 0 := by
    rw [hvotes.nrow_eq]
    exact mt List.length_eq_zero_iff.mp hne
  rw [daoParticipation, if_neg hrows]
  simp only [hvotes.proposalId, hvotes.voterId, id_eq, countP_returning hnodup, voters,
    List.card_toFinset]
  rfl

/-- Where the code does not count, nobody comes back. -/
theorem retention_eq_fraction (hvotes : Holds votes rows) (hne : rows ≠ []) (hnodup : rows.Nodup) :
    (daoParticipation mean id votes).voterRetention =
      100 * ((returning rows).card / (voters rows).card) := by
  rw [retention_of_holds mean hvotes hne hnodup]
  by_cases hproposals : 1 < (rows.map Prod.fst).toFinset.card
  · rw [if_pos hproposals, mul_comm]
  · rw [if_neg hproposals, returning_eq_empty (not_lt.mp hproposals), Finset.card_empty,
      Nat.cast_zero, zero_div, mul_zero]

theorem percentage_mem (rows : List (π × ν)) :
    (0 : ℚ) ≤ 100 * ((returning rows).card / (voters rows).card) ∧
      100 * (((returning rows).card : ℚ) / (voters rows).card) ≤ 100 := by
  have hcard : ((returning rows).card : ℚ) ≤ (voters rows).card :=
    Nat.cast_le.mpr (Finset.card_filter_le _ _)
  have hfraction : ((returning rows).card : ℚ) / (voters rows).card ≤ 1 :=
    div_le_one_of_le₀ hcard (Nat.cast_nonneg _)
  constructor
  · positivity
  · linarith

/-- The retention is the percentage of voters who have come back, whatever the order of the
rows. -/
theorem voterRetention_percentage (hvotes : Holds votes rows) (hne : rows ≠ [])
    (hnodup : rows.Nodup) :
    (daoParticipation mean id votes).voterRetention =
        100 * ((returning rows).card / (voters rows).card) ∧
      0 ≤ (daoParticipation mean id votes).voterRetention ∧
      (daoParticipation mean id votes).voterRetention ≤ 100 ∧
      (∀ (votes' : VotesFrame π ν) (rows' : List (π × ν)), Holds votes' rows' →
        rows.Perm rows' → (daoParticipation mean id votes').voterRetention =
          (daoParticipation mean id votes).voterRetention) ∧
      ((rows.map Prod.fst).toFinset.card = 1 →
        (daoParticipation mean id votes).voterRetention = 0) := by
  have heq := retention_eq_fraction mean hvotes hne hnodup
  refine ⟨heq, heq ▸ (percentage_mem rows).1, heq ▸ (percentage_mem rows).2, ?_, ?_⟩
  · intro votes' rows' hvotes' hperm
    have hne' : rows' ≠ [] := fun hnil => hne (List.perm_nil.mp (hnil ▸ hperm))
    rw [heq, retention_eq_fraction mean hvotes' hne' (hperm.nodup_iff.mp hnodup),
      Perm.voters_eq hperm, Perm.returning_eq hperm]
  · intro hone
    rw [retention_of_holds mean hvotes hne hnodup, if_neg hone.not_gt]

/-- The demonstration data of the analytics service. -/
def sampleRows : List (ℕ × Char) :=
  [(1, 'a'), (1, 'b'), (1, 'c'), (2, 'a'), (2, 'd'), (3, 'a'), (3, 'b'), (3, 'e'), (3, 'c'),
    (4, 'f')]

def sampleVotes : VotesFrame ℕ Char :=
  ⟨10, some (sampleRows.map Prod.fst), none, none, some (sampleRows.map Prod.snd),
    by simp [sampleRows]⟩

/-- Three of the six voters have come back. -/
theorem sampleVotes_percentage :
    (daoParticipation List.sum id sampleVotes).voterRetention = 100 * ((3 : ℕ) / (6 : ℕ)) ∧
      (daoParticipation List.sum id sampleVotes).voterRetention ≤ 100 := by
  have hholds : Holds sampleVotes sampleRows := ⟨rfl, rfl⟩
  have h := voterRetention_percentage List.sum hholds (by decide) (by decide)
  exact ⟨h.1, h.2.2.1⟩

end Retention

section Service

/-- A frame of the service's votes, whatever other columns it has. -/
theorem serviceRetention_eq (mean : List ℚ → ℚ) {votes : VotesFrame UUID UUID} {w : DaoStore}
    (hvotes : Holds votes (w.votes.rows.map DAOVote.key)) (hne : w.votes.rows ≠ []) :
    (daoParticipation mean id votes).voterRetention =
      100 * ((returning (w.votes.rows.map DAOVote.key)).card /
        (voters (w.votes.rows.map DAOVote.key)).card) :=
  retention_eq_fraction mean hvotes (mt List.map_eq_nil_iff.mp hne) w.votes.nodup

end Service

end SafetyDao.VoterRetention
