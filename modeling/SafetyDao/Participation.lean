import SafetyDao.Text
import SafetyDao.VoteTally
import Mathlib.Data.List.ReduceOption

/-!
# Participation in votes, as the analytics count it

`dao_participation` counts votes under the names "for" and "against", which no vote of the Go
service has, and skips every other name. Means and rounding of floating-point numbers are
parameters.
-/
namespace SafetyDao.Participation
open VoteTally (Call reached)

section Analytics

variable {π ν : Type}

/-- The columns of the data frame that are read, each present or not. Votes are given as
`string` prints them, and a missing turnout as none. -/
structure VotesFrame (π ν : Type) where
  nrow : ℕ
  proposalId : Option (List π)
  vote : Option (List Text)
  turnout : Option (List (Option ℚ))
  voterId : Option (List ν)
  rectangular : ∀ n ∈ [proposalId.map List.length, vote.map List.length,
    turnout.map List.length, voterId.map List.length].reduceOption, n = nrow

theorem VotesFrame.length_vote {f : VotesFrame π ν} {vs : List Text} (h : f.vote = some vs) :
    vs.length = f.nrow := by
  refine f.rectangular _ (List.reduceOption_mem_iff.mpr ?_)
  simp [h]

abbrev Distribution : Type := Text → Option ℕ

structure Report where
  totalProposals : ℕ
  totalVotes : ℕ
  avgTurnout : ℚ
  voteDistribution : Distribution
  voterRetention : ℚ

/-- `Dict("for" => 0, "against" => 0, "abstain" => 0)`. -/
def noVotes : Distribution := fun key =>
  if key ∈ ["for".toList, "against".toList, "abstain".toList] then some 0 else none

/-- `lowercase`, for ASCII letters. -/
def lowercase (t : Text) : Text := t.map Char.toLower

/-- The body of the loop over the votes: a name that is no key is skipped. -/
def countVote (dist : Distribution) (v : Text) : Distribution :=
  match dist (lowercase v) with
  | none => dist
  | some n => Function.update dist (lowercase v) (some (n + 1))

variable [DecidableEq π] [DecidableEq ν] (mean : List ℚ → ℚ) (round1 : ℚ → ℚ)

def daoParticipation (votes : VotesFrame π ν) : Report :=
  let total := votes.nrow
  if total = 0 then ⟨0, 0, 0, noVotes, 0⟩
  else
    let totalProposals := match votes.proposalId with
      | none => 0
      | some ids => ids.dedup.length
    let voteDist := match votes.vote with
      | none => noVotes
      | some vs => vs.foldl countVote noVotes
    let avgTurnout := match votes.turnout with
      | none => 0
      | some ts => mean ts.reduceOption * 100
    let voterRetention := match votes.voterId with
      | none => 0
      | some ids =>
        if 1 < totalProposals then
          let voters := ids.dedup
          let returnedVoters := voters.countP (fun voter => 1 < ids.count voter)
          (returnedVoters : ℚ) / voters.length * 100
        else 0
    ⟨totalProposals, total, round1 avgTurnout, voteDist, round1 voterRetention⟩

/-- The loop adds to each key the votes of that name. -/
theorem foldl_countVote (vs : List Text) {dist : Distribution} {key : Text} {n : ℕ}
    (h : dist key = some n) :
    vs.foldl countVote dist key = some (n + vs.countP fun v => lowercase v = key) := by
  induction vs generalizing dist n with
  | nil => exact h
  | cons v vs ih =>
    rw [List.foldl_cons, List.countP_cons]
    by_cases hv : lowercase v = key
    · have hstep : countVote dist v key = some (n + 1) := by
        rw [countVote, hv, h]
        exact Function.update_self _ _ _
      rw [ih hstep, decide_eq_true hv, if_pos rfl]
      congr 1
      omega
    · have hstep : countVote dist v key = some n := by
        rw [countVote]
        cases dist (lowercase v) with
        | none => exact h
        | some m => exact (Function.update_of_ne (Ne.symm hv) _ _).trans h
      rw [ih hstep, decide_eq_false hv, if_neg Bool.false_ne_true]
      rfl

/-- The distribution counts the column, whether there are rows or none. -/
theorem voteDistribution_eq {f : VotesFrame π ν} {vs : List Text} (hvs : f.vote = some vs)
    {key : Text} (hkey : noVotes key = some 0) :
    (daoParticipation mean round1 f).voteDistribution key =
      some (vs.countP fun v => lowercase v = key) := by
  rw [daoParticipation]
  split
  · rename_i hzero
    have hnil : vs = [] := List.length_eq_zero_iff.mp (f.length_vote hvs ▸ hzero)
    rw [hnil, List.countP_nil]
    exact hkey
  · simp only [hvs]
    rw [foldl_countVote vs hkey, Nat.zero_add]

theorem totalVotes_eq (f : VotesFrame π ν) :
    (daoParticipation mean round1 f).totalVotes = f.nrow := by
  rw [daoParticipation]
  split
  · exact Eq.symm ‹_›
  · rfl

end Analytics

section Tables

/-- The foreign key of the votes. -/
def Referenced (w : DaoStore) : Prop :=
  ∀ v ∈ w.votes.rows, ∃ p ∈ w.proposals.rows, p.id = v.proposalID

/-- What the service and the schema make of the table of votes. -/
structure Held (w : DaoStore) : Prop where
  weight : ∀ v ∈ w.votes.rows, v.weight = 1
  referenced : Referenced w

/-- A field of `getResults` summed over the proposals. -/
def summed (w : DaoStore) (field : VoteResults → ℤ) : ℤ :=
  (w.proposals.rows.map fun p => field (DaoService.voteResults p (w.tallyVotes p.id))).sum

/-- A value that belongs to one row is counted at that row only. -/
theorem sum_ite_key {ρ κ : Type} [DecidableEq κ] {key : ρ → κ} {t : Table key} {r : ρ}
    (h : r ∈ t.rows) (a : ℤ) : (t.rows.map fun s => if key r = key s then a else 0).sum = a := by
  obtain ⟨xs, ys, hsplit, hxs, hys⟩ := Table.exists_split h
  have hzero : ∀ l : List ρ, (∀ s ∈ l, key s ≠ key r) →
      (l.map fun s => if key r = key s then a else 0).sum = 0 := by
    intro l hl
    refine List.sum_eq_zero fun x hx => ?_
    obtain ⟨s, hs, rfl⟩ := List.mem_map.mp hx
    exact if_neg (Ne.symm (hl s hs))
  rw [hsplit, List.map_append, List.map_cons, List.sum_append, List.sum_cons, hzero xs hxs,
    hzero ys hys, if_pos rfl, zero_add, add_zero]

/-- The weights for a choice, over all proposals, are the votes for it. -/
theorem Held.sum_sumWeights {w : DaoStore} (hw : Held w) (c : Choice) :
    (w.proposals.rows.map fun p => w.sumWeights p.id c).sum =
      (w.votes.rows.countP fun v => v.vote = c : ℕ) := by
  have hrows : ∀ l : List DAOVote, (∀ v ∈ l, v ∈ w.votes.rows) →
      (w.proposals.rows.map fun p => ((l.filter fun v => v.proposalID = p.id).map
        fun v => if v.vote = c then v.weight else 0).sum).sum =
        (l.countP fun v => v.vote = c : ℕ) := by
    intro l hl
    induction l with
    | nil =>
      simp
    | cons v l ih =>
      have hv := hl v List.mem_cons_self
      obtain ⟨q, hq, hid⟩ := hw.referenced v hv
      have hsplit : ∀ p : DAOProposal, (((v :: l).filter fun v => v.proposalID = p.id).map
          fun v => if v.vote = c then v.weight else 0).sum =
          (if q.id = p.id then if v.vote = c then 1 else 0 else 0) +
            ((l.filter fun v => v.proposalID = p.id).map
              fun v => if v.vote = c then v.weight else 0).sum := by
        intro p
        rw [List.filter_cons, hid]
        by_cases hp : v.proposalID = p.id
        · simp [hp, hw.weight v hv]
        · simp [hp]
      simp only [hsplit, List.sum_map_add]
      rw [sum_ite_key hq, ih fun x hx => hl x (List.mem_cons_of_mem _ hx), List.countP_cons]
      by_cases hc : v.vote = c
      · simp [hc]
        omega
      · simp [hc]
  exact hrows w.votes.rows fun _ hv => hv

section Held

variable {ι : Type}

theorem Referenced.insertVote {w onConflict : DaoStore} (hw : Referenced w)
    (hconflict : Referenced onConflict) (v : DAOVote) :
    Referenced (w.insertVote v onConflict).1 := by
  unfold DaoStore.insertVote
  cases hi : w.votes.insert v with
  | none => exact hconflict
  | some t =>
    dsimp only
    split_ifs with hid hnone
    · exact hw
    · exact hw
    · intro x hx
      rcases (Table.mem_insert hi).mp hx with hx | rfl
      · exact hw x hx
      · rw [Option.isNone_iff_eq_none] at hnone
        obtain ⟨p, hp⟩ := Option.ne_none_iff_exists'.mp hnone
        exact ⟨p, Table.mem_of_find? hp, Table.key_of_find? hp⟩

/-- Every request keeps the votes on proposals that exist. -/
theorem Referenced.exec {w : DaoStore} (hw : Referenced w) (op : DaoOp) (env : Env) :
    Referenced (w.exec op env).1 := by
  cases op with
  | insertProposal proposal =>
    refine env.attempt_keeps hw ?_
    rcases DaoStore.insertProposal_cases w proposal with ⟨e, he⟩ | ⟨t, ht, he⟩
    · rw [he]
      exact hw
    · rw [he]
      intro v hv
      obtain ⟨p, hp, hid⟩ := hw v hv
      exact ⟨p, (Table.mem_insert ht).mpr (.inl hp), hid⟩
  | insertAutomaticVote id proposalID userID votedAt =>
    exact env.attempt_keeps hw (hw.insertVote hw _)
  | upsertVote v =>
    have hupdated : Referenced
        { w with votes := w.votes.update v.key v.revote v.revote_key } := by
      intro x hx
      rw [Table.mem_update] at hx
      obtain ⟨r, hr, rfl⟩ := hx
      split
      · exact hw r hr
      · exact hw r hr
    exact env.attempt_keeps hw (hw.insertVote hupdated v)
  | _ => rw [DaoStore.exec_readOnly rfl]; exact hw

/-- The tables of every run are held. -/
theorem held_reached [DecidableEq ι] (calls : ι → Call) (proposals : Table DAOProposal.id)
    (schedule : List (ι × Env)) : Held (reached calls proposals schedule).world where
  weight := (VoteTally.reached_append calls proposals schedule []).1.weight
  referenced := by
    have hstep : ∀ (t : ι) (s : Dao.Shared ι) op env, True →
        Referenced s.world → Referenced (Dao.perform t s op env).1.world :=
      fun _ _ op env _ h => h.exec op env
    have hrun := Contract.run_along
      (fun s s' : Dao.Shared ι => Referenced s.world → Referenced s'.world)
      (fun _ => id) (fun _ _ _ h₁ h₂ h => h₂ (h₁ h)) hstep
      (fun t => Program.issues_any ((VoteTally.start calls proposals).threads t)) schedule
    exact hrun fun _ h => by cases h

end Held

end Tables

section Agreement

variable {π ν : Type} [DecidableEq π] [DecidableEq ν] (mean : List ℚ → ℚ) (round1 : ℚ → ℚ)

/-- The count of a key, as a number. -/
def Report.counted (report : Report) (key : String) : ℤ :=
  ((report.voteDistribution key.toList).getD 0 : ℕ)

/-- The distribution is that of the tallies, and counts every vote. -/
structure Agrees (w : DaoStore) (report : Report) : Prop where
  yes : report.counted "for" = summed w VoteResults.yesVotes
  no : report.counted "against" = summed w VoteResults.noVotes
  abstain : report.counted "abstain" = summed w VoteResults.abstentions
  total : report.counted "for" + report.counted "against" + report.counted "abstain" =
    report.totalVotes

/-- A frame of the rows of a table, whatever other columns it has. -/
def IsFrameOf (f : VotesFrame π ν) (w : DaoStore) : Prop :=
  f.vote = some (w.votes.rows.map fun v => v.vote.text.toList)

theorem lowercase_text (c : Choice) : lowercase c.text.toList = c.text.toList := by
  cases c <;> rfl

/-- The count of a key in the report is the number of votes whose name it is. -/
theorem counted_eq {f : VotesFrame π ν} {w : DaoStore} (h : IsFrameOf f w) {key : String}
    (hkey : noVotes key.toList = some 0) : (daoParticipation mean round1 f).counted key =
      (w.votes.rows.countP fun v => v.vote.text.toList = key.toList : ℕ) := by
  rw [Report.counted, voteDistribution_eq mean round1 h hkey, List.countP_map, Option.getD_some]
  congr 1
  refine List.countP_congr fun v _ => ?_
  simp only [Function.comp_apply, lowercase_text]

/-- The service's votes for neither side are counted, and all abstentions are. -/
theorem counted_frame {f : VotesFrame π ν} {w : DaoStore} (h : IsFrameOf f w) :
    (daoParticipation mean round1 f).counted "for" = 0 ∧
      (daoParticipation mean round1 f).counted "against" = 0 ∧
      (daoParticipation mean round1 f).counted "abstain" =
        (w.votes.rows.countP fun v => v.vote = .abstain : ℕ) := by
  have hnone : ∀ key : String, (∀ c : Choice, c.text.toList ≠ key.toList) →
      (w.votes.rows.countP fun v => v.vote.text.toList = key.toList) = 0 := by
    intro key hkey
    refine List.countP_eq_zero.mpr fun v _ => ?_
    simpa using hkey v.vote
  have hnames : ∀ c : Choice, c.text.toList ≠ "for".toList ∧ c.text.toList ≠ "against".toList ∧
      (c.text.toList = "abstain".toList ↔ c = .abstain) := by
    intro c
    cases c <;> decide
  refine ⟨?_, ?_, ?_⟩
  · rw [counted_eq mean round1 h rfl, hnone _ fun c => (hnames c).1]
    rfl
  · rw [counted_eq mean round1 h rfl, hnone _ fun c => (hnames c).2.1]
    rfl
  · rw [counted_eq mean round1 h rfl]
    congr 1
    refine List.countP_congr fun v _ => ?_
    simp only [(hnames v.vote).2.2]

theorem Held.summed_eq {w : DaoStore} (hw : Held w) :
    summed w VoteResults.yesVotes = (w.votes.rows.countP fun v => v.vote = .yes : ℕ) ∧
      summed w VoteResults.noVotes = (w.votes.rows.countP fun v => v.vote = .no : ℕ) ∧
      summed w VoteResults.abstentions = (w.votes.rows.countP fun v => v.vote = .abstain : ℕ) :=
  ⟨hw.sum_sumWeights .yes, hw.sum_sumWeights .no, hw.sum_sumWeights .abstain⟩

/-- The analytics agree with the tallies exactly on tables in which all votes abstain. -/
theorem agrees_iff_abstentions {w : DaoStore} (hw : Held w) {f : VotesFrame π ν}
    (hf : IsFrameOf f w) : Agrees w (daoParticipation mean round1 f) ↔
      ∀ v ∈ w.votes.rows, v.vote = .abstain := by
  obtain ⟨hfor, hagainst, habstain⟩ := counted_frame mean round1 hf
  obtain ⟨hyes, hno, habstentions⟩ := hw.summed_eq
  constructor
  · intro h v hv
    have hyes' : (w.votes.rows.countP fun v => v.vote = .yes) = 0 := by
      have hsum := h.yes
      rw [hfor, hyes] at hsum
      exact_mod_cast hsum.symm
    have hno' : (w.votes.rows.countP fun v => v.vote = .no) = 0 := by
      have hsum := h.no
      rw [hagainst, hno] at hsum
      exact_mod_cast hsum.symm
    have hnoYes := List.countP_eq_zero.mp hyes' v hv
    have hnoNo := List.countP_eq_zero.mp hno' v hv
    cases hc : v.vote with
    | yes => simp [hc] at hnoYes
    | no => simp [hc] at hnoNo
    | abstain => rfl
  · intro h
    have hzero : ∀ c, c ≠ Choice.abstain → (w.votes.rows.countP fun v => v.vote = c) = 0 := by
      intro c hc
      refine List.countP_eq_zero.mpr fun v hv => ?_
      simpa [h v hv] using hc.symm
    have hall : (w.votes.rows.countP fun v => v.vote = .abstain) = w.votes.rows.length :=
      List.countP_eq_length.mpr fun v hv => decide_eq_true (h v hv)
    have hrows : w.votes.rows.length = f.nrow := by
      rw [← VotesFrame.length_vote hf, List.length_map]
    refine ⟨?_, ?_, ?_, ?_⟩
    · rw [hfor, hyes, hzero .yes (by decide)]
      rfl
    · rw [hagainst, hno, hzero .no (by decide)]
      rfl
    · rw [habstain, habstentions]
    · rw [hfor, hagainst, habstain, hall, hrows, totalVotes_eq]
      omega

end Agreement

/-! ## A proposal and its proposer's vote -/

/-- User 7 opens a proposal, and may abstain on it after all. -/
def call : Bool → Call
  | false => .createProposal 7 ⟨"panic buttons", "", 5, 10⟩
  | true => .castVote 1 7 "abstain"

def opened : DaoStore := (reached call .empty (List.replicate 8 (false, .good 0 1))).world

def abstained : DaoStore :=
  (reached call .empty (List.replicate 8 (false, .good 0 1) ++
    List.replicate 5 (true, .good 0 1))).world

/-- The vote column alone, for one row. -/
def frame (v : Text) : VotesFrame UUID UUID := ⟨1, none, some [v], none, none, by simp⟩

theorem agrees_iff_abstentions_abstained :
    Held abstained ∧ IsFrameOf (frame "abstain".toList) abstained ∧
      Agrees abstained (daoParticipation List.sum id (frame "abstain".toList)) := by
  have hheld : Held abstained := held_reached _ _ _
  have hframe : IsFrameOf (frame "abstain".toList) abstained := rfl
  refine ⟨hheld, hframe, (agrees_iff_abstentions List.sum id hheld hframe).mpr ?_⟩
  decide

/-- The proposer's own vote, a yes, is lost. -/
theorem proposer_yes_lost :
    Held opened ∧ IsFrameOf (frame "yes".toList) opened ∧
      ¬ Agrees opened (daoParticipation List.sum id (frame "yes".toList)) := by
  refine ⟨held_reached _ _ _, rfl, fun h => ?_⟩
  have hyes := h.yes
  revert hyes
  decide

end SafetyDao.Participation
