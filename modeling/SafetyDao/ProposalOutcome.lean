import SafetyDao.VoteTally

/-!
# What becomes of a proposal

`getResults` tells from the status of a proposal whether it is decided, and the tally
does not enter. No operation of the service writes a status after the INSERT, so a
proposal stays active for ever and its results never name an outcome.
-/
namespace SafetyDao.ProposalOutcome
open Dao (Shared perform perform_eq perform_readOnly_world)
open VoteTally (Call Reply start reached getResults_ok getResults_completes)

def AllActive (w : DaoStore) : Prop := ∀ prop ∈ w.proposals.rows, prop.status = .active

/-- Proposals are inserted active. -/
def Admissible : DaoOp → Prop
  | .insertProposal proposal => proposal.status = .active
  | _ => True

variable {ι : Type}

theorem allActive_perform (t : ι) (s : Shared ι) (op : DaoOp) (env : Env) (h : Admissible op)
    (hs : AllActive s.world) : AllActive (perform t s op env).1.world := by
  cases op with
  | insertProposal proposal =>
    rcases DaoStore.exec_insertProposal s.world proposal env with ⟨e, he⟩ | ⟨tbl, ht, he⟩
    · rw [perform_eq, he]
      exact hs
    · rw [perform_eq, he]
      intro prop hprop
      rcases (Table.mem_insert ht).mp hprop with hprop | rfl
      · exact hs prop hprop
      · exact h
  | insertAutomaticVote id p u votedAt =>
    rcases DaoStore.exec_insertAutomaticVote s.world id p u votedAt env with
      ⟨e, he⟩ | ⟨tbl, -, he⟩ | ⟨-, he⟩ <;> rw [perform_eq, he] <;> exact hs
  | upsertVote v =>
    rcases DaoStore.exec_upsertVote s.world v env with ⟨e, he⟩ | ⟨tbl, -, he⟩ | ⟨-, he⟩ <;>
      rw [perform_eq, he] <;> exact hs
  | _ => rwa [perform_readOnly_world t s _ env rfl]

theorem issues_program (call : Call) : call.program.Issues Admissible := by
  cases call with
  | createProposal proposerID input =>
    refine Program.Issues.bind ?_ fun _ => trivial
    unfold DaoService.createProposal
    split
    · trivial
    simp only [Program.call_bind, Program.pure_eq]
    refine .request trivial fun now => ?_
    split
    · trivial
    refine .request trivial fun id => .request trivial fun createdAt => ?_
    refine .request trivial fun updatedAt => .request rfl fun r => ?_
    cases r with
    | error e => trivial
    | ok _ =>
      exact .request trivial fun voteID => .request trivial fun votedAt =>
        .request trivial fun _ => trivial
  | castVote proposalID userID vote =>
    refine Program.Issues.bind ?_ fun _ => trivial
    unfold DaoService.castVote DaoService.getProposal
    split
    · trivial
    simp only [Program.call_bind, Program.request_bind, Program.pure_eq]
    refine .request trivial fun r => ?_
    cases r with
    | error e => trivial
    | ok proposal =>
    simp only [Program.done_bind]
    split
    · trivial
    refine .request trivial fun now => ?_
    split
    · trivial
    refine .request trivial fun id => .request trivial fun votedAt => .request trivial fun r => ?_
    cases r <;> trivial

/-- Proposals stay active along every run. -/
theorem allActive_reached [DecidableEq ι] (calls : ι → Call) (schedule : List (ι × Env)) :
    AllActive (reached calls .empty schedule).world := by
  have hissues : ∀ t, ((start calls .empty).threads t).Issues Admissible :=
    fun t => issues_program (calls t)
  have hrun := Contract.run_along (fun s s' : Shared ι => AllActive s.world → AllActive s'.world)
    (fun _ => id) (fun _ _ _ h₁ h₂ h => h₂ (h₁ h))
    (fun t s op env hop => allActive_perform t s op env hop) hissues schedule
  exact hrun fun _ h => by cases h

/-- A decided outcome: passed with the quorum met and more yes than no, rejected otherwise. -/
def Decided (res : VoteResults) : Prop :=
  ∃ passed, res.passed = some passed ∧
    (passed = true ↔ res.totalVotes ≥ res.proposal.voteQuorum ∧ res.yesVotes > res.noVotes)

theorem passed_of_active {prop : DAOProposal} (h : prop.status = .active) (tally : Tally) :
    (DaoService.voteResults prop tally).passed = none := by
  simp [DaoService.voteResults, h]

/-- For no proposal of any run do the results name an outcome, whatever the deadline. -/
theorem results_undecided [DecidableEq ι] (calls : ι → Call) (schedule : List (ι × Env))
    (t : ι) (p : UUID) (prop : DAOProposal)
    (hf : (reached calls .empty schedule).world.proposals.find? p = some prop) :
    (∃ res s, (DaoService.getResults p).Completes (perform t) (reached calls .empty schedule)
      (.ok res) s) ∧
    ∀ res s, (DaoService.getResults p).Completes (perform t) (reached calls .empty schedule)
      (.ok res) s → ¬ Decided res := by
  refine ⟨getResults_completes t hf, fun res s hres ⟨passed, hpassed, _⟩ => ?_⟩
  obtain ⟨prop', hf', rfl⟩ := getResults_ok hres
  have hactive := allActive_reached calls schedule prop' (Table.mem_of_find? hf')
  rw [passed_of_active hactive] at hpassed
  cases hpassed

/-- A proposal that one vote suffices to pass, open until 10. -/
def oneProposal (_ : Unit) : Call := .createProposal 7 ⟨"p", "", 1, 10⟩

def allOfIt : List (Unit × Env) := List.replicate 8 ((), .good 5 1)

theorem oneProposal_undecided :
    (∃ res s, (DaoService.getResults 1).Completes (perform ()) (reached oneProposal .empty allOfIt)
      (.ok res) s) ∧
    ∀ res s, (DaoService.getResults 1).Completes (perform ()) (reached oneProposal .empty allOfIt)
      (.ok res) s → ¬ Decided res :=
  results_undecided oneProposal allOfIt () 1 ⟨1, 7, "p", "", .active, 1, 10, 5, 5⟩ (by decide)

/-- Past the deadline, with the quorum met and the one vote a yes, the results are still open. -/
theorem outcome_never_reported : ¬ ∀ (ι : Type) [DecidableEq ι] (calls : ι → Call)
    (schedule : List (ι × Env)) (now : Time) (t : ι) (p : UUID) (prop : DAOProposal),
    (reached calls .empty schedule).world.proposals.find? p = some prop →
    prop.voteDeadline < now → ∀ res s, (DaoService.getResults p).Completes (perform t)
      (reached calls .empty schedule) (.ok res) s → Decided res := by
  intro h
  have hf : (reached oneProposal .empty allOfIt).world.proposals.find? 1 =
      some ⟨1, 7, "p", "", .active, 1, 10, 5, 5⟩ := by decide
  obtain ⟨res, s, hres⟩ := getResults_completes () hf
  obtain ⟨passed, hpassed, -⟩ := h Unit oneProposal allOfIt 20 () 1 _ hf (by decide) res s hres
  obtain ⟨prop, hf', rfl⟩ := getResults_ok hres
  rw [hf, Option.some.injEq] at hf'
  subst hf'
  cases hpassed

end SafetyDao.ProposalOutcome
