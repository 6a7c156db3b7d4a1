import SafetyDao.VoteTally

/-!
# Votes against the deadline

A call that writes a vote reads the clock twice, once to compare it with the deadline
and once to stamp the vote, and the statement that stores the vote looks at neither. A
vote is on time as long as no deadline passes between the readings of one call.
-/
namespace SafetyDao.VoteDeadline
open Dao (Shared History perform perform_eq perform_readOnly_world)
open VoteTally (Call Reply start reached)

/-- Every vote carries a time up to the deadline of its proposal. -/
def OnTime (w : DaoStore) : Prop :=
  ∀ v ∈ w.votes.rows, ∃ prop, w.proposals.find? v.proposalID = some prop ∧
    v.votedAt ≤ prop.voteDeadline

instance (w : DaoStore) : Decidable (OnTime w) :=
  inferInstanceAs (Decidable (∀ v ∈ w.votes.rows, ∃ prop ∈ w.proposals.find? v.proposalID,
    v.votedAt ≤ prop.voteDeadline))

/-- The deadline a call has to meet. -/
def deadline (w : DaoStore) : Call → Option Time
  | .createProposal _ input => some input.voteDeadline
  | .castVote proposalID _ _ => (w.proposals.find? proposalID).map DAOProposal.voteDeadline

variable {ι : Type} [DecidableEq ι]

/-- What a thread has read from the clock. -/
def reading (t : ι) : Event DaoOp.Res ι → Option Time
  | ⟨u, .timeNow, now⟩ => if u = t then some now else none
  | _ => none

/-- No clock reading of a call passes the deadline that an earlier reading of the same call
had not passed. -/
def KeepsDeadline (calls : ι → Call) (t : ι) (s : Shared ι) (op : DaoOp) (env : Env) : Prop :=
  match op with
  | .timeNow => ∀ limit ∈ deadline s.world (calls t), ∀ e ∈ s.history, ∀ earlier ∈ reading t e,
      earlier ≤ limit → env.now ≤ limit
  | _ => True

instance (calls : ι → Call) (t : ι) (s : Shared ι) (op : DaoOp) (env : Env) :
    Decidable (KeepsDeadline calls t s op env) := by
  cases op <;> unfold KeepsDeadline <;> infer_instance

/-- The tables move as the tally demands, and votes stay on time. -/
structure Moves (s s' : Shared ι) : Prop where
  tally : VoteTally.Moves s s'
  onTime : OnTime s.world → OnTime s'.world

namespace Moves

omit [DecidableEq ι]

theorem refl (s : Shared ι) : Moves s s := ⟨.refl s, id⟩

theorem trans {s₁ s₂ s₃ : Shared ι} (h₁ : Moves s₁ s₂) (h₂ : Moves s₂ s₃) : Moves s₁ s₃ :=
  ⟨h₁.tally.trans h₂.tally, fun h => h₂.onTime (h₁.onTime h)⟩

end Moves

section Steps

omit [DecidableEq ι]

variable {s s' : Shared ι}

/-- Votes stay on time when each vote is an old one as to proposal and time, or is on time
itself. -/
theorem moves_of_votes (ht : VoteTally.Moves s s')
    (hv : ∀ v' ∈ s'.world.votes.rows, (∃ v ∈ s.world.votes.rows, v'.proposalID = v.proposalID ∧
      v'.votedAt = v.votedAt) ∨ ∃ prop, s.world.proposals.find? v'.proposalID = some prop ∧
        v'.votedAt ≤ prop.voteDeadline) : Moves s s' where
  tally := ht
  onTime h v' hv' := by
    rcases hv v' hv' with ⟨v, hmem, hp, htime⟩ | ⟨prop, hf, hle⟩
    · obtain ⟨prop, hf, hle⟩ := h v hmem
      exact ⟨prop, by rw [hp]; exact ht.proposals _ prop hf, by rw [htime]; exact hle⟩
    · exact ⟨prop, ht.proposals _ prop hf, hle⟩

theorem moves_of_votes_eq (ht : VoteTally.Moves s s') (hv : s'.world.votes = s.world.votes) :
    Moves s s' :=
  moves_of_votes ht fun v hmem => .inl ⟨v, by rwa [hv] at hmem, rfl, rfl⟩

theorem moves_readOnly (t : ι) (s : Shared ι) (op : DaoOp) (env : Env)
    (h : DaoStore.readOnly op = true) : Moves s (perform t s op env).1 :=
  moves_of_votes_eq (VoteTally.moves_readOnly t s op env h)
    (by rw [perform_readOnly_world t s op env h])

theorem moves_insertProposal (t : ι) (s : Shared ι) (proposal : DAOProposal) (env : Env) :
    Moves s (perform t s (.insertProposal proposal) env).1 := by
  refine moves_of_votes_eq (VoteTally.moves_insertProposal t s proposal env) ?_
  rcases DaoStore.exec_insertProposal s.world proposal env with ⟨e, he⟩ | ⟨tbl, -, he⟩ <;>
    rw [perform_eq, he]

/-- An automatic vote stamped in time. -/
theorem moves_insertAutomaticVote (t : ι) {id p u : UUID} {votedAt : Time} {prop : DAOProposal}
    (hf : s.world.proposals.find? p = some prop) (hu : prop.proposerID = u)
    (hle : votedAt ≤ prop.voteDeadline) (env : Env) :
    Moves s (perform t s (.insertAutomaticVote id p u votedAt) env).1 := by
  refine moves_of_votes (VoteTally.moves_insertAutomaticVote t votedAt ⟨prop, hf, hu⟩ env) ?_
  intro v' hv'
  rcases DaoStore.exec_insertAutomaticVote s.world id p u votedAt env with
    ⟨e, he⟩ | ⟨tbl, ht, he⟩ | ⟨-, he⟩
  · rw [perform_eq, he] at hv'
    exact .inl ⟨v', hv', rfl, rfl⟩
  · rw [perform_eq, he] at hv'
    rcases (Table.mem_insert ht).mp hv' with hv' | rfl
    · exact .inl ⟨v', hv', rfl, rfl⟩
    · exact .inr ⟨prop, hf, hle⟩
  · rw [perform_eq, he] at hv'
    exact .inl ⟨v', hv', rfl, rfl⟩

/-- A vote stamped in time, be it new or a change of an earlier one. -/
theorem moves_upsertVote (t : ι) {v : DAOVote} {prop : DAOProposal} (hweight : v.weight = 1)
    (hf : s.world.proposals.find? v.proposalID = some prop) (hle : v.votedAt ≤ prop.voteDeadline)
    (env : Env) : Moves s (perform t s (.upsertVote v) env).1 := by
  refine moves_of_votes (VoteTally.moves_upsertVote t s hweight env) ?_
  intro v' hv'
  rcases DaoStore.exec_upsertVote s.world v env with ⟨e, he⟩ | ⟨tbl, ht, he⟩ | ⟨-, he⟩
  · rw [perform_eq, he] at hv'
    exact .inl ⟨v', hv', rfl, rfl⟩
  · rw [perform_eq, he] at hv'
    rcases (Table.mem_insert ht).mp hv' with hv' | rfl
    · exact .inl ⟨v', hv', rfl, rfl⟩
    · exact .inr ⟨prop, hf, hle⟩
  · rw [perform_eq, he, Table.mem_update] at hv'
    obtain ⟨row, hrow, rfl⟩ := hv'
    split
    · rename_i hkey
      have hproposal : row.proposalID = v.proposalID := congrArg Prod.fst hkey
      exact .inr ⟨prop, hproposal ▸ hf, hle⟩
    · exact .inl ⟨row, hrow, rfl, rfl⟩

end Steps

section Contracts

variable {α : Type} {calls : ι → Call} {t : ι} {s s' : Shared ι}

def contract : Contract (Shared ι) α := ⟨Moves, Moves, fun _ _ => True⟩

/-- The call of the thread has found its deadline not passed. -/
structure Checked (calls : ι → Call) (t : ι) (limit : Time) (s : Shared ι) : Prop where
  deadline : deadline s.world (calls t) = some limit
  read : ∃ e ∈ s.history, ∃ now ∈ reading t e, now ≤ limit

theorem Checked.moves {limit : Time} (h : Checked calls t limit s) (hm : Moves s s') :
    Checked calls t limit s' := by
  refine ⟨?_, ?_⟩
  · have hd := h.deadline
    cases hcall : calls t with
    | createProposal proposerID input =>
      rw [hcall] at hd
      exact hd
    | castVote proposalID userID vote =>
      rw [hcall] at hd
      obtain ⟨prop, hf, rfl⟩ := Option.map_eq_some_iff.mp hd
      exact Option.map_eq_some_iff.mpr ⟨prop, hm.tally.proposals _ prop hf, rfl⟩
  · obtain ⟨e, he, hread⟩ := h.read
    obtain ⟨es, hes⟩ := hm.tally.history
    exact ⟨e, by rw [hes]; exact List.mem_append_right _ he, hread⟩

/-- The first reading, when it is not past the deadline. -/
theorem checked_of_timeNow {limit : Time} {env : Env} (hd : deadline s.world (calls t) = some limit)
    (hle : env.now ≤ limit) : Checked calls t limit (perform t s .timeNow env).1 :=
  ⟨hd, ⟨t, .timeNow, env.now⟩, List.mem_cons_self, env.now, by simp [reading], hle⟩

/-- A later reading is not past the deadline either. -/
theorem Checked.now_le {limit : Time} {env : Env} (h : Checked calls t limit s)
    (hguard : KeepsDeadline calls t s .timeNow env) : env.now ≤ limit := by
  obtain ⟨e, he, earlier, hread, hle⟩ := h.read
  exact hguard limit h.deadline e he earlier hread hle

theorem holds_done (a : α) (s : Shared ι) :
    Contract.Holds perform (KeepsDeadline calls) t contract (.done a : Dao α) s :=
  fun _ _ => trivial

/-- A request that only reads, under an assertion that every move keeps. -/
theorem holds_readOnly {P : Shared ι → Prop} (hP : ∀ s s', Moves s s' → P s → P s') {op : DaoOp}
    (hop : DaoStore.readOnly op = true) {next : op.Res → Dao α} {s : Shared ι} (hs : P s)
    (hnext : ∀ r s', P s' →
      Contract.Holds perform (KeepsDeadline calls) t contract (next r) s') :
    Contract.Holds perform (KeepsDeadline calls) t contract (.request op next) s :=
  Contract.Holds.of_moves hP (fun s env => moves_readOnly t s op env hop) hs
    fun _ _ _ _ hs' => hnext _ _ hs'

/-- A reading of the clock, under an assertion that every move keeps. -/
theorem holds_timeNow {P : Shared ι → Prop} (hP : ∀ s s', Moves s s' → P s → P s')
    {next : Time → Dao α} {s : Shared ι} (hs : P s)
    (hnext : ∀ s' env, P s' → KeepsDeadline calls t s' .timeNow env →
      Contract.Holds perform (KeepsDeadline calls) t contract (next env.now)
        (perform t s' .timeNow env).1) :
    Contract.Holds perform (KeepsDeadline calls) t contract (.request .timeNow next) s :=
  Contract.Holds.of_moves hP (fun s env => moves_readOnly t s .timeNow env rfl) hs
    fun s' env hs' hguard _ => hnext s' env hs' hguard

/-- The proposal is there, with its deadline. -/
def Stored (p u : UUID) (limit : Time) (s : Shared ι) : Prop :=
  ∃ prop, s.world.proposals.find? p = some prop ∧ prop.proposerID = u ∧ prop.voteDeadline = limit

omit [DecidableEq ι] in
theorem Stored.moves {p u : UUID} {limit : Time} (h : Stored p u limit s) (hm : Moves s s') :
    Stored p u limit s' := by
  obtain ⟨prop, hf, hprop⟩ := h
  exact ⟨prop, hm.tally.proposals p prop hf, hprop⟩

omit [DecidableEq ι] in
theorem stored_of_insertProposal (t : ι) {proposal : DAOProposal} {env : Env} {u : Unit}
    (hok : (perform t s (.insertProposal proposal) env).2 = .ok u) :
    Stored proposal.id proposal.proposerID proposal.voteDeadline
      (perform t s (.insertProposal proposal) env).1 := by
  rcases DaoStore.exec_insertProposal s.world proposal env with ⟨e, he⟩ | ⟨tbl, ht, he⟩
  · rw [perform_eq, he] at hok
    cases hok
  · rw [perform_eq, he]
    exact ⟨proposal, by rw [Table.find?_insert ht, if_pos rfl], rfl, rfl⟩

theorem holds_createProposal {proposerID : UUID} {input : NewProposal}
    (hcall : calls t = .createProposal proposerID input) (s : Shared ι) :
    Contract.Holds perform (KeepsDeadline calls) t contract
      (DaoService.createProposal proposerID input) s := by
  have hkeep : ∀ s s' : Shared ι, Moves s s' → Checked calls t input.voteDeadline s →
      Checked calls t input.voteDeadline s' := fun _ _ hm h => h.moves hm
  unfold DaoService.createProposal
  split
  · exact holds_done _ _
  simp only [Program.call_bind, Program.pure_eq]
  refine holds_timeNow (Contract.keeps_true _) trivial fun s₁ env _ _ => ?_
  split
  · exact holds_done _ _
  rename_i hnow
  have hchecked : Checked calls t input.voteDeadline (perform t s₁ .timeNow env).1 :=
    checked_of_timeNow (by rw [hcall]; rfl) (not_lt.mp hnow)
  refine holds_readOnly hkeep rfl hchecked fun id s₂ hs₂ => ?_
  refine holds_readOnly hkeep rfl hs₂ fun createdAt s₃ hs₃ => ?_
  refine holds_readOnly hkeep rfl hs₃ fun updatedAt s₄ hs₄ => ?_
  refine Contract.Holds.of_stable hkeep hs₄ fun s₅ hs₅ env₂ _ =>
    ⟨moves_insertProposal t s₅ _ env₂, ?_⟩
  split
  · exact holds_done _ _
  · rename_i hok
    have hstored := stored_of_insertProposal t hok
    have hboth : ∀ s s' : Shared ι, Moves s s' →
        Checked calls t input.voteDeadline s ∧ Stored id proposerID input.voteDeadline s →
        Checked calls t input.voteDeadline s' ∧ Stored id proposerID input.voteDeadline s' :=
      fun _ _ hm h => ⟨h.1.moves hm, h.2.moves hm⟩
    refine holds_readOnly hboth rfl ⟨hs₅.moves (moves_insertProposal t s₅ _ env₂), hstored⟩
      fun voteID s₆ hs₆ => ?_
    refine holds_timeNow hboth hs₆ fun s₇ env₃ hs₇ hguard => ?_
    have hle := hs₇.1.now_le hguard
    have hstored₇ := hs₇.2.moves (moves_readOnly t s₇ .timeNow env₃ rfl)
    refine Contract.Holds.of_stable (fun _ _ hm h => Stored.moves h hm) hstored₇
      fun s₈ hs₈ env₄ _ => ?_
    obtain ⟨prop, hf, hu, hlimit⟩ := hs₈
    exact ⟨moves_insertAutomaticVote t hf hu (hlimit ▸ hle) env₄, holds_done _ _⟩

theorem holds_castVote {proposalID userID : UUID} {vote : String}
    (hcall : calls t = .castVote proposalID userID vote) (s : Shared ι) :
    Contract.Holds perform (KeepsDeadline calls) t contract
      (DaoService.castVote proposalID userID vote) s := by
  unfold DaoService.castVote DaoService.getProposal
  split
  · exact holds_done _ _
  simp only [Program.call_bind, Program.request_bind, Program.pure_eq]
  intro s₁ _ env _
  have hm := moves_readOnly t s₁ (.selectProposal proposalID) env rfl
  refine ⟨hm, ?_⟩
  cases hr : (perform t s₁ (.selectProposal proposalID) env).2 with
  | error e => exact holds_done _ _
  | ok proposal =>
  have hf₁ : (perform t s₁ (.selectProposal proposalID) env).1.world.proposals.find? proposalID =
      some proposal := by
    rw [perform_readOnly_world t s₁ _ env rfl]
    exact DaoStore.exec_selectProposal hr
  simp only [Program.done_bind]
  split
  · exact holds_done _ _
  have hfound : ∀ s s' : Shared ι, Moves s s' →
      s.world.proposals.find? proposalID = some proposal →
      s'.world.proposals.find? proposalID = some proposal :=
    fun _ _ hm h => hm.tally.proposals _ _ h
  refine holds_timeNow hfound hf₁ fun s₂ env₂ hf₂ _ => ?_
  split
  · exact holds_done _ _
  rename_i hnow
  have hchecked : Checked calls t proposal.voteDeadline (perform t s₂ .timeNow env₂).1 :=
    checked_of_timeNow (by simp [hcall, deadline, hf₂]) (not_lt.mp hnow)
  have hboth : ∀ s s' : Shared ι, Moves s s' → Checked calls t proposal.voteDeadline s ∧
      s.world.proposals.find? proposalID = some proposal →
      Checked calls t proposal.voteDeadline s' ∧
      s'.world.proposals.find? proposalID = some proposal :=
    fun _ _ hm h => ⟨h.1.moves hm, hm.tally.proposals _ _ h.2⟩
  refine holds_readOnly hboth rfl ⟨hchecked, hf₂⟩ fun id s₃ hs₃ => ?_
  refine holds_timeNow hboth hs₃ fun s₄ env₃ hs₄ hguard => ?_
  have hle := hs₄.1.now_le hguard
  refine Contract.Holds.of_stable hfound hs₄.2 fun s₅ hf₅ env₄ _ => ?_
  refine ⟨moves_upsertVote t rfl hf₅ hle env₄, ?_⟩
  split <;> exact holds_done _ _

theorem holds_program (s : Shared ι) :
    Contract.Holds perform (KeepsDeadline calls) t contract (calls t).program s := by
  cases hcall : calls t with
  | createProposal proposerID input =>
    exact (holds_createProposal hcall s).bind Moves.refl fun _ s _ => holds_done _ s
  | castVote proposalID userID vote =>
    exact (holds_castVote hcall s).bind Moves.refl fun _ s _ => holds_done _ s

end Contracts

/-- In a run in which no call sees its deadline pass between its clock readings, no vote is
recorded as cast after the deadline. -/
theorem reached_onTime (calls : ι → Call) (proposals : Table DAOProposal.id)
    (schedule : List (ι × Env))
    (h : Pool.Guarded perform (KeepsDeadline calls) (start calls proposals) schedule) :
    OnTime (reached calls proposals schedule).world := by
  have hmoves := (Contract.run_shared Moves.refl (fun _ _ _ => Moves.trans) h fun t =>
    holds_program (start calls proposals).state).2
  exact hmoves.onTime fun v hv => by cases hv

/-- A proposal that is open until 10, and a vote on it by user 2. -/
def openUntilTen : Table DAOProposal.id :=
  ⟨[⟨1, 7, "p", "", .active, 5, 10, 0, 0⟩], by decide⟩

def oneVote (_ : Unit) : Call := .castVote 1 2 "yes"

/-- The requests of the vote at the given times. -/
def atTimes (times : List Time) : List (Unit × Env) := times.map fun now => ((), .good now 50)

theorem oneVote_onTime : OnTime (reached oneVote openUntilTen (atTimes [8, 9, 9, 10, 11])).world :=
  reached_onTime oneVote openUntilTen (atTimes [8, 9, 9, 10, 11]) (by decide)

/-- The deadline passes between the comparison and the stamp. -/
theorem vote_cast_late : ¬ ∀ (ι : Type) [DecidableEq ι] (calls : ι → Call)
    (proposals : Table DAOProposal.id) (schedule : List (ι × Env)),
    (schedule.map fun slot => slot.2.now).Pairwise (· ≤ ·) →
      OnTime (reached calls proposals schedule).world := by
  intro h
  have hlate := h Unit oneVote openUntilTen (atTimes [9, 10, 10, 11, 11]) (by decide)
  revert hlate
  decide

end SafetyDao.VoteDeadline
