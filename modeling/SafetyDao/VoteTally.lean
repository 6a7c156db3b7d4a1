import SafetyDao.DaoService
import Mathlib.Data.Finset.Card
import Mathlib.Algebra.BigOperators.Group.List.Basic
import Mathlib.Tactic.Linarith

/-!
# The tally counts everyone's last vote

Any number of `createProposal` and `castVote` calls run interleaved, statement by
statement. Abstractly a ballot is what a user has said last on a proposal, with the
proposer's automatic yes as what is said before anything explicit; it is read off
the committed statements alone. The table keeps one row of weight one for each
ballot, so the sums of `getResults` count users.
-/
namespace SafetyDao.VoteTally
open Dao (Shared History perform perform_eq perform_readOnly_world)

inductive Call where
  | createProposal (proposerID : UUID) (input : NewProposal)
  | castVote (proposalID userID : UUID) (vote : String)

inductive Reply where
  | createProposal (r : Except String DAOProposal)
  | castVote (r : Except String DAOVote)

def Call.program : Call → Dao Reply
  | .createProposal proposerID input =>
    Reply.createProposal <$> DaoService.createProposal proposerID input
  | .castVote proposalID userID vote =>
    Reply.castVote <$> DaoService.castVote proposalID userID vote

variable {ι : Type}

/-- The choice a user makes on a proposal by a committed upsert. -/
def explicitVote (p u : UUID) : Event DaoOp.Res ι → Option Choice
  | ⟨_, .upsertVote v, .ok _⟩ => if v.key = (p, u) then some v.vote else none
  | _ => none

/-- Whether a request is the committed automatic vote of a user on a proposal. -/
def automaticVote (p u : UUID) : Event DaoOp.Res ι → Bool
  | ⟨_, .insertAutomaticVote _ proposalID userID _, .ok _⟩ => (proposalID, userID) = (p, u)
  | _ => false

/-- The user of a committed vote statement on a proposal. -/
def voterOn (p : UUID) : Event DaoOp.Res ι → Option UUID
  | ⟨_, .upsertVote v, .ok _⟩ => if v.proposalID = p then some v.userID else none
  | ⟨_, .insertAutomaticVote _ proposalID userID _, .ok _⟩ =>
    if proposalID = p then some userID else none
  | _ => none

/-- The ballot of a user: the last explicit choice, or yes after an automatic vote. -/
def ballot (p u : UUID) (h : History ι) : Option Choice :=
  (h.findSome? (explicitVote p u)).or (if h.any (automaticVote p u) then some .yes else none)

def voters (p : UUID) (h : History ι) : Finset UUID := (h.filterMap (voterOn p)).toFinset

def votersFor (p : UUID) (c : Choice) (h : History ι) : Finset UUID :=
  (voters p h).filter (fun u => ballot p u h = some c)

theorem mem_voters {p u : UUID} {h : History ι} : u ∈ voters p h ↔ (ballot p u h).isSome := by
  have hevent : ∀ e : Event DaoOp.Res ι,
      voterOn p e = some u ↔ (explicitVote p u e).isSome ∨ automaticVote p u e = true := by
    rintro ⟨t, op, r⟩
    cases op <;> cases r <;> simp [voterOn, explicitVote, automaticVote, DAOVote.key]
  simp only [voters, List.mem_toFinset, List.mem_filterMap, hevent, ballot, Option.isSome_or,
    Bool.or_eq_true, List.findSome?_isSome_iff, apply_ite Option.isSome]
  simp only [Option.isSome_some, Option.isSome_none, Bool.if_false_right, Bool.and_true,
    decide_eq_true_eq, List.any_eq_true]
  constructor
  · rintro ⟨e, he, hx | ha⟩
    · exact .inl ⟨e, he, hx⟩
    · exact .inr ⟨e, he, ha⟩
  · rintro (⟨e, he, hx⟩ | ⟨e, he, ha⟩)
    · exact ⟨e, he, .inl hx⟩
    · exact ⟨e, he, .inr ha⟩

theorem mem_votersFor {p u : UUID} {c : Choice} {h : History ι} :
    u ∈ votersFor p c h ↔ ballot p u h = some c := by
  rw [votersFor, Finset.mem_filter, mem_voters]
  exact ⟨fun hu => hu.2, fun hu => ⟨by simp [hu], hu⟩⟩

/-- Nobody stops being a voter. -/
theorem voters_mono (p : UUID) (es h : History ι) : voters p h ⊆ voters p (es ++ h) := by
  intro u hu
  simp only [voters, List.filterMap_append, List.toFinset_append, Finset.mem_union]
  exact .inr hu

/-- Each voter is counted for exactly one choice. -/
theorem card_voters (p : UUID) (h : History ι) : (voters p h).card =
    (votersFor p .yes h).card + (votersFor p .no h).card + (votersFor p .abstain h).card := by
  have hsplit : voters p h = votersFor p .yes h ∪ votersFor p .no h ∪ votersFor p .abstain h := by
    ext u
    simp only [Finset.mem_union, mem_votersFor, mem_voters]
    cases hb : ballot p u h with
    | none => simp
    | some c => cases c <;> simp
  have hdisj : ∀ c d, c ≠ d → Disjoint (votersFor p c h) (votersFor p d h) := by
    intro c d hcd
    refine Finset.disjoint_left.mpr fun u hc hd => hcd ?_
    rw [mem_votersFor] at hc hd
    rw [hc, Option.some.injEq] at hd
    exact hd
  rw [hsplit, Finset.card_union_of_disjoint, Finset.card_union_of_disjoint]
  · exact hdisj _ _ (by simp)
  · exact Finset.disjoint_union_left.mpr ⟨hdisj _ _ (by simp), hdisj _ _ (by simp)⟩

section Ballots

variable (p u : UUID) (h : History ι)

theorem ballot_cons_other {e : Event DaoOp.Res ι} (hx : explicitVote p u e = none)
    (ha : automaticVote p u e = false) : ballot p u (e :: h) = ballot p u h := by
  simp [ballot, hx, ha]

/-- An explicit vote replaces whatever the ballot was. -/
theorem ballot_cons_explicit {e : Event DaoOp.Res ι} {c : Choice}
    (hx : explicitVote p u e = some c) : ballot p u (e :: h) = some c := by
  simp [ballot, hx]

/-- An automatic vote fills an empty ballot and changes no other. -/
theorem ballot_cons_automatic {e : Event DaoOp.Res ι} (hx : explicitVote p u e = none)
    (ha : automaticVote p u e = true) :
    ballot p u (e :: h) = some ((ballot p u h).getD .yes) := by
  simp only [ballot, List.findSome?_cons, hx, List.any_cons, ha, Bool.true_or, if_true]
  cases h.findSome? (explicitVote p u) with
  | some c => rfl
  | none =>
    by_cases hany : h.any (automaticVote p u) = true
    · simp [hany]
    · simp [hany]

end Ballots

/-- The table and the ballots of the committed statements agree. -/
structure Inv (s : Shared ι) : Prop where
  ballots : ∀ p u, (s.world.votes.find? (p, u)).map DAOVote.vote = ballot p u s.history
  weight : ∀ v ∈ s.world.votes.rows, v.weight = 1
  proposer : ∀ p u, ∀ e ∈ s.history, automaticVote p u e = true →
    ∃ prop, s.world.proposals.find? p = some prop ∧ prop.proposerID = u

/-- How the shared state moves: proposals stay as they are, the history grows, and
the table keeps agreeing with the ballots. -/
structure Moves (s s' : Shared ι) : Prop where
  proposals : ∀ p prop, s.world.proposals.find? p = some prop →
    s'.world.proposals.find? p = some prop
  history : ∃ es, s'.history = es ++ s.history
  inv : Inv s → Inv s'

namespace Moves

theorem refl (s : Shared ι) : Moves s s := ⟨fun _ _ h => h, ⟨[], rfl⟩, id⟩

theorem trans {s₁ s₂ s₃ : Shared ι} (h₁ : Moves s₁ s₂) (h₂ : Moves s₂ s₃) : Moves s₁ s₃ where
  proposals p prop h := h₂.proposals p prop (h₁.proposals p prop h)
  history := by
    obtain ⟨es, hes⟩ := h₁.history
    obtain ⟨fs, hfs⟩ := h₂.history
    exact ⟨fs ++ es, by rw [hfs, hes, List.append_assoc]⟩
  inv h := h₂.inv (h₁.inv h)

end Moves

section Steps

variable {s s' : Shared ι} {e : Event DaoOp.Res ι}

/-- A request that is no committed vote statement and leaves the votes alone. -/
theorem moves_of_votes_eq (hh : s'.history = e :: s.history)
    (hv : s'.world.votes = s.world.votes)
    (hp : ∀ p prop, s.world.proposals.find? p = some prop →
      s'.world.proposals.find? p = some prop)
    (hx : ∀ p u, explicitVote p u e = none) (ha : ∀ p u, automaticVote p u e = false) :
    Moves s s' where
  proposals := hp
  history := ⟨[e], hh⟩
  inv h := by
    refine ⟨fun p u => ?_, ?_, fun p u f hf hauto => ?_⟩
    · rw [hv, hh, ballot_cons_other p u s.history (hx p u) (ha p u)]
      exact h.ballots p u
    · rw [hv]
      exact h.weight
    · rw [hh, List.mem_cons] at hf
      rcases hf with rfl | hf
      · rw [ha] at hauto
        cases hauto
      · obtain ⟨prop, hfind, huser⟩ := h.proposer p u f hf hauto
        exact ⟨prop, hp p prop hfind, huser⟩

/-- A vote statement that leaves the ballot of its pair as `c`, and every other
pair as it was. -/
theorem moves_of_vote (k : UUID × UUID) (c : Choice) (hh : s'.history = e :: s.history)
    (hp : s'.world.proposals = s.world.proposals)
    (hat : (s'.world.votes.find? k).map DAOVote.vote = some c)
    (hne : ∀ k', k' ≠ k → s'.world.votes.find? k' = s.world.votes.find? k')
    (hweight : (∀ v ∈ s.world.votes.rows, v.weight = 1) → ∀ v ∈ s'.world.votes.rows, v.weight = 1)
    (hballot : Inv s → ballot k.1 k.2 (e :: s.history) = some c)
    (hx : ∀ p u, (p, u) ≠ k → explicitVote p u e = none)
    (ha : ∀ p u, automaticVote p u e = true → (p, u) = k ∧
      ∃ prop, s.world.proposals.find? p = some prop ∧ prop.proposerID = u) : Moves s s' where
  proposals p prop h := by rw [hp]; exact h
  history := ⟨[e], hh⟩
  inv h := by
    refine ⟨fun p u => ?_, hweight h.weight, fun p u f hf hauto => ?_⟩
    · rw [hh]
      by_cases hk : (p, u) = k
      · subst hk
        rw [hballot h, hat]
      · have hauto : automaticVote p u e = false := by
          rw [← Bool.not_eq_true]
          exact fun ht => hk (ha p u ht).1
        rw [hne _ hk, ballot_cons_other p u s.history (hx p u hk) hauto]
        exact h.ballots p u
    · rw [hp]
      rw [hh, List.mem_cons] at hf
      rcases hf with rfl | hf
      · exact (ha p u hauto).2
      · exact h.proposer p u f hf hauto

/-- A request that only reads moves nothing. -/
theorem moves_readOnly (t : ι) (s : Shared ι) (op : DaoOp) (env : Env)
    (h : DaoStore.readOnly op = true) : Moves s (perform t s op env).1 := by
  have hw := perform_readOnly_world t s op env h
  refine moves_of_votes_eq rfl (by rw [hw]) (by rw [hw]; exact fun _ _ hp => hp) ?_ ?_ <;>
    intro p u <;> cases op <;> first | rfl | cases h

theorem moves_insertProposal (t : ι) (s : Shared ι) (proposal : DAOProposal) (env : Env) :
    Moves s (perform t s (.insertProposal proposal) env).1 := by
  refine moves_of_votes_eq rfl ?_ ?_ (fun _ _ => rfl) (fun _ _ => rfl)
  · rcases DaoStore.exec_insertProposal s.world proposal env with ⟨e, he⟩ | ⟨tbl, -, he⟩ <;>
      rw [perform_eq, he]
  · intro p prop hp
    rcases DaoStore.exec_insertProposal s.world proposal env with ⟨e, he⟩ | ⟨tbl, ht, he⟩
    · rw [perform_eq, he]
      exact hp
    · rw [perform_eq, he]
      have hfresh := (Table.insert_eq_some.mp ht).1
      rw [Table.find?_insert ht, if_neg]
      · exact hp
      · rintro rfl
        rw [hfresh] at hp
        cases hp

/-- The automatic vote, issued for the proposer of an existing proposal. -/
theorem moves_insertAutomaticVote (t : ι) {s : Shared ι} {id p u : UUID} (votedAt : Time)
    (hprop : ∃ prop, s.world.proposals.find? p = some prop ∧ prop.proposerID = u) (env : Env) :
    Moves s (perform t s (.insertAutomaticVote id p u votedAt) env).1 := by
  have hauto : ∀ p' u' : UUID, automaticVote p' u' (⟨t, .insertAutomaticVote id p u votedAt,
      .ok ()⟩ : Event DaoOp.Res ι) = true → (p', u') = (p, u) ∧
        ∃ prop, s.world.proposals.find? p' = some prop ∧ prop.proposerID = u' := by
    intro p' u' h
    simp only [automaticVote, decide_eq_true_eq, Prod.mk.injEq] at h
    obtain ⟨rfl, rfl⟩ := h
    exact ⟨rfl, hprop⟩
  have hballot : ballot p u ((⟨t, .insertAutomaticVote id p u votedAt, .ok ()⟩ :
      Event DaoOp.Res ι) :: s.history) = some ((ballot p u s.history).getD .yes) :=
    ballot_cons_automatic p u s.history rfl (by simp [automaticVote])
  rcases DaoStore.exec_insertAutomaticVote s.world id p u votedAt env with
    ⟨e, he⟩ | ⟨tbl, ht, he⟩ | ⟨⟨row, hrow⟩, he⟩
  · rw [perform_eq, he]
    exact moves_of_votes_eq rfl rfl (fun _ _ h => h) (fun _ _ => rfl) (fun _ _ => rfl)
  · rw [perform_eq, he]
    refine moves_of_vote (p, u) .yes rfl rfl ?_ ?_ ?_ ?_ (fun _ _ _ => rfl) hauto
    · rw [Table.find?_insert ht]
      simp [DAOVote.key]
    · intro k hk
      rw [Table.find?_insert ht]
      exact if_neg (Ne.symm hk)
    · intro hw v hv
      rcases (Table.mem_insert ht).mp hv with hv | rfl
      · exact hw v hv
      · rfl
    · intro h
      have hnone : ballot p u s.history = none := by
        rw [← h.ballots p u]
        exact congrArg (Option.map DAOVote.vote) (Table.insert_eq_some.mp ht).1
      rw [hballot, hnone]
      rfl
  · rw [perform_eq, he]
    refine moves_of_vote (p, u) row.vote rfl rfl (by rw [hrow]; rfl) (fun _ _ => rfl)
      (fun hw => hw) ?_ (fun _ _ _ => rfl) hauto
    intro h
    have hsome : ballot p u s.history = some row.vote := by
      rw [← h.ballots p u, hrow]
      rfl
    rw [hballot, hsome]
    rfl

/-- An upsert of weight one makes its choice the ballot. -/
theorem moves_upsertVote (t : ι) (s : Shared ι) {v : DAOVote} (hweight : v.weight = 1) (env : Env) :
    Moves s (perform t s (.upsertVote v) env).1 := by
  have hx : ∀ p u : UUID, (p, u) ≠ v.key →
      explicitVote p u (⟨t, .upsertVote v, .ok ()⟩ : Event DaoOp.Res ι) = none := by
    intro p u hk
    simp only [explicitVote, if_neg (Ne.symm hk)]
  have hballot : ballot v.key.1 v.key.2 ((⟨t, .upsertVote v, .ok ()⟩ : Event DaoOp.Res ι) ::
      s.history) = some v.vote :=
    ballot_cons_explicit _ _ s.history (by simp [explicitVote])
  rcases DaoStore.exec_upsertVote s.world v env with ⟨e, he⟩ | ⟨tbl, ht, he⟩ | ⟨⟨row, hrow⟩, he⟩
  · rw [perform_eq, he]
    exact moves_of_votes_eq rfl rfl (fun _ _ h => h) (fun _ _ => rfl) (fun _ _ => rfl)
  · rw [perform_eq, he]
    refine moves_of_vote v.key v.vote rfl rfl ?_ ?_ ?_ (fun _ => hballot) hx
      (fun _ _ h => by cases h)
    · rw [Table.find?_insert ht, if_pos rfl]
      rfl
    · intro k hk
      rw [Table.find?_insert ht, if_neg (Ne.symm hk)]
    · intro hw x hxm
      rcases (Table.mem_insert ht).mp hxm with hxm | rfl
      · exact hw x hxm
      · exact hweight
  · rw [perform_eq, he]
    refine moves_of_vote v.key v.vote rfl rfl ?_ ?_ ?_ (fun _ => hballot) hx
      (fun _ _ h => by cases h)
    · rw [Table.find?_update, if_pos rfl, hrow]
      rfl
    · intro k hk
      rw [Table.find?_update, if_neg hk]
    · intro hw x hxm
      rw [Table.mem_update] at hxm
      obtain ⟨r, hr, rfl⟩ := hxm
      split
      · exact hweight
      · exact hw r hr

end Steps

section Contracts

variable {α : Type}

/-- Every request is admitted. -/
def anyRequest (_ : ι) (_ : Shared ι) (_ : DaoOp) (_ : Env) : Prop := True

/-- All threads move the state in the same way and rely on nothing more. -/
def contract : Contract (Shared ι) α := ⟨Moves, Moves, fun _ _ => True⟩

variable {t : ι}

theorem holds_done (a : α) (s : Shared ι) :
    Contract.Holds perform anyRequest t contract (.done a : Dao α) s := fun _ _ => trivial

/-- A request that only reads, under an assertion that every move keeps. -/
theorem holds_readOnly {P : Shared ι → Prop} (hP : ∀ s s', Moves s s' → P s → P s') {op : DaoOp}
    (hop : DaoStore.readOnly op = true) {next : op.Res → Dao α} {s : Shared ι} (hs : P s)
    (hnext : ∀ r s', P s' → Contract.Holds perform anyRequest t contract (next r) s') :
    Contract.Holds perform anyRequest t contract (.request op next) s :=
  Contract.Holds.of_moves hP (fun s env => moves_readOnly t s op env hop) hs
    fun _ _ _ _ hs' => hnext _ _ hs'

/-- What a proposal is once stored stays in the database. -/
theorem moves_keep_proposal (p u : UUID) (s s' : Shared ι) (hm : Moves s s')
    (h : ∃ prop, s.world.proposals.find? p = some prop ∧ prop.proposerID = u) :
    ∃ prop, s'.world.proposals.find? p = some prop ∧ prop.proposerID = u := by
  obtain ⟨prop, hf, hu⟩ := h
  exact ⟨prop, hm.proposals p prop hf, hu⟩

theorem holds_createProposal (proposerID : UUID) (input : NewProposal) (s : Shared ι) :
    Contract.Holds perform anyRequest t contract
      (DaoService.createProposal proposerID input) s := by
  unfold DaoService.createProposal
  split
  · exact holds_done _ _
  simp only [Program.call_bind, Program.pure_eq]
  refine holds_readOnly (Contract.keeps_true _) rfl trivial fun now s₁ _ => ?_
  split
  · exact holds_done _ _
  refine holds_readOnly (Contract.keeps_true _) rfl trivial fun id s₂ _ => ?_
  refine holds_readOnly (Contract.keeps_true _) rfl trivial fun createdAt s₃ _ => ?_
  refine holds_readOnly (Contract.keeps_true _) rfl trivial fun updatedAt s₄ _ => ?_
  intro s₅ _ env _
  refine ⟨moves_insertProposal t s₅ _ env, ?_⟩
  rcases DaoStore.exec_insertProposal s₅.world _ env with ⟨e, he⟩ | ⟨tbl, ht, he⟩
  · rw [perform_eq, he]
    exact holds_done _ _
  · rw [perform_eq, he]
    have hstored : ∃ prop, tbl.find? id = some prop ∧ prop.proposerID = proposerID := by
      rw [Table.find?_insert ht, if_pos rfl]
      exact ⟨_, rfl, rfl⟩
    refine holds_readOnly (moves_keep_proposal id proposerID) rfl hstored fun voteID s₆ hs₆ => ?_
    refine holds_readOnly (moves_keep_proposal id proposerID) rfl hs₆ fun votedAt s₇ hs₇ => ?_
    refine Contract.Holds.of_stable (moves_keep_proposal id proposerID) hs₇ fun s₈ hs₈ env' _ => ?_
    exact ⟨moves_insertAutomaticVote t votedAt hs₈ env', holds_done _ _⟩

theorem holds_castVote (proposalID userID : UUID) (vote : String) (s : Shared ι) :
    Contract.Holds perform anyRequest t contract
      (DaoService.castVote proposalID userID vote) s := by
  unfold DaoService.castVote DaoService.getProposal
  split
  · exact holds_done _ _
  simp only [Program.call_bind, Program.request_bind, Program.pure_eq]
  refine holds_readOnly (Contract.keeps_true _) rfl trivial fun r s₁ _ => ?_
  cases r with
  | error e => exact holds_done _ _
  | ok proposal =>
  simp only [Program.done_bind]
  split
  · exact holds_done _ _
  refine holds_readOnly (Contract.keeps_true _) rfl trivial fun now s₂ _ => ?_
  split
  · exact holds_done _ _
  refine holds_readOnly (Contract.keeps_true _) rfl trivial fun id s₃ _ => ?_
  refine holds_readOnly (Contract.keeps_true _) rfl trivial fun votedAt s₄ _ => ?_
  intro s₅ _ env _
  refine ⟨moves_upsertVote t s₅ rfl env, ?_⟩
  dsimp only
  split <;> exact holds_done _ _

theorem holds_program (call : Call) (s : Shared ι) :
    Contract.Holds perform anyRequest t contract call.program s := by
  cases call with
  | createProposal proposerID input =>
    exact (holds_createProposal proposerID input s).bind Moves.refl fun _ s _ => holds_done _ s
  | castVote proposalID userID vote =>
    exact (holds_castVote proposalID userID vote s).bind Moves.refl fun _ s _ => holds_done _ s

end Contracts

section Callers

/-- Who asks for a vote statement: an upsert is of the vote that the caller casts, and an
automatic vote is of the caller who creates a proposal. -/
def AskedBy (call : Call) : DaoOp → Prop
  | .upsertVote v => ∃ vote, call = .castVote v.proposalID v.userID vote ∧
      validVotes vote = some v.vote
  | .insertAutomaticVote _ _ userID _ => ∃ input, call = .createProposal userID input
  | _ => True

theorem issues_createProposal (proposerID : UUID) (input : NewProposal) :
    (DaoService.createProposal proposerID input).Issues
      (AskedBy (.createProposal proposerID input)) := by
  unfold DaoService.createProposal
  split
  · trivial
  simp only [Program.call_bind, Program.pure_eq]
  refine .request trivial fun now => ?_
  split
  · trivial
  refine .request trivial fun id => .request trivial fun createdAt =>
    .request trivial fun updatedAt => .request trivial fun inserted => ?_
  cases inserted with
  | error e => trivial
  | ok _ =>
    exact .request trivial fun voteID => .request trivial fun votedAt =>
      .request ⟨input, rfl⟩ fun _ => trivial

theorem issues_castVote (proposalID userID : UUID) (vote : String) :
    (DaoService.castVote proposalID userID vote).Issues
      (AskedBy (.castVote proposalID userID vote)) := by
  unfold DaoService.castVote DaoService.getProposal
  cases hvote : validVotes vote with
  | none => trivial
  | some choice =>
  simp only [Program.call_bind, Program.request_bind, Program.pure_eq]
  refine .request trivial fun found => ?_
  cases found with
  | error e => trivial
  | ok proposal =>
  simp only [Program.done_bind]
  split
  · trivial
  refine .request trivial fun now => ?_
  split
  · trivial
  refine .request trivial fun id => .request trivial fun votedAt =>
    .request ⟨vote, rfl, hvote⟩ fun upserted => ?_
  cases upserted <;> trivial

theorem issues_program (call : Call) : call.program.Issues (AskedBy call) := by
  cases call with
  | createProposal proposerID input => exact .map (issues_createProposal proposerID input) _
  | castVote proposalID userID vote => exact .map (issues_castVote proposalID userID vote) _

end Callers

section Runs

/-- The pool at the start: some proposals, and no vote yet. -/
def start (calls : ι → Call) (proposals : Table DAOProposal.id) :
    Pool DaoOp.Res (Shared ι) ι Reply :=
  ⟨⟨⟨proposals, .empty⟩, []⟩, fun t => (calls t).program⟩

theorem inv_start (calls : ι → Call) (proposals : Table DAOProposal.id) :
    Inv (start calls proposals).state where
  ballots _ _ := rfl
  weight _ h := by cases h
  proposer _ _ _ h := by cases h

variable [DecidableEq ι]

/-- The tables and the requests performed on them at the end of a run. -/
def reached (calls : ι → Call) (proposals : Table DAOProposal.id) (schedule : List (ι × Env)) :
    Shared ι := ((start calls proposals).run perform schedule).state

/-- Every prefix of a run keeps the invariant, and what follows moves on from it. -/
theorem reached_append (calls : ι → Call) (proposals : Table DAOProposal.id)
    (xs ys : List (ι × Env)) :
    Inv (reached calls proposals xs) ∧
      Moves (reached calls proposals xs) (reached calls proposals (xs ++ ys)) := by
  have hsound : ∀ (pool : Pool DaoOp.Res (Shared ι) ι Reply) (zs : List (ι × Env)),
      (∀ t, Contract.Holds perform anyRequest t contract (pool.threads t) pool.state) →
        (∀ t, Contract.Holds perform anyRequest t contract ((pool.run perform zs).threads t)
          (pool.run perform zs).state) ∧ Moves pool.state (pool.run perform zs).state :=
    fun pool zs h => Contract.run_shared Moves.refl (fun _ _ _ h₁ h₂ => h₁.trans h₂)
      (Pool.guarded_of_forall (fun _ _ _ _ => trivial) pool zs) h
  obtain ⟨hholds, hmoves⟩ := hsound (start calls proposals) xs fun t => holds_program (calls t) _
  refine ⟨hmoves.inv (inv_start calls proposals), ?_⟩
  rw [reached, reached, Pool.run_append]
  exact (hsound _ ys hholds).2

theorem reached_asked (calls : ι → Call) (proposals : Table DAOProposal.id)
    (xs : List (ι × Env)) : ∀ e ∈ (reached calls proposals xs).history,
      AskedBy (calls e.thread) e.op := by
  intro e he
  have hstart : ∀ t, (calls t).program.After
      (requestsOf t (start calls proposals).state.history)
      ((start calls proposals).threads t) := fun t => .start _
  have hafter := Pool.after_run DaoStore.exec hstart xs e.thread
  exact hafter.issues (issues_program (calls e.thread)) e.request (mem_requestsOf.mpr he)

end Runs

section Results

variable {s : Shared ι}

/-- A user has at most one vote on a proposal. -/
theorem votes_nodup (w : DaoStore) (p : UUID) :
    ((w.votes.rows.filter (fun v => v.proposalID = p)).map DAOVote.userID).Nodup := by
  have hkeys : ((w.votes.rows.filter (fun v => v.proposalID = p)).map DAOVote.key).Nodup :=
    w.votes.nodup.sublist (List.filter_sublist.map _)
  have hpairs : (w.votes.rows.filter (fun v => v.proposalID = p)).map DAOVote.key =
      ((w.votes.rows.filter (fun v => v.proposalID = p)).map DAOVote.userID).map (p, ·) := by
    rw [List.map_map]
    refine List.map_congr_left fun v hv => ?_
    simp only [List.mem_filter, decide_eq_true_eq] at hv
    simp [DAOVote.key, hv.2]
  rw [hpairs] at hkeys
  exact hkeys.of_map _

theorem Inv.ballot_iff (h : Inv s) {p u : UUID} {c : Choice} : ballot p u s.history = some c ↔
    ∃ v ∈ s.world.votes.rows, v.proposalID = p ∧ v.userID = u ∧ v.vote = c := by
  rw [← h.ballots p u, Option.map_eq_some_iff]
  simp only [Table.find?_eq_some, DAOVote.key, Prod.mk.injEq, and_assoc]

/-- The weights of the votes for a choice add up to the number of its voters. -/
theorem Inv.sumWeights_eq (h : Inv s) (p : UUID) (c : Choice) :
    s.world.sumWeights p c = (votersFor p c s.history).card := by
  have hsum : ∀ l : List DAOVote, (∀ v ∈ l, v.weight = 1) →
      (l.map (fun v => if v.vote = c then v.weight else 0)).sum =
        ((l.filter (fun v => v.vote = c)).length : ℤ) := by
    intro l hl
    induction l with
    | nil => rfl
    | cons v l ih =>
      have hv := hl v (by simp)
      rw [List.map_cons, List.sum_cons, ih fun x hx => hl x (by simp [hx])]
      by_cases hc : v.vote = c
      · simp only [hc, hv, if_true, decide_true, List.filter_cons_of_pos, List.length_cons]
        omega
      · simp [hc]
  have hnodup : (((s.world.votes.rows.filter (fun v => v.proposalID = p)).filter
      (fun v => v.vote = c)).map DAOVote.userID).Nodup :=
    (votes_nodup s.world p).sublist (List.filter_sublist.map _)
  have hset : votersFor p c s.history = (((s.world.votes.rows.filter
      (fun v => v.proposalID = p)).filter (fun v => v.vote = c)).map DAOVote.userID).toFinset := by
    ext u
    rw [mem_votersFor, h.ballot_iff]
    simp only [List.mem_toFinset, List.mem_map, List.mem_filter, decide_eq_true_eq]
    constructor
    · rintro ⟨v, hv, hp, hu, hc⟩
      exact ⟨v, ⟨⟨hv, hp⟩, hc⟩, hu⟩
    · rintro ⟨v, ⟨⟨hv, hp⟩, hc⟩, hu⟩
      exact ⟨v, hv, hp, hu, hc⟩
  rw [DaoStore.sumWeights, hsum _ fun v hv => h.weight v (List.mem_filter.mp hv).1, hset,
    List.toFinset_card_of_nodup hnodup, List.length_map]

/-- What `getResults` answers when it succeeds. -/
theorem ensures_getResults (t : ι) (p : UUID) (s : Shared ι) :
    Program.Ensures (perform t) (fun r _ => ∀ res, r = .ok res →
      ∃ prop, s.world.proposals.find? p = some prop ∧
        res = DaoService.voteResults prop (s.world.tallyVotes p))
      (DaoService.getResults p) s := by
  simp only [DaoService.getResults, DaoService.getProposal, Program.call_bind, Program.request_bind,
    Program.pure_eq]
  intro env
  have hworld := perform_readOnly_world t s (.selectProposal p) env rfl
  cases hr : (perform t s (.selectProposal p) env).2 with
  | error e => exact fun res h => by cases h
  | ok prop =>
    have hfind := DaoStore.exec_selectProposal hr
    intro env'
    cases htally : (perform t (perform t s (.selectProposal p) env).1 (.tallyVotes p) env').2 with
    | error e => exact fun res h => by cases h
    | ok tally =>
      intro res h
      refine ⟨prop, hfind, ?_⟩
      have hval := DaoStore.exec_tallyVotes htally
      rw [hworld] at hval
      rw [← hval]
      exact (Except.ok.inj h).symm

theorem getResults_ok {t : ι} {p : UUID} {s s' : Shared ι} {res : VoteResults}
    (h : (DaoService.getResults p).Completes (perform t) s (.ok res) s') :
    ∃ prop, s.world.proposals.find? p = some prop ∧
      res = DaoService.voteResults prop (s.world.tallyVotes p) :=
  (ensures_getResults t p s).completes h res rfl

/-- Unless a statement fails, `getResults` reports on every proposal there is. -/
theorem getResults_completes (t : ι) {p : UUID} {s : Shared ι} {prop : DAOProposal}
    (h : s.world.proposals.find? p = some prop) :
    ∃ res s', (DaoService.getResults p).Completes (perform t) s (.ok res) s' := by
  refine ⟨DaoService.voteResults prop (s.world.tallyVotes p), (perform t (perform t s
    (.selectProposal p) (.good 0 0)).1 (.tallyVotes p) (.good 0 0)).1, [.good 0 0, .good 0 0], ?_⟩
  simp only [DaoService.getResults, DaoService.getProposal, Program.call_bind, Program.request_bind,
    Program.pure_eq, Program.run, perform_eq, DaoStore.exec, Env.attempt, Env.good, h, queryRow]
  rfl

end Results

/-- Vote statements are those that callers have asked for, the table holds one row for each voter
of a proposal, automatic votes are the proposers', and `getResults` counts every voter under the
last choice. -/
structure TalliesLastVotes (calls : ι → Call) (s : Shared ι) : Prop where
  asked : ∀ e ∈ s.history, AskedBy (calls e.thread) e.op
  one_row : ∀ p,
    ((s.world.votes.rows.filter (fun v => v.proposalID = p)).map DAOVote.userID).Nodup
  proposer : ∀ p u, ∀ e ∈ s.history, automaticVote p u e = true →
    ∃ prop, s.world.proposals.find? p = some prop ∧ prop.proposerID = u
  reports : ∀ t p res s', (DaoService.getResults p).Completes (perform t) s (.ok res) s' →
    res.yesVotes = (votersFor p .yes s.history).card ∧
    res.noVotes = (votersFor p .no s.history).card ∧
    res.abstentions = (votersFor p .abstain s.history).card ∧
    res.totalVotes = res.yesVotes + res.noVotes + res.abstentions ∧
    res.totalVotes = (voters p s.history).card
  returns : ∀ t p prop, s.world.proposals.find? p = some prop →
    ∃ res s', (DaoService.getResults p).Completes (perform t) s (.ok res) s'

theorem Inv.talliesLastVotes {calls : ι → Call} {s : Shared ι} (h : Inv s)
    (hasked : ∀ e ∈ s.history, AskedBy (calls e.thread) e.op) : TalliesLastVotes calls s where
  asked := hasked
  one_row p := votes_nodup s.world p
  proposer := h.proposer
  reports t p res s' hres := by
    obtain ⟨prop, -, rfl⟩ := getResults_ok hres
    have hcard := card_voters p s.history
    simp only [DaoService.voteResults, DaoStore.tallyVotes, h.sumWeights_eq, true_and]
    omega
  returns t p prop hf := getResults_completes t hf

/-- In every reachable state of every interleaving the results count each user's
last vote, and along the run a total never falls and a quorum stays met. -/
theorem run_talliesLastVotes [DecidableEq ι] (calls : ι → Call)
    (proposals : Table DAOProposal.id) (xs ys : List (ι × Env)) :
    TalliesLastVotes calls (reached calls proposals xs) ∧
      ∀ t p before after s s',
        (DaoService.getResults p).Completes (perform t) (reached calls proposals xs)
          (.ok before) s →
        (DaoService.getResults p).Completes (perform t) (reached calls proposals (xs ++ ys))
          (.ok after) s' →
        before.totalVotes ≤ after.totalVotes ∧
          (before.quorumMet = true → after.quorumMet = true) := by
  obtain ⟨hinv, hmoves⟩ := reached_append calls proposals xs ys
  have hxs := hinv.talliesLastVotes (reached_asked calls proposals xs)
  have hys := (hmoves.inv hinv).talliesLastVotes (reached_asked calls proposals (xs ++ ys))
  refine ⟨hxs, fun t p before after s s' hbefore hafter => ?_⟩
  have htotal : before.totalVotes ≤ after.totalVotes := by
    obtain ⟨-, -, -, -, hb⟩ := hxs.reports t p before s hbefore
    obtain ⟨-, -, -, -, ha⟩ := hys.reports t p after s' hafter
    obtain ⟨es, hes⟩ := hmoves.history
    rw [hb, ha, hes]
    exact_mod_cast Finset.card_le_card (voters_mono p es _)
  refine ⟨htotal, fun hmet => ?_⟩
  obtain ⟨prop, hprop, rfl⟩ := getResults_ok hbefore
  obtain ⟨prop', hprop', rfl⟩ := getResults_ok hafter
  have hsame := hmoves.proposals p prop hprop
  rw [hprop', Option.some.injEq] at hsame
  subst hsame
  simp only [DaoService.voteResults, decide_eq_true_eq] at hmet htotal ⊢
  exact le_trans hmet htotal

section Votes

/-- The calls of the proposer, and that of another user. -/
inductive Caller where
  | create
  | abstain
  | no
  deriving DecidableEq

/-- A proposal with a quorum of two, an explicit vote of its proposer and one of another user. -/
def threeCalls : Caller → Call
  | .create => .createProposal 7 ⟨"hours", "", 2, 100⟩
  | .abstain => .castVote 100 7 "abstain"
  | .no => .castVote 100 8 "no"

/-- The proposer's explicit vote is stored before the automatic one. -/
def threeSchedule : List (Caller × Env) :=
  List.replicate 5 (.create, .good 10 100) ++ List.replicate 5 (.abstain, .good 10 101) ++
    List.replicate 3 (.create, .good 10 100) ++ List.replicate 5 (.no, .good 10 102)

/-- The explicit vote of the proposer counts, and each of the two users once. -/
theorem run_talliesLastVotes_three : TalliesLastVotes threeCalls
      (reached threeCalls .empty threeSchedule) ∧
    votersFor 100 .yes (reached threeCalls .empty threeSchedule).history = ∅ ∧
    votersFor 100 .no (reached threeCalls .empty threeSchedule).history = {8} ∧
    votersFor 100 .abstain (reached threeCalls .empty threeSchedule).history = {7} ∧
    voters 100 (reached threeCalls .empty threeSchedule).history = {7, 8} :=
  ⟨(run_talliesLastVotes threeCalls .empty threeSchedule []).1, by decide +kernel,
    by decide +kernel, by decide +kernel, by decide +kernel⟩

end Votes

end SafetyDao.VoteTally
