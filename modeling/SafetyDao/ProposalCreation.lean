import SafetyDao.VoteTally

/-!
# What a failing statement leaves of a new proposal

`createProposal` writes the proposal and the proposer's vote in two statements
without a transaction. The first one failing is an error and leaves both tables
alone; the second one failing is logged, and the proposal stays without the vote.
-/
namespace SafetyDao.ProposalCreation
open Dao (Shared History perform perform_eq perform_readOnly_world)
open VoteTally (Call automaticVote voters mem_voters reached reached_append)

variable {ι : Type}

/-- An error with the tables as they were, or the proposal with both rows. -/
def AllOrNothing (proposerID : UUID) (w w' : DaoStore) : Except String DAOProposal → Prop
  | .error _ => w' = w
  | .ok p => w'.proposals.find? p.id = some p ∧ p.proposerID = proposerID ∧
    (w'.votes.find? (p.id, proposerID)).isSome

/-- An error with the tables as they were, or the proposal with its row and with a
statement for the proposer's vote: the vote is there if the statement committed, and
if it failed, the votes are as they were. -/
def AllButVote (proposerID : UUID) (s s' : Shared ι) : Except String DAOProposal → Prop
  | .error _ => s'.world = s.world
  | .ok p => s'.world.proposals.find? p.id = some p ∧ p.proposerID = proposerID ∧
    ∃ es, s'.history = es ++ s.history ∧
      (∃ e ∈ es, ∃ id votedAt, e.op = .insertAutomaticVote id p.id proposerID votedAt) ∧
      (es.any (automaticVote p.id proposerID) = true →
        (s'.world.votes.find? (p.id, proposerID)).isSome) ∧
      (es.any (automaticVote p.id proposerID) = false → s'.world.votes = s.world.votes)

section Statements

/-- Since `s` the tables have become `w`, without an automatic vote. -/
structure Unvoted (s : Shared ι) (w : DaoStore) (s' : Shared ι) : Prop where
  world : s'.world = w
  history : ∃ es, s'.history = es ++ s.history ∧ ∀ p u, es.any (automaticVote p u) = false

theorem Unvoted.refl (s : Shared ι) : Unvoted s s.world s := ⟨rfl, [], rfl, fun _ _ => rfl⟩

theorem Unvoted.cons {s s₁ s₂ : Shared ι} {w w' : DaoStore} {e : Event DaoOp.Res ι}
    (h : Unvoted s w s₁) (hw : s₂.world = w') (hh : s₂.history = e :: s₁.history)
    (he : ∀ p u, automaticVote p u e = false) : Unvoted s w' s₂ where
  world := hw
  history := by
    obtain ⟨es, hes, hany⟩ := h.history
    refine ⟨e :: es, by rw [hh, hes, List.cons_append], fun p u => ?_⟩
    rw [List.any_cons, he, hany, Bool.false_or]

variable {t : ι} {α : Type} {post : α → Shared ι → Prop} {s s₁ : Shared ι} {w : DaoStore}

/-- Reading the clock or drawing an identifier. -/
theorem ensures_draw {op : DaoOp} (hop : op = .timeNow ∨ op = .newUUID) {next : op.Res → Dao α}
    (h : Unvoted s w s₁)
    (hnext : ∀ r s₂, Unvoted s w s₂ → Program.Ensures (perform t) post (next r) s₂) :
    Program.Ensures (perform t) post (.request op next) s₁ := by
  intro env
  have hro : DaoStore.readOnly op = true := by rcases hop with rfl | rfl <;> rfl
  refine hnext _ _ (h.cons ((perform_readOnly_world t s₁ op env hro).trans h.world) rfl ?_)
  rcases hop with rfl | rfl <;> exact fun _ _ => rfl

/-- The INSERT of the proposal fails, or adds its row. -/
theorem ensures_insertProposal {proposal : DAOProposal} {next : Except String Unit → Dao α}
    (h : Unvoted s w s₁)
    (hfailed : ∀ e s₂, Unvoted s w s₂ → Program.Ensures (perform t) post (next (.error e)) s₂)
    (hstored : ∀ tbl s₂, w.proposals.insert proposal = some tbl →
      Unvoted s { w with proposals := tbl } s₂ →
        Program.Ensures (perform t) post (next (.ok ())) s₂) :
    Program.Ensures (perform t) post (.request (.insertProposal proposal) next) s₁ := by
  intro env
  rcases DaoStore.exec_insertProposal s₁.world proposal env with ⟨e, he⟩ | ⟨tbl, ht, he⟩
  · rw [perform_eq, he]
    exact hfailed e _ (h.cons h.world rfl fun _ _ => rfl)
  · rw [perform_eq, he]
    rw [h.world] at ht
    exact hstored tbl _ ht (h.cons (by rw [h.world]) rfl fun _ _ => rfl)

/-- The vote statement commits and the vote is there, or it fails and the votes are
as they were. -/
theorem allButVote_insertAutomaticVote {p : DAOProposal} {proposals : Table DAOProposal.id}
    (h : Unvoted s { s.world with proposals := proposals } s₁) (hp : proposals.find? p.id = some p)
    (id : UUID) (votedAt : Time) (env : Env) :
    AllButVote p.proposerID s
      (perform t s₁ (.insertAutomaticVote id p.id p.proposerID votedAt) env).1 (.ok p) := by
  obtain ⟨es, hes, hany⟩ := h.history
  have hfind : s₁.world.proposals.find? p.id = some p := by rw [h.world, hp]
  have hvotes : s₁.world.votes = s.world.votes := by rw [h.world]
  have hissued : ∀ r, ∃ e' ∈ (⟨t, .insertAutomaticVote id p.id p.proposerID votedAt, r⟩ ::
      es : History ι), ∃ id votedAt, e'.op = .insertAutomaticVote id p.id p.proposerID votedAt :=
    fun _ => ⟨_, List.mem_cons_self, id, votedAt, rfl⟩
  rcases DaoStore.exec_insertAutomaticVote s₁.world id p.id p.proposerID votedAt env with
    ⟨e, he⟩ | ⟨tbl, ht, he⟩ | ⟨⟨row, hrow⟩, he⟩
  · rw [perform_eq, he]
    exact ⟨hfind, rfl, _ :: es, congrArg _ hes, hissued _,
      fun hv => by simp [automaticVote, hany] at hv, fun _ => hvotes⟩
  · rw [perform_eq, he]
    refine ⟨hfind, rfl, _ :: es, congrArg _ hes, hissued _, fun _ => ?_, fun hv => ?_⟩
    · rw [Table.find?_insert ht]
      simp [DAOVote.key]
    · simp [automaticVote] at hv
  · rw [perform_eq, he]
    exact ⟨hfind, rfl, _ :: es, congrArg _ hes, hissued _, fun _ => by rw [hrow]; rfl,
      fun _ => hvotes⟩

theorem ensures_createProposal (t : ι) (proposerID : UUID) (input : NewProposal) (s : Shared ι) :
    Program.Ensures (perform t) (fun r s' => AllButVote proposerID s s' r)
      (DaoService.createProposal proposerID input) s := by
  unfold DaoService.createProposal
  split
  · exact rfl
  simp only [Program.call_bind, Program.pure_eq]
  refine ensures_draw (.inl rfl) (.refl s) fun now s₁ h₁ => ?_
  by_cases hdeadline : input.voteDeadline < now
  · rw [if_pos hdeadline]
    exact h₁.world
  rw [if_neg hdeadline]
  refine ensures_draw (.inr rfl) h₁ fun id s₂ h₂ => ?_
  refine ensures_draw (.inl rfl) h₂ fun createdAt s₃ h₃ => ?_
  refine ensures_draw (.inl rfl) h₃ fun updatedAt s₄ h₄ => ?_
  refine ensures_insertProposal h₄ (fun e s₅ h₅ => h₅.world) fun tbl s₅ ht h₅ => ?_
  refine ensures_draw (.inr rfl) h₅ fun voteID s₆ h₆ => ?_
  refine ensures_draw (.inl rfl) h₆ fun votedAt s₇ h₇ env => ?_
  refine allButVote_insertAutomaticVote h₇ ?_ voteID votedAt env
  rw [Table.find?_insert ht, if_pos rfl]

end Statements

/-- A proposal whose automatic vote met a failing statement is returned without a vote. -/
theorem createProposal_not_allOrNothing : ¬ ∀ (proposerID : UUID) (input : NewProposal)
    (w w' : DaoStore) (r : Except String DAOProposal),
    (DaoService.createProposal proposerID input).Completes DaoStore.exec w r w' →
      AllOrNothing proposerID w w' r := by
  intro h
  let p : DAOProposal := ⟨7, 1, "quorum", "", .active, 5, 10, 0, 0⟩
  have hrun : (DaoService.createProposal 1 ⟨"quorum", "", 0, 10⟩).Completes DaoStore.exec
      ⟨.empty, .empty⟩ (.ok p) ⟨⟨[p], by decide⟩, .empty⟩ :=
    ⟨[.good 0 0, .good 0 7, .good 0 0, .good 0 0, .good 0 0, .good 0 8, .good 0 0,
      ⟨0, 0, some "connection reset by peer", fun _ => 0⟩], rfl⟩
  exact absurd (h _ _ _ _ _ hrun).2.2 (by decide)

/-- For every input, state and failure a call is an error that changed nothing or a
stored proposal with the vote its second statement wrote; and in every state any
interleaving reaches, a proposal has a vote by its proposer exactly if a vote
statement of the pair committed. -/
theorem createProposal_allButVote [DecidableEq ι] :
    (∀ (t : ι) (proposerID : UUID) (input : NewProposal) (s s' : Shared ι)
      (r : Except String DAOProposal),
      (DaoService.createProposal proposerID input).Completes (perform t) s r s' →
        AllButVote proposerID s s' r) ∧
    ∀ (calls : ι → Call) (proposals : Table DAOProposal.id) (schedule : List (ι × Env))
      (p : DAOProposal), p ∈ (reached calls proposals schedule).world.proposals.rows →
      (((reached calls proposals schedule).world.votes.find? (p.id, p.proposerID)).isSome ↔
        p.proposerID ∈ voters p.id (reached calls proposals schedule).history) := by
  refine ⟨fun t proposerID input s s' r h => ?_, fun calls proposals schedule p _ => ?_⟩
  · exact (ensures_createProposal t proposerID input s).completes h
  · obtain ⟨hinv, -⟩ := reached_append calls proposals schedule []
    rw [mem_voters, ← hinv.ballots, Option.isSome_map]

/-- Both statements commit. -/
theorem createProposal_allButVote_stored : ∃ s' : Shared Unit, AllButVote 1
    ⟨⟨.empty, .empty⟩, []⟩ s' (.ok ⟨7, 1, "quorum", "", .active, 5, 10, 0, 0⟩) := by
  have hrun : ∃ s', (DaoService.createProposal 1 ⟨"quorum", "", 0, 10⟩).Completes (perform ())
      ⟨⟨.empty, .empty⟩, []⟩ (.ok ⟨7, 1, "quorum", "", .active, 5, 10, 0, 0⟩) s' :=
    ⟨_, [.good 0 0, .good 0 7, .good 0 0, .good 0 0, .good 0 0, .good 0 8, .good 0 0,
      .good 0 0], rfl⟩
  obtain ⟨s', hs'⟩ := hrun
  exact ⟨s', createProposal_allButVote.1 () 1 _ _ s' _ hs'⟩

end SafetyDao.ProposalCreation
