import SafetyDao.VoteDeadline

/-!
# Results read while others vote

All operations of the DAO service run interleaved. `getResults` reads the proposal in one
statement and the votes in another, with any number of votes in between; since a proposal is
never written again, it still reports one moment of the vote, that of its second statement.
A call that begins after another has ended reports a later moment.
-/
namespace SafetyDao.DaoSnapshots
open Dao (Shared History perform perform_eq perform_readOnly_world)
open VoteTally (voters votersFor ballot)

inductive Call where
  | createProposal (proposerID : UUID) (input : NewProposal)
  | castVote (proposalID userID : UUID) (vote : String)
  | getProposal (proposalID : UUID)
  | listProposals (status : String)
  | getResults (proposalID : UUID)

inductive Reply where
  | proposal (r : Except String DAOProposal)
  | proposals (r : Except String (List DAOProposal))
  | vote (r : Except String DAOVote)
  | results (r : Except String VoteResults)

def Call.program : Call → Dao Reply
  | .createProposal proposerID input =>
    .proposal <$> DaoService.createProposal proposerID input
  | .castVote proposalID userID vote => .vote <$> DaoService.castVote proposalID userID vote
  | .getProposal proposalID => .proposal <$> DaoService.getProposal proposalID
  | .listProposals status => .proposals <$> DaoService.listProposals status
  | .getResults proposalID => .results <$> DaoService.getResults proposalID

/-- The proposal is what `createProposal` makes of its input. -/
structure Drafted (proposerID : UUID) (input : NewProposal) (prop : DAOProposal) : Prop where
  proposerID : prop.proposerID = proposerID
  title : prop.title = input.title ∧ prop.title ≠ ""
  description : prop.description = input.description
  active : prop.status = .active
  voteQuorum : prop.voteQuorum = if input.voteQuorum < 1 then 5 else input.voteQuorum
  voteDeadline : prop.voteDeadline = input.voteDeadline

theorem Drafted.quorum_pos {proposerID : UUID} {input : NewProposal} {prop : DAOProposal}
    (h : Drafted proposerID input prop) : 1 ≤ prop.voteQuorum := by
  rw [h.voteQuorum]
  split <;> omega

/-- The results are those of the votes that a history has committed. -/
structure Reports {ι : Type} (p : UUID) (h : History ι) (res : VoteResults) : Prop where
  proposal : res.proposal.id = p
  yesVotes : res.yesVotes = (votersFor p .yes h).card
  noVotes : res.noVotes = (votersFor p .no h).card
  abstentions : res.abstentions = (votersFor p .abstain h).card
  totalVotes : res.totalVotes = (voters p h).card
  quorumMet : res.quorumMet = true ↔ res.proposal.voteQuorum ≤ (voters p h).card

variable {ι : Type}

theorem reports_voteResults {s : Shared ι} (h : VoteTally.Inv s) (prop : DAOProposal) :
    Reports prop.id s.history
      (DaoService.voteResults prop (s.world.tallyVotes prop.id)) := by
  have hcard := VoteTally.card_voters prop.id s.history
  refine ⟨rfl, h.sumWeights_eq _ _, h.sumWeights_eq _ _, h.sumWeights_eq _ _, ?_, ?_⟩ <;>
    simp only [DaoService.voteResults, DaoStore.tallyVotes, h.sumWeights_eq, decide_eq_true_eq] <;>
    omega

section Moves

variable (calls : ι → Call) (proposals : Table DAOProposal.id)

/-- Every proposal was there at the start or has been drafted by a call. -/
def AllDrafted (w : DaoStore) : Prop := ∀ prop ∈ w.proposals.rows, prop ∈ proposals.rows ∨
  ∃ t input, calls t = .createProposal prop.proposerID input ∧
    Drafted prop.proposerID input prop

/-- How the shared state moves: as under votes, and by drafted proposals only. -/
structure Moves (s s' : Shared ι) : Prop where
  votes : VoteTally.Moves s s'
  drafted : AllDrafted calls proposals s.world → AllDrafted calls proposals s'.world

variable {calls proposals}

theorem Moves.refl (s : Shared ι) : Moves calls proposals s s := ⟨.refl s, id⟩

theorem Moves.trans {s₁ s₂ s₃ : Shared ι} (h₁ : Moves calls proposals s₁ s₂)
    (h₂ : Moves calls proposals s₂ s₃) : Moves calls proposals s₁ s₃ :=
  ⟨h₁.votes.trans h₂.votes, fun h => h₂.drafted (h₁.drafted h)⟩

variable (t : ι) (s : Shared ι)

theorem moves_readOnly (op : DaoOp) (env : Env) (h : DaoStore.readOnly op = true) :
    Moves calls proposals s (perform t s op env).1 :=
  ⟨VoteTally.moves_readOnly t s op env h, by
    rw [perform_readOnly_world t s op env h]
    exact id⟩

theorem moves_insertProposal {prop : DAOProposal} {input : NewProposal}
    (hcall : calls t = .createProposal prop.proposerID input)
    (hprop : Drafted prop.proposerID input prop) (env : Env) :
    Moves calls proposals s (perform t s (.insertProposal prop) env).1 := by
  refine ⟨VoteTally.moves_insertProposal t s prop env, fun h => ?_⟩
  rcases DaoStore.exec_insertProposal s.world prop env with ⟨e, he⟩ | ⟨tbl, ht, he⟩
  · rw [perform_eq, he]
    exact h
  · rw [perform_eq, he]
    intro prop' hmem
    rcases (Table.mem_insert ht).mp hmem with hmem | rfl
    · exact h prop' hmem
    · exact .inr ⟨t, input, hcall, hprop⟩

/-- The vote statements leave the proposals alone. -/
theorem moves_insertAutomaticVote {voteID p u : UUID} (votedAt : Time)
    (hprop : ∃ prop, s.world.proposals.find? p = some prop ∧ prop.proposerID = u) (env : Env) :
    Moves calls proposals s (perform t s (.insertAutomaticVote voteID p u votedAt) env).1 := by
  refine ⟨VoteTally.moves_insertAutomaticVote t votedAt hprop env, ?_⟩
  rcases DaoStore.exec_insertAutomaticVote s.world voteID p u votedAt env with
    ⟨e, he⟩ | ⟨tbl, -, he⟩ | ⟨-, he⟩ <;> rw [perform_eq, he] <;> exact id

theorem moves_upsertVote {v : DAOVote} (hweight : v.weight = 1) (env : Env) :
    Moves calls proposals s (perform t s (.upsertVote v) env).1 := by
  refine ⟨VoteTally.moves_upsertVote t s hweight env, ?_⟩
  rcases DaoStore.exec_upsertVote s.world v env with ⟨e, he⟩ | ⟨tbl, -, he⟩ | ⟨-, he⟩ <;>
    rw [perform_eq, he] <;> exact id

end Moves

section Replies

/-- The proposal is in the table as it is. -/
def Stored (prop : DAOProposal) (s : Shared ι) : Prop :=
  s.world.proposals.find? prop.id = some prop

/-- The statement that a vote was cast by is committed. -/
structure Cast (t : ι) (p u : UUID) (vote : String) (v : DAOVote) (s : Shared ι) : Prop where
  pair : v.key = (p, u)
  choice : v.vote.text = vote
  weight : v.weight = 1
  committed : ⟨t, .upsertVote v, .ok ()⟩ ∈ s.history
  voting : ∃ prop, prop.id = p ∧ prop.status = .active ∧ Stored prop s

/-- The results are those of the moment of the thread's tally, which is in the history. -/
structure Snapshot (t : ι) (p : UUID) (res : VoteResults) (s : Shared ι) : Prop where
  stored : Stored res.proposal s
  taken : ∃ tally h, ⟨t, .tallyVotes p, .ok tally⟩ :: h <:+ s.history ∧ Reports p h res

/-- What a finished call has told its caller. -/
def Told (t : ι) (call : Call) (reply : Reply) (s : Shared ι) : Prop :=
  match call, reply with
  | .createProposal proposerID input, .proposal (.ok prop) =>
    Drafted proposerID input prop ∧ Stored prop s
  | .castVote p u vote, .vote (.ok v) => Cast t p u vote v s
  | .getProposal p, .proposal (.ok prop) => prop.id = p ∧ Stored prop s
  | .listProposals status, .proposals (.ok props) =>
    ∀ prop ∈ props, Stored prop s ∧ (status = "" ∨ prop.status.text = status)
  | .getResults p, .results (.ok res) => Snapshot t p res s
  | _, _ => True

variable {calls : ι → Call} {proposals : Table DAOProposal.id} {s s' : Shared ι}

theorem Stored.moves {prop : DAOProposal} (hm : Moves calls proposals s s') (h : Stored prop s) :
    Stored prop s' := hm.votes.proposals _ _ h

theorem mem_moves {e : Event DaoOp.Res ι} (hm : Moves calls proposals s s') (h : e ∈ s.history) :
    e ∈ s'.history := by
  obtain ⟨es, hes⟩ := hm.votes.history
  rw [hes]
  exact List.mem_append_right _ h

theorem suffix_moves {h : History ι} (hm : Moves calls proposals s s') (hs : h <:+ s.history) :
    h <:+ s'.history := by
  obtain ⟨es, hes⟩ := hm.votes.history
  rw [hes]
  exact hs.trans (List.suffix_append _ _)

theorem Told.moves {t : ι} {call : Call} {reply : Reply} (hm : Moves calls proposals s s')
    (h : Told t call reply s) : Told t call reply s' := by
  unfold Told at h ⊢
  split
  · exact ⟨h.1, h.2.moves hm⟩
  · obtain ⟨prop, hid, hst, hstored⟩ := h.voting
    exact ⟨h.pair, h.choice, h.weight, mem_moves hm h.committed, prop, hid, hst,
      hstored.moves hm⟩
  · exact ⟨h.1, h.2.moves hm⟩
  · exact fun prop hprop => ⟨(h prop hprop).1.moves hm, (h prop hprop).2⟩
  · obtain ⟨tally, h₀, hsuffix, hreports⟩ := h.taken
    exact ⟨h.stored.moves hm, tally, h₀, suffix_moves hm hsuffix, hreports⟩
  · trivial

end Replies

section Programs

variable {calls : ι → Call} {proposals : Table DAOProposal.id} {t : ι} {α : Type}
  {guard : ι → Shared ι → DaoOp → Env → Prop} {post : α → Shared ι → Prop}
  {P : Shared ι → Prop} {s : Shared ι}

abbrev contract (calls : ι → Call) (proposals : Table DAOProposal.id)
    (post : α → Shared ι → Prop) : Contract (Shared ι) α :=
  ⟨Moves calls proposals, Moves calls proposals, post⟩

/-- A request that only reads, under an assertion that every move keeps. -/
theorem holds_readOnly (hP : ∀ s s', Moves calls proposals s s' → P s → P s') {op : DaoOp}
    (hop : DaoStore.readOnly op = true) {next : op.Res → Dao α} (hs : P s)
    (hnext : ∀ s env, P s → P (perform t s op env).1 →
      Contract.Holds perform guard t (contract calls proposals post)
        (next (s.world.exec op env).2) (perform t s op env).1) :
    Contract.Holds perform guard t (contract calls proposals post) (.request op next) s :=
  Contract.Holds.of_moves hP (fun s env => moves_readOnly t s op env hop) hs
    fun s env hs _ hs' => hnext s env hs hs'

/-- What a call returns is told its caller. -/
theorem holds_told {call : Call} {reply : Reply} (h : Told t call reply s) :
    Contract.Holds perform guard t (contract calls proposals (Told t call))
      (.done reply : Dao Reply) s := fun _ hm => h.moves hm

theorem keeps_stored (prop : DAOProposal) (s s' : Shared ι) (hm : Moves calls proposals s s')
    (h : Stored prop s) : Stored prop s' := h.moves hm

theorem keeps_inv (s s' : Shared ι) (hm : Moves calls proposals s s') (h : VoteTally.Inv s) :
    VoteTally.Inv s' := hm.votes.inv h

theorem holds_createProposal {proposerID : UUID} {input : NewProposal}
    (hcall : calls t = .createProposal proposerID input) :
    Contract.Holds perform guard t (contract calls proposals (Told t (calls t)))
      (Call.createProposal proposerID input).program s := by
  have htrue := Contract.keeps_true (Moves calls proposals)
  rw [hcall]
  simp only [Call.program, DaoService.createProposal, Program.map_eq_bind, Program.pure_eq]
  split
  · exact holds_told trivial
  rename_i htitle
  simp only [Program.call_bind, Program.request_bind]
  refine holds_readOnly htrue rfl trivial fun s₁ now _ _ => ?_
  split
  · exact holds_told trivial
  refine holds_readOnly htrue rfl trivial fun s₂ id _ _ => ?_
  refine holds_readOnly htrue rfl trivial fun s₃ createdAt _ _ => ?_
  refine holds_readOnly htrue rfl trivial fun s₄ updatedAt _ _ => ?_
  intro s₅ _ env _
  set prop : DAOProposal := {
    id := (s₂.world.exec .newUUID id).2
    proposerID := proposerID
    title := input.title
    description := input.description
    status := .active
    voteQuorum := if input.voteQuorum < 1 then 5 else input.voteQuorum
    voteDeadline := input.voteDeadline
    createdAt := (s₃.world.exec .timeNow createdAt).2
    updatedAt := (s₄.world.exec .timeNow updatedAt).2 } with hprop
  have hdrafted : Drafted proposerID input prop := ⟨rfl, ⟨rfl, htitle⟩, rfl, rfl, rfl, rfl⟩
  refine ⟨moves_insertProposal t s₅ hcall hdrafted env, ?_⟩
  rcases DaoStore.exec_insertProposal s₅.world prop env with ⟨e, he⟩ | ⟨tbl, ht, he⟩
  · rw [perform_eq, he]
    exact holds_told trivial
  · rw [perform_eq, he]
    have hstored : Stored prop ⟨{ s₅.world with proposals := tbl },
        ⟨t, .insertProposal prop, .ok ()⟩ :: s₅.history⟩ :=
      (Table.find?_insert ht _).trans (if_pos rfl)
    refine holds_readOnly (keeps_stored prop) rfl hstored fun s₆ voteID _ hs₆ => ?_
    refine holds_readOnly (keeps_stored prop) rfl hs₆ fun s₇ votedAt _ hs₇ => ?_
    intro s₈ hm env' _
    have hs₈ := hs₇.moves hm
    have hmove : Moves calls proposals s₈ (perform t s₈ (.insertAutomaticVote
        (s₆.world.exec .newUUID voteID).2 prop.id proposerID (s₇.world.exec .timeNow votedAt).2)
        env').1 := moves_insertAutomaticVote t s₈ _ ⟨prop, hs₈, rfl⟩ env'
    exact ⟨hmove, holds_told ⟨hdrafted, hs₈.moves hmove⟩⟩

theorem validVotes_text {vote : String} {c : Choice} (h : validVotes vote = some c) :
    c.text = vote := by simpa using List.find?_some h

theorem holds_castVote {p u : UUID} {vote : String} (hcall : calls t = .castVote p u vote) :
    Contract.Holds perform guard t (contract calls proposals (Told t (calls t)))
      (Call.castVote p u vote).program s := by
  have htrue := Contract.keeps_true (Moves calls proposals)
  rw [hcall]
  simp only [Call.program, DaoService.castVote, DaoService.getProposal, Program.map_eq_bind,
    Program.pure_eq]
  cases hvote : validVotes vote with
  | none => exact holds_told trivial
  | some choice =>
  simp only [Program.call_bind, Program.request_bind]
  refine holds_readOnly htrue rfl trivial fun s₁ env _ _ => ?_
  have hworld := perform_readOnly_world t s₁ (.selectProposal p) env rfl
  cases hr : (s₁.world.exec (.selectProposal p) env).2 with
  | error e => exact holds_told trivial
  | ok prop =>
  have hf := DaoStore.exec_selectProposal hr
  obtain rfl : prop.id = p := Table.key_of_find? hf
  have hstored : Stored prop (perform t s₁ (.selectProposal prop.id) env).1 := by
    rw [Stored, hworld]
    exact hf
  simp only [Program.done_bind]
  split_ifs with hst
  · exact holds_told trivial
  simp only [Program.request_bind]
  refine holds_readOnly (keeps_stored prop) rfl hstored fun s₂ now _ hs₂ => ?_
  split_ifs
  · exact holds_told trivial
  refine holds_readOnly (keeps_stored prop) rfl hs₂ fun s₃ id _ hs₃ => ?_
  refine holds_readOnly (keeps_stored prop) rfl hs₃ fun s₄ votedAt _ hs₄ => ?_
  intro s₅ hm env' _
  set v : DAOVote := ⟨(s₃.world.exec .newUUID id).2, prop.id, u, choice, 1,
    (s₄.world.exec .timeNow votedAt).2⟩ with hv
  have hmove : Moves calls proposals s₅ (perform t s₅ (.upsertVote v) env').1 :=
    moves_upsertVote t s₅ rfl env'
  refine ⟨hmove, ?_⟩
  have hs₆ := (hs₄.moves hm).moves hmove
  rw [perform_eq] at hs₆ ⊢
  cases hup : (s₅.world.exec (.upsertVote v) env').2 with
  | error e => exact holds_told trivial
  | ok _ =>
    rw [hup] at hs₆
    exact holds_told ⟨rfl, validVotes_text hvote, rfl, List.mem_cons_self, prop, rfl,
      by simpa using hst, hs₆⟩

theorem holds_getProposal {p : UUID} (hcall : calls t = .getProposal p) :
    Contract.Holds perform guard t (contract calls proposals (Told t (calls t)))
      (Call.getProposal p).program s := by
  rw [hcall]
  simp only [Call.program, DaoService.getProposal, Program.map_eq_bind, Program.call_bind,
    Program.request_bind, Program.pure_eq]
  refine holds_readOnly (Contract.keeps_true _) rfl trivial fun s₁ env _ _ => ?_
  have hworld := perform_readOnly_world t s₁ (.selectProposal p) env rfl
  cases hr : (s₁.world.exec (.selectProposal p) env).2 with
  | error e => exact holds_told trivial
  | ok prop =>
    have hf := DaoStore.exec_selectProposal hr
    obtain rfl : prop.id = p := Table.key_of_find? hf
    refine holds_told ⟨rfl, ?_⟩
    rw [Stored, hworld]
    exact hf

theorem holds_scanRows (hP : ∀ s s', Moves calls proposals s s' → P s → P s') {ρ : Type}
    (scanning : String) (acc rows : List ρ) (hs : P s) :
    Contract.Holds perform guard t (contract calls proposals fun r s =>
      P s ∧ ∀ scanned, r = .ok scanned → scanned = acc ++ rows)
      (scanRows Dao.rowsNext Dao.rowsScan scanning acc rows) s := by
  have hrequest : ∀ op, DaoStore.readOnly op = true → ∀ s, P s →
      Contract.Holds perform guard t (contract calls proposals fun _ => P) (Program.call op) s :=
    fun op hop s hs => holds_readOnly hP hop hs fun _ _ _ hs₁ s' hm => hP _ s' hm hs₁
  exact SafetyDao.holds_scanRows Moves.refl hP (hrequest .rowsNext rfl) (hrequest .rowsScan rfl)
    scanning acc rows hs

theorem holds_listProposals {status : String} (hcall : calls t = .listProposals status) :
    Contract.Holds perform guard t (contract calls proposals (Told t (calls t)))
      (Call.listProposals status).program s := by
  rw [hcall]
  simp only [Call.program, DaoService.listProposals, Program.map_eq_bind, Program.call_bind,
    Program.request_bind, Program.pure_eq]
  refine holds_readOnly (Contract.keeps_true _) rfl trivial fun s₁ env _ _ => ?_
  have hworld := perform_readOnly_world t s₁ (.selectProposals status) env rfl
  cases hr : (s₁.world.exec (.selectProposals status) env).2 with
  | error e => exact holds_told trivial
  | ok rows =>
    have hrows : ∀ prop ∈ rows, Stored prop (perform t s₁ (.selectProposals status) env).1 ∧
        (status = "" ∨ prop.status.text = status) := by
      intro prop hprop
      rw [DaoStore.exec_selectProposals hr, DaoStore.mem_selectProposals] at hprop
      refine ⟨?_, hprop.2⟩
      rw [Stored, hworld]
      exact Table.find?_of_mem hprop.1
    have hkeeps : ∀ s s' : Shared ι, Moves calls proposals s s' →
        (∀ prop ∈ rows, Stored prop s ∧ (status = "" ∨ prop.status.text = status)) →
        ∀ prop ∈ rows, Stored prop s' ∧ (status = "" ∨ prop.status.text = status) :=
      fun s s' hm h prop hprop => ⟨(h prop hprop).1.moves hm, (h prop hprop).2⟩
    refine (holds_scanRows hkeeps _ [] rows hrows).bind Moves.refl ?_
    rintro r s₂ ⟨hs₂, hscanned⟩
    cases r with
    | error e => exact holds_told trivial
    | ok scanned =>
      obtain rfl := hscanned scanned rfl
      exact holds_told hs₂

/-- The tally is taken at one moment, and the proposal is still what it was. -/
theorem holds_getResults {p : UUID} (hcall : calls t = .getResults p) (hs : VoteTally.Inv s) :
    Contract.Holds perform guard t (contract calls proposals (Told t (calls t)))
      (Call.getResults p).program s := by
  rw [hcall]
  simp only [Call.program, DaoService.getResults, DaoService.getProposal, Program.map_eq_bind,
    Program.call_bind, Program.request_bind, Program.pure_eq]
  refine holds_readOnly keeps_inv rfl hs fun s₁ env _ hinv => ?_
  have hworld := perform_readOnly_world t s₁ (.selectProposal p) env rfl
  cases hr : (s₁.world.exec (.selectProposal p) env).2 with
  | error e => exact holds_told trivial
  | ok prop =>
    have hf := DaoStore.exec_selectProposal hr
    obtain rfl : prop.id = p := Table.key_of_find? hf
    have hstored : Stored prop (perform t s₁ (.selectProposal prop.id) env).1 := by
      rw [Stored, hworld]
      exact hf
    simp only [Program.done_bind, Program.request_bind]
    refine holds_readOnly (P := fun s => VoteTally.Inv s ∧ Stored prop s)
      (fun s s' hm h => ⟨hm.votes.inv h.1, h.2.moves hm⟩) rfl ⟨hinv, hstored⟩
      fun s₂ env' h₂ h₃ => ?_
    cases htally : (s₂.world.exec (.tallyVotes prop.id) env').2 with
    | error e => exact holds_told trivial
    | ok tally =>
      obtain rfl := DaoStore.exec_tallyVotes htally
      refine holds_told ⟨h₃.2, s₂.world.tallyVotes prop.id, s₂.history, ?_,
        reports_voteResults h₂.1 prop⟩
      rw [perform_eq, htally]

theorem holds_program (hs : VoteTally.Inv s) {call : Call} (hcall : calls t = call) :
    Contract.Holds perform guard t (contract calls proposals (Told t (calls t)))
      call.program s := by
  cases call with
  | createProposal proposerID input => exact holds_createProposal hcall
  | castVote p u vote => exact holds_castVote hcall
  | getProposal p => exact holds_getProposal hcall
  | listProposals status => exact holds_listProposals hcall
  | getResults p => exact holds_getResults hcall hs

end Programs

section Runs

variable [DecidableEq ι] (calls : ι → Call) (proposals : Table DAOProposal.id)

/-- Some proposals, and no vote yet. -/
def start : Pool DaoOp.Res (Shared ι) ι Reply :=
  ⟨⟨⟨proposals, .empty⟩, []⟩, fun t => (calls t).program⟩

def runFrom (schedule : List (ι × Env)) : Pool DaoOp.Res (Shared ι) ι Reply :=
  (start calls proposals).run perform schedule

omit [DecidableEq ι] in
theorem inv_start : VoteTally.Inv (start calls proposals).state where
  ballots _ _ := rfl
  weight _ h := by cases h
  proposer _ _ _ h := by cases h

/-- Along any run each thread has what it has told its caller. -/
theorem run_sound (xs : List (ι × Env)) :
    (∀ t, Contract.Holds perform (fun _ _ _ _ => True) t
      (contract calls proposals (Told t (calls t))) ((runFrom calls proposals xs).threads t)
      (runFrom calls proposals xs).state) ∧
    Moves calls proposals (start calls proposals).state (runFrom calls proposals xs).state :=
  Contract.run_shared Moves.refl (fun _ _ _ => Moves.trans)
    (Pool.guarded_of_forall (fun _ _ _ _ => trivial) _ xs)
    fun _ => holds_program (inv_start calls proposals) rfl

theorem run_moves (xs ys : List (ι × Env)) : Moves calls proposals
    (runFrom calls proposals xs).state (runFrom calls proposals (xs ++ ys)).state := by
  rw [runFrom, runFrom, Pool.run_append]
  exact (Contract.run_shared Moves.refl (fun _ _ _ => Moves.trans)
    (Pool.guarded_of_forall (fun _ _ _ _ => trivial) _ ys) (run_sound calls proposals xs).1).2

/-- The proposals of a run: each was there or is as `createProposal` drafts it for a call, none
is ever changed, and what a finished call has told its caller stays true. -/
structure Faithful (schedule : List (ι × Env)) : Prop where
  drafted : AllDrafted calls proposals (runFrom calls proposals schedule).state.world
  unchanged : ∀ more prop, Stored prop (runFrom calls proposals schedule).state →
    Stored prop (runFrom calls proposals (schedule ++ more)).state
  told : ∀ more t reply, (runFrom calls proposals schedule).threads t = .done reply →
    Told t (calls t) reply (runFrom calls proposals (schedule ++ more)).state

theorem run_faithful (schedule : List (ι × Env)) : Faithful calls proposals schedule where
  drafted := (run_sound calls proposals schedule).2.drafted fun _ h => .inl h
  unchanged more _ h := h.moves (run_moves calls proposals schedule more)
  told more t _ ht := (((run_sound calls proposals schedule).1 t).done ht Moves.refl).moves
    (run_moves calls proposals schedule more)

/-- Two parts at the end of one list: one that begins with what the other lacks is longer. -/
theorem suffix_of_notMem {α : Type} {a : α} {xs ys l : List α} (hxs : xs <:+ l)
    (hys : a :: ys <:+ l) (ha : a ∉ xs) : xs <:+ ys := by
  rcases List.suffix_or_suffix_of_suffix hxs hys with h | h
  · rcases List.suffix_cons_iff.mp h with rfl | h
    · exact absurd List.mem_cons_self ha
    · exact h
  · exact absurd (h.subset List.mem_cons_self) ha

/-- What `getResults` reports is one moment between its call and its return: every statement
that was committed before the call counts, and none that was not by the return. -/
theorem results_snapshot (xs ys : List (ι × Env)) (t : ι) (p : UUID) (res : VoteResults)
    (hcall : calls t = .getResults p) (hnew : ∀ slot ∈ xs, slot.1 ≠ t)
    (ht : (runFrom calls proposals (xs ++ ys)).threads t = .done (.results (.ok res))) :
    ∃ h, (runFrom calls proposals xs).state.history <:+ h ∧
      h <:+ (runFrom calls proposals (xs ++ ys)).state.history ∧ Reports p h res := by
  have htold : Told t (.getResults p) (.results (.ok res))
      (runFrom calls proposals (xs ++ ys)).state :=
    hcall ▸ ((run_sound calls proposals (xs ++ ys)).1 t).done ht Moves.refl
  obtain ⟨tally, h, hsuffix, hreports⟩ := htold.taken
  obtain ⟨es, hes⟩ := (run_moves calls proposals xs ys).votes.history
  refine ⟨h, suffix_of_notMem (hes ▸ List.suffix_append _ _) hsuffix fun hmem => ?_,
    (List.suffix_cons _ h).trans hsuffix, hreports⟩
  rcases Pool.mem_history_run DaoStore.exec hmem with hmem | ⟨slot, hslot, hthread⟩
  · cases hmem
  · exact hnew slot hslot hthread

omit [DecidableEq ι] in
/-- Later results count at least the voters of earlier ones. -/
theorem Reports.later {p : UUID} {h h' : History ι} {before after : VoteResults}
    (hb : Reports p h before) (ha : Reports p h' after) (hsuffix : h <:+ h')
    (hprop : after.proposal = before.proposal) : before.totalVotes ≤ after.totalVotes ∧
      (before.quorumMet = true → after.quorumMet = true) := by
  obtain ⟨es, rfl⟩ := hsuffix
  have hcard := Finset.card_le_card (VoteTally.voters_mono p es h)
  rw [hb.totalVotes, ha.totalVotes, hb.quorumMet, ha.quorumMet, hprop]
  omega

/-- The results of a call that began after others have ended: no fewer votes than earlier
results, the quorum still met, and every vote counted that was acknowledged to its caster. -/
structure Caught (xs : List (ι × Env)) (p : UUID) (after : VoteResults) : Prop where
  results : ∀ t before, calls t = .getResults p →
    (runFrom calls proposals xs).threads t = .done (.results (.ok before)) →
    after.proposal = before.proposal ∧ before.totalVotes ≤ after.totalVotes ∧
      (before.quorumMet = true → after.quorumMet = true)
  votes : ∃ h : History ι, Reports p h after ∧ ∀ t u vote v, calls t = .castVote p u vote →
    (runFrom calls proposals xs).threads t = .done (.vote (.ok v)) → u ∈ voters p h

theorem results_catch_up (xs ys : List (ι × Env)) (t : ι) (p : UUID) (after : VoteResults)
    (hcall : calls t = .getResults p) (hnew : ∀ slot ∈ xs, slot.1 ≠ t)
    (ht : (runFrom calls proposals (xs ++ ys)).threads t = .done (.results (.ok after))) :
    Caught calls proposals xs p after := by
  obtain ⟨h, hbegun, -, hafter⟩ := results_snapshot calls proposals xs ys t p after hcall hnew ht
  have hmoves := run_moves calls proposals xs ys
  have htold : Told t (.getResults p) (.results (.ok after))
      (runFrom calls proposals (xs ++ ys)).state :=
    hcall ▸ ((run_sound calls proposals (xs ++ ys)).1 t).done ht Moves.refl
  refine ⟨fun u before hu hdone => ?_, h, hafter, fun u voter vote v hu hdone => ?_⟩
  · have hearlier : Told u (.getResults p) (.results (.ok before))
        (runFrom calls proposals xs).state :=
      hu ▸ ((run_sound calls proposals xs).1 u).done hdone Moves.refl
    obtain ⟨tally, h₀, hsuffix, hbefore⟩ := hearlier.taken
    have hprop : after.proposal = before.proposal := by
      have hkept : Stored before.proposal (runFrom calls proposals (xs ++ ys)).state :=
        hearlier.stored.moves hmoves
      have hsame := htold.stored
      rw [Stored, hafter.proposal, ← hbefore.proposal, hkept, Option.some.injEq] at hsame
      exact hsame.symm
    exact ⟨hprop, hbefore.later hafter (((List.suffix_cons _ h₀).trans hsuffix).trans hbegun) hprop⟩
  · have hcast : Cast u p voter vote v (runFrom calls proposals xs).state := by
      have htold' := ((run_sound calls proposals xs).1 u).done hdone Moves.refl
      rwa [hu] at htold'
    have hmem := hbegun.subset hcast.committed
    have hpair := hcast.pair
    simp only [DAOVote.key, Prod.mk.injEq] at hpair
    simp only [voters, List.mem_toFinset, List.mem_filterMap]
    exact ⟨_, hmem, by simp [VoteTally.voterOn, hpair.1, hpair.2]⟩

end Runs

/-- User 2 votes while the results are read, and they are read again. -/
def voteAndRead : Fin 3 → Call
  | 0 => .getResults 1
  | 1 => .castVote 1 2 "no"
  | 2 => .getResults 1

/-- Thread `t` performs `n` requests at time 5. -/
def turns (t : Fin 3) (n : ℕ) : List (Fin 3 × Env) := List.replicate n (t, .good 5 (50 + t.val))

/-- The vote comes in between the two statements of the first reading, and counts. -/
theorem voteAndRead_snapshot : ∃ h, Reports 1 h ⟨⟨1, 7, "p", "", .active, 5, 10, 0, 0⟩,
    0, 1, 0, 1, false, none⟩ ∧ h <:+ (runFrom voteAndRead VoteDeadline.openUntilTen
      ([] ++ (turns 0 1 ++ turns 1 5 ++ turns 0 1))).state.history := by
  obtain ⟨h, -, hend, hreports⟩ := results_snapshot voteAndRead VoteDeadline.openUntilTen []
    (turns 0 1 ++ turns 1 5 ++ turns 0 1) 0 1 _ rfl (by decide) rfl
  exact ⟨h, hreports, hend⟩

/-- The second reading begins after both have ended. -/
theorem voteAndRead_caught : ∃ after, Caught voteAndRead VoteDeadline.openUntilTen
    (turns 0 1 ++ turns 1 5 ++ turns 0 1) 1 after ∧ after.noVotes = 1 :=
  ⟨_, results_catch_up voteAndRead VoteDeadline.openUntilTen
    (turns 0 1 ++ turns 1 5 ++ turns 0 1) (turns 2 2) 2 1 _ rfl (by decide) rfl, rfl⟩

end SafetyDao.DaoSnapshots
