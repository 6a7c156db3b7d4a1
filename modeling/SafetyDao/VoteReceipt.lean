import SafetyDao.VoteTally

/-!
# The vote that `castVote` returns and the one it stores

The returned vote carries the identifier drawn for the call. The upsert stores it
only with a first vote; on a conflict the row keeps the identifier it has.
-/
namespace SafetyDao.VoteReceipt
open VoteTally (Call voters mem_voters reached reached_append)

variable {ι : Type}

/-- After the upsert the call returns what it asked to store. -/
theorem upsert_run {v v' : DAOVote} {w w' : DaoStore} {r : Except String Unit} {cs : List Env}
    (h : (match r with
      | .error e => Program.done (Except.error ("casting vote: " ++ e))
      | .ok _ => Program.done (.ok v') : Dao (Except String DAOVote)).run DaoStore.exec w cs =
        some (.ok v, w', [])) : v' = v ∧ cs = [] ∧ r = .ok () ∧ w = w' := by
  cases r with
  | error e => cases h
  | ok _ =>
    simp only [Program.run, Option.some.injEq, Prod.mk.injEq, Except.ok.injEq] at h
    exact ⟨h.1, h.2.2, rfl, h.2.1⟩

/-- A call that succeeds reads the proposal and the clock, draws the identifier,
reads the clock again and has its upsert committed. -/
theorem castVote_run {p u : UUID} {vote : String} {w w' : DaoStore} {cs : List Env} {v : DAOVote}
    (h : (DaoService.castVote p u vote).run DaoStore.exec w cs = some (.ok v, w', [])) :
    v.key = (p, u) ∧ (cs[2]?).map Env.uuid = some v.id ∧
      ∃ env, w.exec (.upsertVote v) env = (w', .ok ()) := by
  unfold DaoService.castVote DaoService.getProposal at h
  split at h
  · cases h
  simp only [Program.call_bind, Program.request_bind, Program.pure_eq] at h
  obtain ⟨e₁, cs₁, rfl, h₁⟩ := Program.run_request.mp h
  rw [DaoStore.exec_readOnly rfl] at h₁
  cases hr : (w.exec (.selectProposal p) e₁).2 with
  | error e =>
    rw [hr] at h₁
    cases h₁
  | ok proposal =>
  rw [hr] at h₁
  simp only [Program.done_bind] at h₁
  split at h₁
  · cases h₁
  obtain ⟨e₂, cs₂, rfl, h₂⟩ := Program.run_request.mp h₁
  split at h₂
  · cases h₂
  obtain ⟨e₃, cs₃, rfl, h₃⟩ := Program.run_request.mp h₂
  obtain ⟨e₄, cs₄, rfl, h₄⟩ := Program.run_request.mp h₃
  obtain ⟨e₅, cs₅, rfl, hanswer⟩ := Program.run_request.mp h₄
  obtain ⟨rfl, rfl, hok, rfl⟩ := upsert_run hanswer
  exact ⟨rfl, rfl, e₅, Prod.ext rfl hok⟩

/-- The row of a committed upsert is the vote it was given, under the identifier of
the row that was there. -/
theorem upsertVote_row {w w' : DaoStore} {v : DAOVote} {env : Env}
    (h : w.exec (.upsertVote v) env = (w', .ok ())) : w'.votes.find? v.key =
      some { v with id := ((w.votes.find? v.key).map DAOVote.id).getD v.id } := by
  rcases w.exec_upsertVote v env with ⟨e, he⟩ | ⟨tbl, ht, he⟩ | ⟨⟨row, hrow⟩, he⟩
  · rw [he] at h
    cases h
  · rw [he] at h
    cases h
    rw [Table.find?_insert ht, if_pos rfl, (Table.insert_eq_some.mp ht).1]
    rfl
  · rw [he] at h
    cases h
    have hkey : row.key = v.key := Table.key_of_find? hrow
    simp only [DAOVote.key, Prod.mk.injEq] at hkey
    rw [Table.find?_update, if_pos rfl, hrow]
    simp [DAOVote.revote, hkey]

/-- Only the identifier can differ, and it does unless the row is new or had the
identifier just drawn. -/
theorem stored_eq_iff {w w' : DaoStore} {v : DAOVote} {env : Env}
    (h : w.exec (.upsertVote v) env = (w', .ok ())) : w'.votes.find? v.key = some v ↔
      ∀ row, w.votes.find? v.key = some row → row.id = v.id := by
  rw [upsertVote_row h]
  cases hf : w.votes.find? v.key with
  | none => simp
  | some row =>
    simp only [Option.map_some, Option.getD_some, Option.some.injEq, forall_eq']
    constructor
    · intro heq
      have hid := congrArg DAOVote.id heq
      exact hid
    · exact fun hid => by rw [hid]

/-- The proposer overrides the automatic vote: the row keeps the identifier of the
automatic vote, and the returned vote has another. -/
theorem castVote_returns_unstored : ¬ ∀ (calls : Unit → Call) (proposals : Table DAOProposal.id)
    (schedule : List (Unit × Env)) (p u : UUID) (vote : String) (v : DAOVote) (w' : DaoStore),
    (DaoService.castVote p u vote).Completes DaoStore.exec
      (reached calls proposals schedule).world (.ok v) w' →
    w'.votes.find? (p, u) = some v := by
  intro h
  let created : List (Unit × Env) := [.good 0 0, .good 0 7, .good 0 0, .good 0 0, .good 0 0,
    .good 0 8, .good 0 0, .good 0 0].map fun env => ((), env)
  let calls : Unit → Call := fun _ => .createProposal 1 ⟨"quorum", "", 0, 10⟩
  let p : DAOProposal := ⟨7, 1, "quorum", "", .active, 5, 10, 0, 0⟩
  have hstate : (reached calls .empty created).world =
      ⟨⟨[p], by decide⟩, ⟨[⟨8, 7, 1, .yes, 1, 0⟩], by decide⟩⟩ := rfl
  have hrun : (DaoService.castVote 7 1 "no").Completes DaoStore.exec
      (reached calls .empty created).world (.ok ⟨9, 7, 1, .no, 1, 3⟩)
      ⟨⟨[p], by decide⟩, ⟨[⟨8, 7, 1, .no, 1, 3⟩], by decide⟩⟩ := by
    rw [hstate]
    exact ⟨[.good 3 0, .good 3 0, .good 3 9, .good 3 0, .good 3 0], rfl⟩
  exact absurd (h calls .empty created 7 1 "no" _ _ hrun) (by decide)

/-- In every state a call that succeeds returns the row it leaves exactly if there was
no row of the pair, or one with the identifier drawn for the call; and in every state
that runs of the service reach, there is no row exactly if the user has not voted on
the proposal. -/
theorem castVote_returns_stored_iff [DecidableEq ι] :
    (∀ (w w' : DaoStore) (p u : UUID) (vote : String) (cs : List Env) (v : DAOVote),
      (DaoService.castVote p u vote).run DaoStore.exec w cs = some (.ok v, w', []) →
      (w'.votes.find? (p, u) = some v ↔
        ∀ row, w.votes.find? (p, u) = some row → (cs[2]?).map Env.uuid = some row.id)) ∧
    ∀ (calls : ι → Call) (proposals : Table DAOProposal.id) (schedule : List (ι × Env))
      (p u : UUID), (reached calls proposals schedule).world.votes.find? (p, u) = none ↔
        u ∉ voters p (reached calls proposals schedule).history := by
  constructor
  · intro w w' p u vote cs v h
    obtain ⟨hkey, hid, env, hexec⟩ := castVote_run h
    rw [← hkey, stored_eq_iff hexec, hid]
    simp only [Option.some.injEq, eq_comm]
  · intro calls proposals schedule p u
    obtain ⟨hinv, -⟩ := reached_append calls proposals schedule []
    rw [mem_voters, ← hinv.ballots, Option.isSome_map, Bool.not_eq_true, Option.isSome_eq_false_iff,
      Option.isNone_iff_eq_none]

/-- A first vote is returned as it is stored. -/
theorem castVote_returns_stored_iff_first :
    Table.find? (⟨[⟨9, 7, 2, .no, 1, 3⟩], by decide⟩ : Table DAOVote.key) (7, 2) =
      some ⟨9, 7, 2, .no, 1, 3⟩ := by
  let w : DaoStore := ⟨⟨[⟨7, 1, "quorum", "", .active, 5, 10, 0, 0⟩], by decide⟩, .empty⟩
  let w' : DaoStore := { w with votes := ⟨[⟨9, 7, 2, .no, 1, 3⟩], by decide⟩ }
  refine ((castVote_returns_stored_iff (ι := Unit)).1 w w' 7 2 "no"
    [.good 3 0, .good 3 0, .good 3 9, .good 3 0, .good 3 0] _ rfl).mpr fun row hrow => ?_
  cases hrow

end SafetyDao.VoteReceipt
