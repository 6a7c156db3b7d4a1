import SafetyDao.Interleaving
import SafetyDao.MockSearch

/-!
# Switching to mock mode while calls run

Calls of `StoreEmbedding` and `SearchSimilar` run interleaved: between reading the mode, an
exchange with the server and the use of the mock list other calls come in. A failed connection
switches the client for good. A journal of the writes says what each of the two stores was
given, and a search that consults the mock list misses what was last given to the server.
-/
namespace SafetyDao.ModeSwitch
open MockSearch (Stored Server)

/-- Where a point has been written. -/
inductive Place where
  | live
  | mock
deriving DecidableEq

/-- What a call does at once. The mock list is used under a lock; that of `append` and `scan`
names the collection although the list does not keep it. -/
inductive ClientOp (F32 P : Type) where
  | readMode
  | setMock
  | append (collection : String) (point : MockPoint F32 P)
  | scan (collection : String) (vector : List F32) (limit : ℤ)
  | exchange (op : QdrantOp F32 P)

abbrev ClientOp.Res {F32 P : Type} : ClientOp F32 P → Type
  | .readMode => Bool
  | .setMock => Unit
  | .append .. => Unit
  | .scan .. => Option (List (MockPoint F32 P))
  | .exchange op => op.Res

abbrev Shared (F32 P α : Type) : Type := Program (@ClientOp.Res F32 P) α

/-- How an exchange goes. An upsert of which no answer arrives may have been carried out. -/
structure Fate (P : Type) where
  upsert : Exchange Unit
  search : Exchange (List (ScoredPoint P))
  carriedOut : Bool

/-- Whether the server carries an upsert out. -/
def Fate.upserts {P : Type} (fate : Fate P) : Bool :=
  match fate.upsert with
  | .response r => r.statusCode < 400
  | .unavailable _ => fate.carriedOut
  | _ => false

structure Write (F32 P : Type) where
  place : Place
  collection : String
  point : MockPoint F32 P

/-- The client, the server, and what was written to either, the newest first. -/
structure World (F32 P : Type) where
  client : QdrantClient F32 P
  server : Server F32 P
  journal : List (Write F32 P)

variable {F32 F64 P ι α : Type}

section Programs
open Program

abbrev readMode : Shared F32 P Bool := call ClientOp.readMode
abbrev setMock : Shared F32 P Unit := call ClientOp.setMock
abbrev append (collection : String) (point : MockPoint F32 P) : Shared F32 P Unit :=
  call (ClientOp.append collection point)
abbrev scan (collection : String) (vector : List F32) (limit : ℤ) :
    Shared F32 P (Option (List (MockPoint F32 P))) := call (ClientOp.scan collection vector limit)
abbrev exchange (op : QdrantOp F32 P) : Shared F32 P op.Res := call (ClientOp.exchange op)

def storeInMock (e : Stored F32 P) : Shared F32 P (Except String Unit) := do
  append e.collection e.point
  return .ok ()

/-- The retry finds the mode that it has set, since nothing resets it. -/
def storeEmbedding (e : Stored F32 P) : Shared F32 P (Except String Unit) := do
  match ← readMode with
  | true => storeInMock e
  | false =>
    match ← exchange (.upsert e.collection e.point) with
    | .unmarshaled err => return .error ("marshaling upsert request: " ++ err)
    | .uncreated err => return .error ("creating upsert request: " ++ err)
    | .unavailable _ => do
      setMock
      storeInMock e
    | .response r =>
      if 400 ≤ r.statusCode then
        return .error ("qdrant upsert error (status " ++ toString r.statusCode ++ "): " ++ r.body)
      else return .ok ()

def searchInMock (collection : String) (vector : List F32) (limit : ℤ) :
    Shared F32 P (Option (Except String (List (MockPoint F32 P)))) := do
  return (← scan collection vector limit).map .ok

def searchSimilar (collection : String) (vector : List F32) (limit : ℤ) :
    Shared F32 P (Option (Except String (List (MockPoint F32 P)))) := do
  match ← readMode with
  | true => searchInMock collection vector limit
  | false =>
    match ← exchange (.search collection vector limit) with
    | .unmarshaled err => return some (.error ("marshaling search request: " ++ err))
    | .uncreated err => return some (.error ("creating search request: " ++ err))
    | .unavailable _ => do
      setMock
      searchInMock collection vector limit
    | .response r =>
      if 400 ≤ r.statusCode then
        return some (.error
          ("qdrant search error (status " ++ toString r.statusCode ++ "): " ++ r.body))
      else
        match r.decoded with
        | .error err => return some (.error ("decoding search response: " ++ err))
        | .ok result => return some (.ok (result.map fun sp => ⟨sp.id, [], sp.payload⟩))

inductive Call (F32 P : Type) where
  | store (e : Stored F32 P)
  | search (collection : String) (vector : List F32) (limit : ℤ)

inductive Reply (F32 P : Type) where
  | store (r : Except String Unit)
  | search (r : Option (Except String (List (MockPoint F32 P))))

def Call.program : Call F32 P → Shared F32 P (Reply F32 P)
  | .store e => Reply.store <$> storeEmbedding e
  | .search collection vector limit => Reply.search <$> searchSimilar collection vector limit

end Programs

section Writes

/-- The newest write of an identifier to a collection. -/
def lastWrite (journal : List (Write F32 P)) (collection id : String) : Option (Write F32 P) :=
  journal.find? fun w => w.collection = collection ∧ w.point.id = id

variable {journal : List (Write F32 P)} {collection id : String} {w : Write F32 P}

theorem lastWrite_cons (w : Write F32 P) (journal : List (Write F32 P)) (collection id : String) :
    lastWrite (w :: journal) collection id =
      if w.collection = collection ∧ w.point.id = id then some w
      else lastWrite journal collection id := by
  rw [lastWrite, List.find?_cons, lastWrite]
  by_cases hw : w.collection = collection ∧ w.point.id = id <;> simp [hw]

theorem lastWrite_append (newer journal : List (Write F32 P)) (collection id : String) :
    lastWrite (newer ++ journal) collection id =
      (lastWrite newer collection id).or (lastWrite journal collection id) :=
  List.find?_append

theorem mem_of_lastWrite (h : lastWrite journal collection id = some w) : w ∈ journal :=
  List.mem_of_find?_eq_some h

theorem lastWrite_spec (h : lastWrite journal collection id = some w) :
    w.collection = collection ∧ w.point.id = id := by
  have hw := List.find?_some h
  exact of_decide_eq_true hw

theorem exists_lastWrite (h : w ∈ journal) :
    ∃ w', lastWrite journal w.collection w.point.id = some w' := by
  cases hlast : lastWrite journal w.collection w.point.id with
  | some w' => exact ⟨w', rfl⟩
  | none =>
    have hnone := List.find?_eq_none.mp hlast w h
    simp at hnone

theorem find?_server_upsert (server : Server F32 P) (collection : String) (point : MockPoint F32 P)
    (collection' id : String) :
    (server.upsert collection point collection').find? id =
      if collection = collection' ∧ point.id = id then some point
      else (server collection').find? id := by
  rw [Server.upsert]
  by_cases hcol : collection' = collection
  · subst hcol
    simp only [Function.update_self, Table.find?_upsert, true_and]
  · rw [Function.update_of_ne hcol, if_neg fun hboth => hcol hboth.1.symm]

/-- The writes that the server was given. -/
def live (journal : List (Write F32 P)) : List (Write F32 P) :=
  journal.filter (·.place = .live)

end Writes

section Exec

variable [Mul F32] [OfNat F64 0] [OfNat F64 2] [OfScientific F64] [Add F64] [Sub F64] [Mul F64]
  [Div F64] [BEq F64] [LT F64] [DecidableLT F64] (float64 : F32 → F64)

def World.exec (s : World F32 P) (op : ClientOp F32 P) (fate : Fate P) : World F32 P × op.Res :=
  match op with
  | .readMode => (s, s.client.mockMode)
  | .setMock => ({ s with client := { s.client with mockMode := true } }, ())
  | .append collection point =>
    ({ s with
      client := s.client.storeMock point.id point.vector point.payload
      journal := ⟨.mock, collection, point⟩ :: s.journal }, ())
  | .scan _ vector limit => (s, s.client.searchMock float64 vector limit)
  | .exchange (.upsert collection point) =>
    (if fate.upserts then
      { s with
        server := s.server.upsert collection point
        journal := ⟨.live, collection, point⟩ :: s.journal }
      else s, fate.upsert)
  | .exchange (.search ..) => (s, fate.search)

/-- How an exchange of the client alone goes. -/
def answer (_ : Unit) (op : QdrantOp F32 P) (fate : Fate P) : Unit × op.Res :=
  match op with
  | .upsert .. => ((), fate.upsert)
  | .search .. => ((), fate.search)

theorem exec_exchange_client (s : World F32 P) (op : QdrantOp F32 P) (fate : Fate P) :
    (s.exec float64 (.exchange op) fate).1.client = s.client := by
  cases op with
  | upsert collection point =>
    simp only [World.exec]
    split <;> rfl
  | search collection vector limit => rfl

/-- Run alone, a call does to the client what it does when nothing can come in between. -/
theorem storeEmbedding_alone (e : Stored F32 P) (s : World F32 P) :
    Program.Ensures (World.exec float64)
      (fun r s' => (s.client.storeEmbedding e.collection e.id e.vector e.payload).Completes answer
        () (s'.client, r) ()) (storeEmbedding e) s := by
  unfold storeEmbedding storeInMock QdrantClient.storeEmbedding
  simp only [Program.call_bind, Program.pure_eq]
  intro _
  cases hmode : s.client.mockMode with
  | true =>
    simp only [World.exec, hmode]
    exact fun _ => ⟨[], rfl⟩
  | false =>
  simp only [World.exec, hmode, Bool.false_eq_true, if_false]
  intro fate
  have hclient := exec_exchange_client float64 s (.upsert e.collection e.point) fate
  have hanswer : (s.exec float64 (.exchange (.upsert e.collection e.point)) fate).2 =
    fate.upsert := rfl
  rw [hanswer]
  generalize (s.exec float64 (.exchange (.upsert e.collection e.point)) fate).1 = s₁ at hclient ⊢
  cases hfate : fate.upsert with
  | unmarshaled err => exact ⟨[fate], by simp [Program.run, answer, hfate, hclient]⟩
  | uncreated err => exact ⟨[fate], by simp [Program.run, answer, hfate, hclient]⟩
  | unavailable err =>
    exact fun _ _ => ⟨[fate], by
      simp [Program.run, answer, hfate, hclient, World.exec, Stored.point]⟩
  | response r =>
    dsimp only
    split
    · rename_i hstatus
      exact ⟨[fate], by simp [Program.run, answer, hfate, hclient, hstatus]⟩
    · rename_i hstatus
      exact ⟨[fate], by simp [Program.run, answer, hfate, hclient, hstatus]⟩

theorem searchSimilar_alone (collection : String) (vector : List F32) (limit : ℤ)
    (s : World F32 P) :
    Program.Ensures (World.exec float64)
      (fun r s' => (s.client.searchSimilar float64 collection vector limit).Completes answer
        () (s'.client, r) ()) (searchSimilar collection vector limit) s := by
  unfold searchSimilar searchInMock QdrantClient.searchSimilar
  simp only [Program.call_bind, Program.pure_eq]
  intro _
  cases hmode : s.client.mockMode with
  | true =>
    simp only [World.exec, hmode]
    exact fun _ => ⟨[], rfl⟩
  | false =>
  simp only [World.exec, hmode, Bool.false_eq_true, if_false]
  intro fate
  have hanswer : (s.exec float64 (.exchange (.search collection vector limit)) fate) =
    (s, fate.search) := rfl
  rw [hanswer]
  cases hfate : fate.search with
  | unmarshaled err => exact ⟨[fate], by simp [Program.run, answer, hfate]⟩
  | uncreated err => exact ⟨[fate], by simp [Program.run, answer, hfate]⟩
  | unavailable err => exact fun _ _ => ⟨[fate], by simp [Program.run, answer, hfate, World.exec]⟩
  | response r =>
    dsimp only
    split
    · rename_i hstatus
      exact ⟨[fate], by simp [Program.run, answer, hfate, hstatus]⟩
    · rename_i hstatus
      cases hdecoded : r.decoded with
      | error err => exact ⟨[fate], by simp [Program.run, answer, hfate, hstatus, hdecoded]⟩
      | ok result => exact ⟨[fate], by simp [Program.run, answer, hfate, hstatus, hdecoded]⟩

end Exec

/-- The store whose points a request compares with its vector. -/
def comparesWith : ClientOp F32 P → Option Place
  | .scan .. => some .mock
  | .exchange (.search ..) => some .live
  | _ => none

/-- The points that a request compares with its vector. -/
def candidates (s : World F32 P) : ClientOp F32 P → List (MockPoint F32 P)
  | .scan .. => s.client.mockData
  | .exchange (.search collection ..) => (s.server collection).rows
  | _ => []

/-- Both stores have what the journal says. -/
structure Inv (calls : ι → Call F32 P) (s : World F32 P) : Prop where
  mock : ∀ w ∈ s.journal, w.place = .mock →
    s.client.mockMode = true ∧ w.point ∈ s.client.mockData
  live : ∀ collection id w, lastWrite (live s.journal) collection id = some w →
    (s.server collection).find? id = some w.point
  origin : ∀ w ∈ s.journal, ∃ t e, calls t = .store e ∧ e.collection = w.collection ∧
    e.point = w.point

section Moves

variable {calls : ι → Call F32 P} {s s' : World F32 P}

structure Moves (calls : ι → Call F32 P) (s s' : World F32 P) : Prop where
  journal : ∃ newer, s'.journal = newer ++ s.journal
  mode : s.client.mockMode = true → s'.client.mockMode = true
  inv : Inv calls s → Inv calls s'

theorem Moves.refl (calls : ι → Call F32 P) (s : World F32 P) : Moves calls s s :=
  ⟨⟨[], rfl⟩, id, id⟩

theorem Moves.trans {s₁ s₂ s₃ : World F32 P} (h₁ : Moves calls s₁ s₂) (h₂ : Moves calls s₂ s₃) :
    Moves calls s₁ s₃ := by
  refine ⟨?_, fun h => h₂.mode (h₁.mode h), fun h => h₂.inv (h₁.inv h)⟩
  obtain ⟨newer₁, hj₁⟩ := h₁.journal
  obtain ⟨newer₂, hj₂⟩ := h₂.journal
  exact ⟨newer₂ ++ newer₁, by rw [hj₂, hj₁, List.append_assoc]⟩

theorem moves_setMock (calls : ι → Call F32 P) (s : World F32 P) :
    Moves calls s { s with client := { s.client with mockMode := true } } :=
  ⟨⟨[], rfl⟩, fun _ => rfl, fun h => ⟨fun w hw hmock => ⟨rfl, (h.mock w hw hmock).2⟩, h.live,
    h.origin⟩⟩

variable {t : ι} {e : Stored F32 P}

/-- In mock mode a point is added to the list. -/
theorem moves_append (he : calls t = .store e) (hmode : s.client.mockMode = true) :
    Moves calls s
      { s with
        client := s.client.storeMock e.point.id e.point.vector e.point.payload
        journal := ⟨.mock, e.collection, e.point⟩ :: s.journal } := by
  refine ⟨⟨[_], rfl⟩, id, fun h => ⟨fun w hw hmock => ?_, fun collection id w hlast => ?_,
    fun w hw => ?_⟩⟩
  · rcases List.mem_cons.mp hw with rfl | hw
    · exact ⟨hmode, List.mem_append_right _ List.mem_cons_self⟩
    · exact ⟨hmode, List.mem_append_left _ (h.mock w hw hmock).2⟩
  · exact h.live collection id w hlast
  · rcases List.mem_cons.mp hw with rfl | hw
    · exact ⟨t, e, he, rfl, rfl⟩
    · exact h.origin w hw

/-- The server puts a point in the place of the one that has its identifier. -/
theorem moves_upsert (he : calls t = .store e) :
    Moves calls s
      { s with
        server := s.server.upsert e.collection e.point
        journal := ⟨.live, e.collection, e.point⟩ :: s.journal } := by
  refine ⟨⟨[_], rfl⟩, id, fun h => ⟨fun w hw hmock => ?_, fun collection id w hlast => ?_,
    fun w hw => ?_⟩⟩
  · rcases List.mem_cons.mp hw with rfl | hw
    · cases hmock
    · exact h.mock w hw hmock
  · have hcons : live (⟨.live, e.collection, e.point⟩ :: s.journal) =
        ⟨.live, e.collection, e.point⟩ :: live s.journal := rfl
    rw [hcons, lastWrite_cons] at hlast
    refine (find?_server_upsert s.server e.collection e.point collection id).trans ?_
    split at hlast
    · rename_i hkey
      rw [if_pos hkey, ← Option.some.inj hlast]
    · rename_i hkey
      rw [if_neg hkey]
      exact h.live _ _ _ hlast
  · rcases List.mem_cons.mp hw with rfl | hw
    · exact ⟨t, e, he, rfl, rfl⟩
    · exact h.origin w hw

end Moves

section Candidates

variable {calls : ι → Call F32 P}

/-- Where an identifier has been written, a candidate has been written for it then or since;
from the mock list this is asked only of what was written there. -/
def Sees (old : List (Write F32 P)) (collection : String) (s : World F32 P)
    (op : ClientOp F32 P) : Prop :=
  ∀ place id w, comparesWith op = some place → lastWrite old collection id = some w →
    (place = .mock → w.place = .mock) →
    ∃ newer w', s.journal = newer ++ old ∧ (w' = w ∨ w' ∈ newer) ∧ w'.collection = collection ∧
      w'.point.id = id ∧ w'.point ∈ candidates s op

/-- A state of the run after the call has begun. -/
structure Since (calls : ι → Call F32 P) (old : List (Write F32 P)) (s : World F32 P) : Prop where
  inv : Inv calls s
  journal : ∃ newer, s.journal = newer ++ old

theorem Since.moves {old : List (Write F32 P)} (s s' : World F32 P) (hm : Moves calls s s')
    (h : Since calls old s) : Since calls old s' := by
  refine ⟨hm.inv h.inv, ?_⟩
  obtain ⟨newer, hnewer⟩ := h.journal
  obtain ⟨later, hlater⟩ := hm.journal
  exact ⟨later ++ newer, by rw [hlater, hnewer, List.append_assoc]⟩

theorem sees_scan {old : List (Write F32 P)} {s : World F32 P} (h : Since calls old s)
    (collection : String) (vector : List F32) (limit : ℤ) :
    Sees old collection s (.scan collection vector limit) := by
  intro place id w hplace hlast hmock
  obtain ⟨newer, hnewer⟩ := h.journal
  have hw : w ∈ s.journal := hnewer ▸ List.mem_append_right newer (mem_of_lastWrite hlast)
  obtain ⟨hcollection, hid⟩ := lastWrite_spec hlast
  exact ⟨newer, w, hnewer, .inl rfl, hcollection, hid,
    (h.inv.mock w hw (hmock (Option.some.inj hplace).symm)).2⟩

/-- As long as nothing is in the mock list, the server has every point. -/
theorem sees_exchange {old : List (Write F32 P)} {s : World F32 P} (h : Since calls old s)
    (hlive : ∀ w ∈ old, w.place = .live) (collection : String) (vector : List F32) (limit : ℤ) :
    Sees old collection s (.exchange (.search collection vector limit)) := by
  intro place id w _ hlast _
  obtain ⟨newer, hnewer⟩ := h.journal
  have hold : live old = old := List.filter_eq_self.mpr fun w hw => decide_eq_true (hlive w hw)
  have hsplit : lastWrite (live s.journal) collection id =
      (lastWrite (live newer) collection id).or (some w) := by
    rw [← hlast, ← lastWrite_append, hnewer, live, List.filter_append, ← live, ← live, hold]
  cases hnew : lastWrite (live newer) collection id with
  | none =>
    rw [hnew] at hsplit
    obtain ⟨hcollection, hid⟩ := lastWrite_spec hlast
    exact ⟨newer, w, hnewer, .inl rfl, hcollection, hid,
      Table.mem_of_find? (h.inv.live collection id w hsplit)⟩
  | some w' =>
    rw [hnew] at hsplit
    obtain ⟨hcollection, hid⟩ := lastWrite_spec hnew
    exact ⟨newer, w', hnewer, .inr (List.mem_of_mem_filter (mem_of_lastWrite hnew)), hcollection,
      hid, Table.mem_of_find? (h.inv.live collection id w' hsplit)⟩

theorem sees_of_none {old : List (Write F32 P)} {collection : String} {s : World F32 P}
    {op : ClientOp F32 P} (h : comparesWith op = none) :
    Sees old collection s op := by
  intro place id w hplace
  rw [h] at hplace
  cases hplace

end Candidates

section Contracts

abbrev State (F32 P ι : Type) : Type := Recorded (@ClientOp.Res F32 P) (World F32 P) ι

def anyRequest (_ : ι) (_ : State F32 P ι) (_ : ClientOp F32 P) (_ : Fate P) : Prop := True

/-- What a thread promises of its requests, besides moving as all do. -/
def contract (calls : ι → Call F32 P) (sees : World F32 P → ClientOp F32 P → Prop)
    (post : α → World F32 P → Prop) : Contract (State F32 P ι) α where
  rely s s' := Moves calls s.world s'.world
  guar s s' := Moves calls s.world s'.world ∧
    ∀ event, s'.history = event :: s.history → sees s.world event.op
  post a s := post a s.world

theorem contracts_compatible (calls : ι → Call F32 P)
    (sees : ι → World F32 P → ClientOp F32 P → Prop) (post : ι → α → World F32 P → Prop) :
    Contract.Compatible (fun t => contract calls (sees t) (post t)) where
  refl _ s := Moves.refl calls s.world
  trans _ _ _ _ h₁ h₂ := h₁.trans h₂
  guar_rely _ _ _ _ _ h := h.1

theorem keeps_mockMode {calls : ι → Call F32 P} (s s' : World F32 P) (hm : Moves calls s s')
    (h : s.client.mockMode = true) : s'.client.mockMode = true := hm.mode h

/-- A point whose call has returned without an error has been written. -/
def Kept (e : Stored F32 P) (r : Except String Unit) (s : World F32 P) : Prop :=
  r = .ok () → ∃ w ∈ s.journal, w.collection = e.collection ∧ w.point = e.point

theorem Kept.moves {calls : ι → Call F32 P} {e : Stored F32 P} {r : Except String Unit}
    {s s' : World F32 P} (h : Kept e r s) (hm : Moves calls s s') : Kept e r s' := by
  intro hr
  obtain ⟨w, hw, hcollection, hpoint⟩ := h hr
  obtain ⟨newer, hjournal⟩ := hm.journal
  exact ⟨w, hjournal ▸ List.mem_append_right newer hw, hcollection, hpoint⟩

variable [Mul F32] [OfNat F64 0] [OfNat F64 2] [OfScientific F64] [Add F64] [Sub F64] [Mul F64]
  [Div F64] [BEq F64] [LT F64] [DecidableLT F64] (float64 : F32 → F64)

def perform : ι → State F32 P ι → (op : ClientOp F32 P) → Fate P → State F32 P ι × op.Res :=
  Recorded.perform (World.exec float64)

variable {float64} {calls : ι → Call F32 P} {sees : World F32 P → ClientOp F32 P → Prop}
  {post : α → World F32 P → Prop} {t : ι}

/-- A request under an assertion about the world that the others keep. -/
theorem holds_request {Pre : World F32 P → Prop} {op : ClientOp F32 P}
    {next : op.Res → Shared F32 P α} {s : State F32 P ι}
    (hstable : ∀ s s', Moves calls s s' → Pre s → Pre s') (hs : Pre s.world)
    (h : ∀ s fate, Pre s → Moves calls s (s.exec float64 op fate).1 ∧ sees s op ∧
      ∀ history, Contract.Holds (perform float64) anyRequest t (contract calls sees post)
        (next (s.exec float64 op fate).2) ⟨(s.exec float64 op fate).1, history⟩) :
    Contract.Holds (perform float64) anyRequest t (contract calls sees post)
      (.request op next) s := by
  refine Contract.Holds.of_stable (fun s s' hm => hstable s.world s'.world hm) hs
    fun s₁ hs₁ fate _ => ?_
  obtain ⟨hmove, hsees, hnext⟩ := h s₁.world fate hs₁
  refine ⟨⟨hmove, fun event hevent => ?_⟩, hnext _⟩
  rw [← (List.cons.inj hevent).1]
  exact hsees

section Store

variable {e : Stored F32 P} (he : calls t = .store e)
  (hsees : ∀ s op, comparesWith op = none → sees s op)
include he hsees

theorem holds_storeInMock {s : State F32 P ι} (hs : s.world.client.mockMode = true) :
    Contract.Holds (perform float64) anyRequest t (contract calls sees (Kept e))
      (storeInMock e) s := by
  unfold storeInMock
  simp only [Program.call_bind, Program.pure_eq]
  refine holds_request keeps_mockMode hs fun s₁ _ hs₁ =>
    ⟨moves_append he hs₁, hsees _ _ rfl, fun _ s₂ hm => ?_⟩
  exact Kept.moves (fun _ => ⟨_, List.mem_cons_self, rfl, rfl⟩) hm

theorem holds_storeEmbedding (s : State F32 P ι) :
    Contract.Holds (perform float64) anyRequest t (contract calls sees (Kept e))
      (storeEmbedding e) s := by
  have herror : ∀ (err : String) (s : State F32 P ι), Contract.Holds (perform float64) anyRequest t
      (contract calls sees (Kept e)) (.done (.error err)) s := fun err s s' _ h => by cases h
  unfold storeEmbedding
  simp only [Program.call_bind, Program.pure_eq]
  refine holds_request (fun _ _ _ _ => trivial) trivial fun s₁ _ _ =>
    ⟨Moves.refl calls s₁, hsees _ _ rfl, fun history => ?_⟩
  cases hmode : s₁.client.mockMode with
  | true =>
    simp only [World.exec, hmode]
    exact holds_storeInMock he hsees hmode
  | false =>
  simp only [World.exec, hmode]
  refine holds_request (fun _ _ _ _ => trivial) trivial fun s₂ fate _ => ⟨?_, hsees _ _ rfl, ?_⟩
  · simp only [World.exec]
    split
    · exact moves_upsert he
    · exact Moves.refl calls s₂
  intro history
  cases hfate : fate.upsert with
  | unmarshaled err => simp only [World.exec, hfate]; exact herror _ _
  | uncreated err => simp only [World.exec, hfate]; exact herror _ _
  | unavailable err =>
    simp only [World.exec, hfate]
    refine holds_request (fun _ _ _ _ => trivial) trivial fun s₃ _ _ =>
      ⟨moves_setMock calls s₃, hsees _ _ rfl, fun _ => ?_⟩
    exact holds_storeInMock he hsees rfl
  | response r =>
    simp only [World.exec, hfate]
    split
    · exact herror _ _
    · rename_i hstatus
      have hupserts : fate.upserts = true := by
        simp only [Fate.upserts, hfate, decide_eq_true_eq]
        omega
      rw [if_pos hupserts]
      intro s' hm
      exact Kept.moves (fun _ => ⟨_, List.mem_cons_self, rfl, rfl⟩) hm

end Store

section Search

variable {old : List (Write F32 P)} {collection : String}

theorem holds_searchInMock (vector : List F32) (limit : ℤ) {s : State F32 P ι}
    (hs : Since calls old s.world) :
    Contract.Holds (perform float64) anyRequest t (contract calls (Sees old collection)
      fun _ _ => True) (searchInMock collection vector limit) s := by
  unfold searchInMock
  simp only [Program.call_bind, Program.pure_eq]
  exact holds_request Since.moves hs fun s₁ _ hs₁ =>
    ⟨Moves.refl calls s₁, sees_scan hs₁ collection vector limit, fun _ _ _ => trivial⟩

theorem holds_searchSimilar (vector : List F32) (limit : ℤ) {s : State F32 P ι}
    (hs : Since calls old s.world) :
    Contract.Holds (perform float64) anyRequest t (contract calls (Sees old collection)
      fun _ _ => True) (searchSimilar collection vector limit) s := by
  have hdone : ∀ (r : Option (Except String (List (MockPoint F32 P)))) (s : State F32 P ι),
      Contract.Holds (perform float64) anyRequest t (contract calls (Sees old collection)
        fun _ _ => True) (.done r) s := fun _ _ _ _ => trivial
  unfold searchSimilar
  simp only [Program.call_bind, Program.pure_eq]
  refine holds_request Since.moves hs fun s₁ _ hs₁ =>
    ⟨Moves.refl calls s₁, sees_of_none rfl, fun history => ?_⟩
  cases hmode : s₁.client.mockMode with
  | true =>
    simp only [World.exec, hmode]
    exact holds_searchInMock vector limit hs₁
  | false =>
  -- nothing has been written to the mock list, so what was written before is on the server
  have hlive : ∀ w ∈ old, w.place = .live := by
    intro w hw
    obtain ⟨newer, hnewer⟩ := hs₁.journal
    cases hplace : w.place with
    | live => rfl
    | mock =>
      have hmock := (hs₁.inv.mock w (hnewer ▸ List.mem_append_right newer hw) hplace).1
      rw [hmode] at hmock
      cases hmock
  simp only [World.exec, hmode]
  refine holds_request Since.moves hs₁ fun s₂ fate hs₂ =>
    ⟨Moves.refl calls s₂, sees_exchange hs₂ hlive collection vector limit, fun _ => ?_⟩
  cases hfate : fate.search with
  | unmarshaled err => simp only [World.exec, hfate]; exact hdone _ _
  | uncreated err => simp only [World.exec, hfate]; exact hdone _ _
  | unavailable err =>
    simp only [World.exec, hfate]
    refine holds_request Since.moves hs₂ fun s₃ _ hs₃ =>
      ⟨moves_setMock calls s₃, sees_of_none rfl, fun _ => ?_⟩
    exact holds_searchInMock vector limit (Since.moves _ _ (moves_setMock calls s₃) hs₃)
  | response r =>
    simp only [World.exec, hfate]
    split
    · exact hdone _ _
    · split <;> exact hdone _ _

theorem holds_search (vector : List F32) (limit : ℤ) {s : State F32 P ι}
    (hs : Since calls old s.world) :
    Contract.Holds (perform float64) anyRequest t (contract calls (Sees old collection)
      fun _ _ => True) (Call.search collection vector limit).program s :=
  (holds_searchSimilar vector limit hs).bind (fun s => Moves.refl calls s.world)
    fun _ _ _ _ _ => trivial

end Search

end Contracts

section Runs

variable [Mul F32] [OfNat F64 0] [OfNat F64 2] [OfScientific F64] [Add F64] [Sub F64] [Mul F64]
  [Div F64] [BEq F64] [LT F64] [DecidableLT F64] (float64 : F32 → F64)
  (calls : ι → Call F32 P) (server : Server F32 P)

/-- A new client; the server may have points already. -/
def start : Pool (@ClientOp.Res F32 P) (State F32 P ι) ι (Reply F32 P) :=
  ⟨⟨⟨⟨false, []⟩, server, []⟩, []⟩, fun t => (calls t).program⟩

def callPost (t : ι) (r : Reply F32 P) (s : World F32 P) : Prop :=
  ∀ e res, calls t = .store e → r = .store res → Kept e res s

theorem holds_program (t : ι) {s : State F32 P ι} (hs : Inv calls s.world) :
    Contract.Holds (perform float64) anyRequest t
      (contract calls (fun _ _ => True) (callPost calls t)) (calls t).program s := by
  cases hc : calls t with
  | store e =>
    refine (holds_storeEmbedding hc (fun _ _ _ => trivial) s).bind
      (fun s => Moves.refl calls s.world) fun r s hr s' hm e' res hcall hreply => ?_
    rw [hc, Call.store.injEq] at hcall
    rw [Reply.store.injEq] at hreply
    exact hcall ▸ hreply ▸ Kept.moves hr hm
  | search collection vector limit =>
    have hsearch : Contract.Holds (perform float64) anyRequest t
        (contract calls (Sees s.world.journal collection) fun _ _ => True)
        (Call.search collection vector limit).program s := holds_search vector limit ⟨hs, [], rfl⟩
    refine Contract.Holds.mono ?_ ?_ ?_ hsearch
    · exact fun _ _ h => h
    · exact fun _ _ h => ⟨h.1, fun _ _ => trivial⟩
    · intro r s _ e res hcall
      rw [hc] at hcall
      cases hcall

variable [DecidableEq ι]

variable {float64 calls} in
/-- Runs on from a state in which every thread meets its contract. -/
theorem run_sound {sees : ι → World F32 P → ClientOp F32 P → Prop}
    {post : ι → Reply F32 P → World F32 P → Prop}
    (pool : Pool (@ClientOp.Res F32 P) (State F32 P ι) ι (Reply F32 P))
    (h : ∀ t, Contract.Holds (perform float64) anyRequest t (contract calls (sees t) (post t))
      (pool.threads t) pool.state) (schedule : List (ι × Fate P)) :
    (∀ t, Contract.Holds (perform float64) anyRequest t (contract calls (sees t) (post t))
      ((pool.run (perform float64) schedule).threads t)
      (pool.run (perform float64) schedule).state) ∧
      Moves calls pool.state.world (pool.run (perform float64) schedule).state.world :=
  Contract.run_sound (contracts_compatible calls sees post)
    (fun s s' => Moves calls s.world s'.world) (fun s => Moves.refl calls s.world)
    (fun _ _ _ h₁ h₂ => h₁.trans h₂) (fun _ _ _ h => h.1)
    (Pool.guarded_of_forall (fun _ _ _ _ => trivial) pool schedule) h

def reached (schedule : List (ι × Fate P)) :
    Pool (@ClientOp.Res F32 P) (State F32 P ι) ι (Reply F32 P) :=
  (start calls server).run (perform float64) schedule

/-- What was written until the calls of a schedule have run. -/
def written (schedule : List (ι × Fate P)) : List (Write F32 P) :=
  (reached float64 calls server schedule).state.world.journal

theorem reached_sound (schedule : List (ι × Fate P)) :
    Inv calls (reached float64 calls server schedule).state.world ∧
      ∀ t, Contract.Holds (perform float64) anyRequest t
        (contract calls (fun _ _ => True) (callPost calls t))
        ((reached float64 calls server schedule).threads t)
        (reached float64 calls server schedule).state := by
  have hstart : Inv calls (start calls server).state.world :=
    ⟨fun w hw => absurd hw List.not_mem_nil, fun collection id w hw => (by cases hw),
      fun w hw => absurd hw List.not_mem_nil⟩
  obtain ⟨hholds, hmoves⟩ :=
    run_sound (start calls server) (fun t => holds_program float64 calls t hstart) schedule
  exact ⟨hmoves.inv hstart, hholds⟩

/-- Among the points that a request compares is one that was written for the identifier of an
earlier call last before the search, or since; if no other call has the identifier, it is the
point of that call. -/
def AmongCandidates (calls : ι → Call F32 P) (old : List (Write F32 P)) (s : World F32 P)
    (op : ClientOp F32 P) (t : ι) (e : Stored F32 P) : Prop :=
  (∃ newer w, s.journal = newer ++ old ∧
    (lastWrite old e.collection e.id = some w ∨ w ∈ newer) ∧
    w.collection = e.collection ∧ w.point.id = e.id ∧ w.point ∈ candidates s op) ∧
  ((∀ t' e', calls t' = .store e' → e'.collection = e.collection → e'.id = e.id → t' = t) →
    e.point ∈ candidates s op)

variable {calls server}

/-- The thread of a search that has not begun promises to see what has been written. -/
theorem sees_later {before after : List (ι × Fate P)} {u : ι} {collection : String}
    {vector : List F32} {limit : ℤ} {op : ClientOp F32 P}
    {next : op.Res → Shared F32 P (Reply F32 P)}
    (hsearch : calls u = .search collection vector limit) (hlater : ∀ slot ∈ before, slot.1 ≠ u)
    (hnow : (reached float64 calls server (before ++ after)).threads u = .request op next) :
    Sees (written float64 calls server before) collection
      (reached float64 calls server (before ++ after)).state.world op := by
  obtain ⟨hinv, hholds⟩ := reached_sound float64 calls server before
  let sees (t : ι) (s : World F32 P) (op : ClientOp F32 P) : Prop :=
    t = u → Sees (written float64 calls server before) collection s op
  have hmid : ∀ t, Contract.Holds (perform float64) anyRequest t
      (contract calls (sees t) fun _ _ => True) ((reached float64 calls server before).threads t)
      (reached float64 calls server before).state := by
    intro t
    by_cases ht : t = u
    · subst ht
      rw [reached, Pool.threads_run_of_forall_ne _ hlater]
      have hprogram : (start calls server).threads t =
          (Call.search collection vector limit).program := congrArg Call.program hsearch
      have hsince : Since calls (written float64 calls server before)
        (reached float64 calls server before).state.world := ⟨hinv, [], rfl⟩
      rw [hprogram]
      refine Contract.Holds.mono ?_ ?_ ?_ (holds_search vector limit hsince)
      · exact fun _ _ h => h
      · exact fun _ _ h => ⟨h.1, fun event hevent _ => h.2 event hevent⟩
      · exact fun _ _ h => h
    · refine Contract.Holds.mono ?_ ?_ ?_ (hholds t)
      · exact fun _ _ h => h
      · exact fun _ _ h => ⟨h.1, fun _ _ hu => absurd hu ht⟩
      · exact fun _ _ _ => trivial
  have hrun := (run_sound (reached float64 calls server before) hmid after).1 u
  rw [reached, Pool.run_append, ← reached] at hnow ⊢
  rw [hnow] at hrun
  have fate : Fate P := ⟨.uncreated "", .uncreated "", false⟩
  exact (hrun _ (Moves.refl calls _) fate trivial).1.2 _ rfl rfl

/-- A search sees every point stored before it began, except that the mock list does not have
what was last given to the server. -/
theorem stored_is_candidate {before after : List (ι × Fate P)} {t u : ι} {e : Stored F32 P}
    {vector : List F32} {limit : ℤ} {op : ClientOp F32 P}
    {next : op.Res → Shared F32 P (Reply F32 P)} {place : Place}
    (hstore : calls t = .store e) (hsearch : calls u = .search e.collection vector limit)
    (hstored : (reached float64 calls server before).threads t = .done (.store (.ok ())))
    (hlater : ∀ slot ∈ before, slot.1 ≠ u)
    (hnow : (reached float64 calls server (before ++ after)).threads u = .request op next)
    (hplace : comparesWith op = some place)
    (hwhen : ∀ w, lastWrite (written float64 calls server before) e.collection e.id = some w →
      place = .mock → w.place = .mock) :
    AmongCandidates calls (written float64 calls server before)
      (reached float64 calls server (before ++ after)).state.world op t e := by
  obtain ⟨hinv, hholds⟩ := reached_sound float64 calls server before
  have hwritten : ∃ w ∈ written float64 calls server before, w.collection = e.collection ∧
      w.point = e.point := by
    exact (hholds t).done hstored (fun s => Moves.refl calls s.world) e (.ok ()) hstore rfl rfl
  obtain ⟨w₀, hw₀, hcollection, hpoint⟩ := hwritten
  obtain ⟨w, hlast⟩ := exists_lastWrite hw₀
  rw [hcollection, hpoint] at hlast
  obtain ⟨newer, w', hnewer, hsince, hcollection', hid, hcandidate⟩ :=
    sees_later float64 hsearch hlater hnow place e.id w hplace hlast (hwhen w hlast)
  have hwhich : lastWrite (written float64 calls server before) e.collection e.id = some w' ∨
      w' ∈ newer := by
    rcases hsince with rfl | hin
    · exact .inl hlast
    · exact .inr hin
  refine ⟨⟨newer, w', hnewer, hwhich, hcollection', hid, hcandidate⟩, fun honly => ?_⟩
  have hw' : w' ∈ (reached float64 calls server (before ++ after)).state.world.journal := by
    rw [hnewer, List.mem_append]
    exact hwhich.symm.imp_right mem_of_lastWrite
  obtain ⟨t', e', hstore', hcol', hpoint'⟩ :=
    (reached_sound float64 calls server (before ++ after)).1.origin w' hw'
  have hid' : e'.id = e.id := (congrArg MockPoint.id hpoint').trans hid
  have hsame := honly t' e' hstore' (hcol'.trans hcollection') hid'
  rw [hsame, hstore, Call.store.injEq] at hstore'
  rwa [hstore', hpoint']

end Runs

section Switch

/-- A report that the server has been given, and a search that then cannot reach it. -/
def storeThenSearch : ℕ → Call ℚ Unit
  | 0 => .store ⟨"bad_client_reports", "9f1c", [1, 0], ()⟩
  | _ => .search "bad_client_reports" [1, 0] 5

def answered : Fate Unit := ⟨.response ⟨200, "", .ok ()⟩, .response ⟨200, "", .ok []⟩, true⟩

def refused : Fate Unit :=
  ⟨.unavailable "connection refused", .unavailable "connection refused", false⟩

/-- A point stored live is not in the list that is searched after the switch. -/
theorem stored_point_left_behind :
    ¬ ∀ (calls : ℕ → Call ℚ Unit) (server : Server ℚ Unit) (before after : List (ℕ × Fate Unit))
      (t u : ℕ) (e : Stored ℚ Unit) (vector : List ℚ) (limit : ℤ) (op : ClientOp ℚ Unit)
      (next : op.Res → Shared ℚ Unit (Reply ℚ Unit)) (place : Place),
      calls t = .store e → calls u = .search e.collection vector limit →
      (reached (id : ℚ → ℚ) calls server before).threads t = .done (.store (.ok ())) →
      (∀ slot ∈ before, slot.1 ≠ u) →
      (reached (id : ℚ → ℚ) calls server (before ++ after)).threads u = .request op next →
      comparesWith op = some place →
      AmongCandidates calls (written (id : ℚ → ℚ) calls server before)
        (reached (id : ℚ → ℚ) calls server (before ++ after)).state.world op t e := by
  intro h
  obtain ⟨⟨_, w, _, _, _, _, hcandidate⟩, _⟩ := h storeThenSearch MockSearch.emptyServer
    [(0, answered), (0, answered)] [(1, answered), (1, refused), (1, answered)] 0 1
    ⟨"bad_client_reports", "9f1c", [1, 0], ()⟩ [1, 0] 5
    (.scan "bad_client_reports" [1, 0] 5) _ .mock rfl rfl rfl (by decide) rfl rfl
  exact absurd hcandidate List.not_mem_nil

/-- A point stored after the switch is found. -/
theorem stored_is_candidate_in_mock_mode :
    AmongCandidates storeThenSearch
      (written (id : ℚ → ℚ) storeThenSearch MockSearch.emptyServer
        [(0, answered), (0, refused), (0, answered), (0, answered)])
      (reached (id : ℚ → ℚ) storeThenSearch MockSearch.emptyServer
        ([(0, answered), (0, refused), (0, answered), (0, answered)] ++
          [(1, answered)])).state.world
      (.scan "bad_client_reports" [1, 0] 5) 0 ⟨"bad_client_reports", "9f1c", [1, 0], ()⟩ := by
  refine stored_is_candidate (id : ℚ → ℚ) rfl (show storeThenSearch 1 = _ from rfl) rfl
    (by decide) rfl rfl fun w hlast _ => ?_
  rw [← Option.some.inj hlast]

end Switch

end SafetyDao.ModeSwitch
