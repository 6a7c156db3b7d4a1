import SafetyDao.QdrantClient
import SafetyDao.TopRanked
import Mathlib.Algebra.Order.Ring.Unbundled.Rat
import Mathlib.Data.List.Induction

/-!
# The mock mode beside a live server

A server replaces the point of an identifier within its collection and ranks what the
collection has. The mock mode appends every point to one list and shows the first that are
similar enough. Both show the same exactly if the points shown are of the collection and
already stand in their order of rank, with nothing better and no tie left out.
-/
namespace SafetyDao.MockSearch

variable {F32 F64 S P : Type}

/-- A call of `StoreEmbedding`. -/
structure Stored (F32 P : Type) where
  collection : String
  id : String
  vector : List F32
  payload : P

def Stored.point (e : Stored F32 P) : MockPoint F32 P := ⟨e.id, e.vector, e.payload⟩

/-- The points of each collection. -/
abbrev Server (F32 P : Type) : Type := String → Table (@MockPoint.id F32 P)

def emptyServer : Server F32 P := fun _ => .empty

def Server.upsert (s : Server F32 P) (collection : String) (point : MockPoint F32 P) :
    Server F32 P := Function.update s collection ((s collection).upsert point)

/-- How a server chooses and orders its answer. -/
abbrev Ranking (F32 P : Type) : Type :=
  Table (@MockPoint.id F32 P) → List F32 → ℕ → List (MockPoint F32 P)

/-- What is assumed of the server: the answer is the points of highest cosine score. -/
def RanksBy [LinearOrder S] (cosine : List F32 → List F32 → S) (rank : Ranking F32 P) : Prop :=
  ∀ t vector limit, IsTop (fun p => cosine vector p.vector) t.rows limit (rank t vector limit)

def Server.exec (rank : Ranking F32 P) (s : Server F32 P) (op : QdrantOp F32 P) (_ : Unit) :
    Server F32 P × op.Res :=
  match op with
  | .upsert collection point => (s.upsert collection point, .response ⟨200, "", .ok ()⟩)
  | .search collection vector limit =>
    (s, .response ⟨200, "",
      .ok ((rank (s collection) vector limit.toNat).map fun p => ⟨p.id, p.payload⟩)⟩)

/-- The server once it has been sent some points. -/
def Server.after (s : Server F32 P) (h : List (Stored F32 P)) : Server F32 P :=
  h.foldl (fun s e => s.upsert e.collection e.point) s

def storeAll (c : QdrantClient F32 P) : List (Stored F32 P) → Qdrant F32 P (QdrantClient F32 P)
  | [] => return c
  | e :: h => do
    let out ← c.storeEmbedding e.collection e.id e.vector e.payload
    storeAll out.1 h

section Positions

variable {α : Type} {p : α → Bool} {k : ℕ}

/-- `x` stands at place `i`, has the property, and fewer than `k` before it have it. -/
def Shown (p : α → Bool) (k : ℕ) (xs : List α) (i : ℕ) (x : α) : Prop :=
  xs[i]? = some x ∧ p x = true ∧ (xs.take i).countP p < k

theorem shown_cons_zero {x y : α} {xs : List α} :
    Shown p k (y :: xs) 0 x ↔ y = x ∧ p x = true ∧ 0 < k := by
  simp [Shown]

theorem shown_cons_succ {x y : α} {xs : List α} {i : ℕ} :
    Shown p k (y :: xs) (i + 1) x ↔ Shown p (if p y then k - 1 else k) xs i x := by
  simp only [Shown, List.getElem?_cons_succ, List.take_succ_cons, List.countP_cons]
  split <;> simp only [Nat.add_zero, and_congr_right_iff]
  omega

theorem take_filter_cons (p : α → Bool) (k : ℕ) (y : α) (xs : List α) :
    ((y :: xs).filter p).take k = (if p y ∧ 0 < k then [y] else []) ++
      (xs.filter p).take (if p y then k - 1 else k) := by
  cases hy : p y with
  | false => simp [hy]
  | true =>
    cases k with
    | zero => simp
    | succ k => simp [hy]

/-- The first `k` with the property are those that are shown. -/
theorem mem_take_filter {xs : List α} {x : α} :
    x ∈ (xs.filter p).take k ↔ ∃ i, Shown p k xs i x := by
  induction xs generalizing k with
  | nil => simp [Shown]
  | cons y xs ih =>
    rw [take_filter_cons, List.mem_append, ih]
    constructor
    · rintro (hx | ⟨i, hi⟩)
      · split at hx
        · rename_i hy
          obtain rfl := List.mem_singleton.mp hx
          exact ⟨0, shown_cons_zero.mpr ⟨rfl, hy⟩⟩
        · cases hx
      · exact ⟨i + 1, shown_cons_succ.mpr hi⟩
    · rintro ⟨_ | i, hi⟩
      · obtain ⟨rfl, hy⟩ := shown_cons_zero.mp hi
        exact .inl (by rw [if_pos hy]; exact List.mem_singleton.mpr rfl)
      · exact .inr ⟨i, shown_cons_succ.mp hi⟩

/-- They stand in the same order. -/
theorem pairwise_take_filter {R : α → α → Prop} {xs : List α} :
    ((xs.filter p).take k).Pairwise R ↔
      ∀ i j x y, i < j → Shown p k xs i x → Shown p k xs j y → R x y := by
  induction xs generalizing k with
  | nil => simp [Shown]
  | cons y xs ih =>
    rw [take_filter_cons, List.pairwise_append, ih]
    constructor
    · rintro ⟨-, hrest, hfirst⟩ i j x z hij hx hz
      obtain ⟨j, rfl⟩ := Nat.exists_eq_add_one_of_ne_zero (Nat.ne_zero_of_lt hij)
      rw [shown_cons_succ] at hz
      cases i with
      | zero =>
        obtain ⟨rfl, hy⟩ := shown_cons_zero.mp hx
        refine hfirst y ?_ z (mem_take_filter.mpr ⟨j, hz⟩)
        rw [if_pos hy]
        exact List.mem_singleton.mpr rfl
      | succ i => exact hrest i j x z (Nat.lt_of_succ_lt_succ hij) (shown_cons_succ.mp hx) hz
    · intro h
      refine ⟨?_, fun i j x z hij hx hz => ?_, fun x hx z hz => ?_⟩
      · split <;> simp
      · exact h (i + 1) (j + 1) x z (Nat.succ_lt_succ hij) (shown_cons_succ.mpr hx)
          (shown_cons_succ.mpr hz)
      · obtain ⟨j, hj⟩ := mem_take_filter.mp hz
        split at hx
        · rename_i hy
          obtain rfl := List.mem_singleton.mp hx
          exact h 0 (j + 1) x z (Nat.succ_pos j) (shown_cons_zero.mpr ⟨rfl, hy⟩)
            (shown_cons_succ.mpr hj)
        · cases hx

theorem length_take_filter (p : α → Bool) (k : ℕ) (xs : List α) :
    ((xs.filter p).take k).length = min k (xs.countP p) := by
  rw [List.length_take, List.countP_eq_length_filter]

end Positions

section History

/-- The last call for an identifier in a collection. -/
def lastStored (h : List (Stored F32 P)) (collection id : String) : Option (Stored F32 P) :=
  h.reverse.find? fun e => e.collection = collection ∧ e.id = id

theorem lastStored_append (h : List (Stored F32 P)) (e : Stored F32 P) (collection id : String) :
    lastStored (h ++ [e]) collection id =
      if e.collection = collection ∧ e.id = id then some e else lastStored h collection id := by
  rw [lastStored, List.reverse_append, List.reverse_singleton, List.singleton_append,
    List.find?_cons, lastStored]
  by_cases hlast : e.collection = collection ∧ e.id = id <;> simp [hlast]

/-- The server has the point that was sent last for an identifier: by induction on the calls,
the last one first. -/
theorem find?_after (h : List (Stored F32 P)) (collection id : String) :
    ((emptyServer : Server F32 P).after h collection).find? id =
      (lastStored h collection id).map Stored.point := by
  induction h using List.reverseRecOn with
  | nil => rfl
  | append_singleton h e ih =>
    rw [lastStored_append, Server.after, List.foldl_append, List.foldl_cons, List.foldl_nil,
      Server.upsert]
    by_cases hcol : collection = e.collection
    · subst hcol
      rw [Function.update_self, Table.find?_upsert]
      by_cases hid : e.id = id
      · rw [if_pos (show e.point.id = id from hid), if_pos ⟨rfl, hid⟩, Option.map_some]
      · rw [if_neg (show e.point.id ≠ id from hid), if_neg fun hboth => hid hboth.2]
        exact ih
    · rw [Function.update_of_ne hcol, if_neg fun hboth => hcol hboth.1.symm]
      exact ih

end History

section Runs

variable {rank : Ranking F32 P}

theorem storeAll_mock (data : List (MockPoint F32 P)) (h : List (Stored F32 P)) :
    storeAll ⟨true, data⟩ h = .done ⟨true, data ++ h.map Stored.point⟩ := by
  induction h generalizing data with
  | nil => simp [storeAll]
  | cons e h ih =>
    simp only [storeAll, QdrantClient.storeEmbedding, if_true, Program.pure_eq, Program.done_bind,
      QdrantClient.storeMock, ih]
    simp [Stored.point]

theorem ensures_storeAll_live (h : List (Stored F32 P)) (s : Server F32 P) :
    Program.Ensures (Server.exec rank) (fun c s' => c = ⟨false, []⟩ ∧ s' = s.after h)
      (storeAll ⟨false, []⟩ h) s := by
  induction h generalizing s with
  | nil => exact ⟨rfl, rfl⟩
  | cons e h ih =>
    simp only [storeAll, QdrantClient.storeEmbedding, Bool.false_eq_true, if_false,
      Program.call_bind, Program.request_bind, Program.pure_eq]
    exact fun _ => ih (s.upsert e.collection e.point)

variable [Mul F32] [OfNat F64 0] [OfNat F64 2] [OfScientific F64] [Add F64] [Sub F64] [Mul F64]
  [Div F64] [BEq F64] [LT F64] [DecidableLT F64] (float64 : F32 → F64)

/-- Calls of `StoreEmbedding` and then a search, in mock mode or live throughout. -/
def storeThenSearch (mockMode : Bool) (h : List (Stored F32 P)) (collection : String)
    (vector : List F32) (limit : ℤ) :
    Qdrant F32 P (Option (Except String (List (MockPoint F32 P)))) := do
  let c ← storeAll ⟨mockMode, []⟩ h
  let out ← c.searchSimilar float64 collection vector limit
  return out.2

/-- The two modes show points with the same identifiers, in the same order. -/
def SameIds (rank : Ranking F32 P) (h : List (Stored F32 P)) (collection : String)
    (vector : List F32) (limit : ℤ) : Prop :=
  ∃ points points' s s',
    (storeThenSearch float64 true h collection vector limit).Completes (Server.exec rank)
      emptyServer (some (.ok points)) s ∧
    (storeThenSearch float64 false h collection vector limit).Completes (Server.exec rank)
      emptyServer (some (.ok points')) s' ∧
    points.map MockPoint.id = points'.map MockPoint.id

variable (rank) (h : List (Stored F32 P)) (collection : String) (vector : List F32) (limit : ℤ)

theorem ensures_mock : Program.Ensures (Server.exec rank)
    (fun r _ => r = (truncate limit ((h.map Stored.point).filter fun p =>
      QdrantClient.similar float64 vector p.vector)).map .ok)
    (storeThenSearch float64 true h collection vector limit) emptyServer := by
  simp only [storeThenSearch, storeAll_mock, Program.done_bind, QdrantClient.searchSimilar, if_true,
    Program.pure_eq, QdrantClient.searchMock, List.nil_append]
  exact rfl

theorem ensures_live : Program.Ensures (Server.exec rank)
    (fun r _ => ∃ points, r = some (.ok points) ∧ points.map MockPoint.id =
      (rank ((emptyServer : Server F32 P).after h collection) vector limit.toNat).map MockPoint.id)
    (storeThenSearch float64 false h collection vector limit) emptyServer := by
  refine (ensures_storeAll_live h emptyServer).bind fun c s hc => ?_
  obtain ⟨rfl, rfl⟩ := hc
  simp only [QdrantClient.searchSimilar, Bool.false_eq_true, if_false, Program.call_bind,
    Program.request_bind, Program.pure_eq]
  intro _
  refine ⟨_, rfl, ?_⟩
  simp only [List.map_map]
  rfl

/-- What the mock mode shows. -/
def shownIds : List String :=
  ((h.filter fun e => QdrantClient.similar float64 vector e.vector).take limit.toNat).map Stored.id

theorem sameIds_iff : SameIds float64 rank h collection vector limit ↔
    0 ≤ limit ∧ (rank ((emptyServer : Server F32 P).after h collection) vector limit.toNat).map
      MockPoint.id = shownIds float64 h vector limit := by
  have hids : ∀ es : List (Stored F32 P),
      (es.map Stored.point).map MockPoint.id = es.map Stored.id := by
    intro es
    rw [List.map_map]
    rfl
  have hmock : (truncate limit ((h.map Stored.point).filter fun p =>
      QdrantClient.similar float64 vector p.vector)).map (List.map MockPoint.id) =
        if 0 ≤ limit then some (shownIds float64 h vector limit) else none := by
    split
    · rename_i hlimit
      rw [truncate_of_nonneg hlimit, List.filter_map, ← List.map_take, Option.map_some, hids]
      rfl
    · rename_i hlimit
      rw [truncate_of_neg (Int.not_le.mp hlimit), Option.map_none]
  constructor
  · rintro ⟨points, points', s, s', hcmock, hclive, hsame⟩
    have htruncate := (ensures_mock rank float64 h collection vector limit).completes hcmock
    obtain ⟨_, heq, hlive⟩ :=
      (ensures_live rank float64 h collection vector limit).completes hclive
    obtain ⟨_, hpoints, hok⟩ := Option.map_eq_some_iff.mp htruncate.symm
    cases hok
    cases heq
    rw [hpoints, Option.map_some] at hmock
    split at hmock
    · rename_i hlimit
      exact ⟨hlimit, by rw [← hlive, ← hsame, Option.some.inj hmock]⟩
    · cases hmock
  · rintro ⟨hlimit, hrank⟩
    rw [if_pos hlimit] at hmock
    obtain ⟨points, hpoints, hids'⟩ := Option.map_eq_some_iff.mp hmock
    obtain ⟨_, s, hcmock, rfl⟩ :=
      (ensures_mock rank float64 h collection vector limit).exists_completes
    obtain ⟨_, s', hclive, points', rfl, hlive⟩ :=
      (ensures_live rank float64 h collection vector limit).exists_completes
    rw [hpoints, Option.map_some] at hcmock
    exact ⟨points, points', s, s', hcmock, hclive, by rw [hids', hlive, hrank]⟩

end Runs

section Agreement

variable [LinearOrder S] (cosine : List F32 → List F32 → S)

/-- A server may give any answer that has the points of highest score. -/
theorem exists_ranksBy (t : Table (@MockPoint.id F32 P)) (vector : List F32) (limit : ℕ)
    {answer : List (MockPoint F32 P)}
    (h : IsTop (fun p => cosine vector p.vector) t.rows limit answer) :
    ∃ rank, RanksBy cosine rank ∧ rank t vector limit = answer := by
  classical
  have hany : ∀ (t : Table (@MockPoint.id F32 P)) (vector : List F32) (limit : ℕ),
      ∃ answer, IsTop (fun p => cosine vector p.vector) t.rows limit answer :=
    fun t vector limit => exists_isTop t.nodup.of_map _ limit
  choose rank hrank using hany
  refine ⟨fun t' vector' limit' =>
    if t' = t ∧ vector' = vector ∧ limit' = limit then answer else rank t' vector' limit', ?_, ?_⟩
  · intro t' vector' limit'
    dsimp only
    split
    · rename_i hsame
      obtain ⟨rfl, rfl, rfl⟩ := hsame
      exact h
    · exact hrank t' vector' limit'
  · exact if_pos ⟨rfl, rfl, rfl⟩

/-- `cur` is a point that the collection still has. -/
def Current (h : List (Stored F32 P)) (collection : String) (cur : Stored F32 P) : Prop :=
  lastStored h collection cur.id = some cur

/-- The points of the server are those of the current calls. -/
theorem mem_after {h : List (Stored F32 P)} {collection : String} {a : MockPoint F32 P} :
    a ∈ ((emptyServer : Server F32 P).after h collection).rows ↔
      ∃ cur, Current h collection cur ∧ cur.point = a := by
  have hfind := find?_after h collection a.id
  constructor
  · intro ha
    rw [Table.find?_of_mem ha] at hfind
    obtain ⟨cur, hcur, rfl⟩ := Option.map_eq_some_iff.mp hfind.symm
    exact ⟨cur, (show lastStored h collection cur.id = some cur from hcur), rfl⟩
  · rintro ⟨cur, hcur, rfl⟩
    rw [show cur.point.id = cur.id from rfl, hcur, Option.map_some] at hfind
    exact Table.mem_of_find? hfind

variable [Mul F32] [OfNat F64 0] [OfNat F64 2] [OfScientific F64] [Add F64] [Sub F64] [Mul F64]
  [Div F64] [BEq F64] [LT F64] [DecidableLT F64] (float64 : F32 → F64)
  (h : List (Stored F32 P)) (collection : String) (vector : List F32) (limit : ℤ)

/-- A call whose point is similar, with fewer than `limit` similar ones before it. -/
abbrev ShownAt (i : ℕ) (e : Stored F32 P) : Prop :=
  Shown (fun e => QdrantClient.similar float64 vector e.vector) limit.toNat h i e

/-- The points shown are among those of the collection and stand in order of rank; the others
of the collection rank below them, and there are none if fewer than `limit` are similar. -/
structure InRankOrder : Prop where
  nonneg : 0 ≤ limit
  current : ∀ i e, ShownAt float64 h vector limit i e →
    ∃ cur, Current h collection cur ∧ cur.id = e.id
  falling : ∀ i j e e', i < j → ShownAt float64 h vector limit i e →
    ShownAt float64 h vector limit j e' → ∀ cur cur', Current h collection cur →
    Current h collection cur' → cur.id = e.id → cur'.id = e'.id →
    cosine vector cur'.vector < cosine vector cur.vector
  best : ∀ cur other, Current h collection cur → Current h collection other →
    (∃ i e, ShownAt float64 h vector limit i e ∧ e.id = cur.id) →
    (¬ ∃ i e, ShownAt float64 h vector limit i e ∧ e.id = other.id) →
    cosine vector other.vector < cosine vector cur.vector
  exhausted : (h.countP fun e => QdrantClient.similar float64 vector e.vector) < limit.toNat →
    ∀ cur, Current h collection cur →
      ∃ i e, ShownAt float64 h vector limit i e ∧ e.id = cur.id

variable {h collection}

theorem mem_shownIds {float64 : F32 → F64} {vector : List F32} {limit : ℤ} {id : String} :
    id ∈ shownIds float64 h vector limit ↔
      ∃ i e, ShownAt float64 h vector limit i e ∧ e.id = id := by
  rw [shownIds, List.mem_map]
  constructor
  · rintro ⟨e, he, rfl⟩
    obtain ⟨i, hi⟩ := mem_take_filter.mp he
    exact ⟨i, e, hi, rfl⟩
  · rintro ⟨i, e, hi, rfl⟩
    exact ⟨e, mem_take_filter.mpr ⟨i, hi⟩, rfl⟩

variable (h collection)

/-- In other words, the mock mode shows the names of the best points. -/
theorem namesTop_iff (hlimit : 0 ≤ limit) :
    NamesTop (fun p => cosine vector p.vector)
        ((emptyServer : Server F32 P).after h collection).rows limit.toNat MockPoint.id
        (shownIds float64 h vector limit) ↔
      InRankOrder cosine float64 h collection vector limit := by
  have hlength : (shownIds float64 h vector limit).length = min limit.toNat
      (h.countP fun e => QdrantClient.similar float64 vector e.vector) := by
    rw [shownIds, List.length_map, length_take_filter]
  constructor
  · intro htop
    refine ⟨hlimit, fun i e hi => ?_, fun i j e e' hij hi hj cur cur' hcur hcur' hid hid' => ?_,
      fun cur other hcur hother hshown hout => ?_, fun hfew cur hcur => ?_⟩
    · obtain ⟨a, ha, hid⟩ := htop.named e.id (mem_shownIds.mpr ⟨i, e, hi, rfl⟩)
      obtain ⟨cur, hcur, rfl⟩ := mem_after.mp ha
      exact ⟨cur, hcur, hid⟩
    · have hpairs := htop.falling
      rw [shownIds, List.pairwise_map, pairwise_take_filter] at hpairs
      exact hpairs i j e e' hij hi hj _ (mem_after.mpr ⟨cur, hcur, rfl⟩) _
        (mem_after.mpr ⟨cur', hcur', rfl⟩) hid hid'
    · exact htop.best _ (mem_after.mpr ⟨cur, hcur, rfl⟩) _ (mem_after.mpr ⟨other, hother, rfl⟩)
        (mem_shownIds.mpr hshown) fun hin => hout (mem_shownIds.mp hin)
    · exact mem_shownIds.mp
        (htop.exhausted (by omega) _ (mem_after.mpr ⟨cur, hcur, rfl⟩))
  · intro hrank
    refine ⟨fun id hid => ?_, ?_, fun a ha b hb hin hout => ?_, by omega, fun hfew a ha => ?_⟩
    · obtain ⟨i, e, hi, rfl⟩ := mem_shownIds.mp hid
      obtain ⟨cur, hcur, hid⟩ := hrank.current i e hi
      exact ⟨cur.point, mem_after.mpr ⟨cur, hcur, rfl⟩, hid⟩
    · rw [shownIds, List.pairwise_map, pairwise_take_filter]
      intro i j e e' hij hi hj a ha b hb hid hid'
      obtain ⟨cur, hcur, rfl⟩ := mem_after.mp ha
      obtain ⟨cur', hcur', rfl⟩ := mem_after.mp hb
      exact hrank.falling i j e e' hij hi hj cur cur' hcur hcur' hid hid'
    · obtain ⟨cur, hcur, rfl⟩ := mem_after.mp ha
      obtain ⟨other, hother, rfl⟩ := mem_after.mp hb
      exact hrank.best cur other hcur hother (mem_shownIds.mp hin)
        fun hshown => hout (mem_shownIds.mpr hshown)
    · obtain ⟨cur, hcur, rfl⟩ := mem_after.mp ha
      exact mem_shownIds.mpr (hrank.exhausted (by omega) cur hcur)

/-- The mock mode shows what every server shows exactly if what it shows is in rank order. -/
theorem sameIds_iff_inRankOrder :
    (∀ rank, RanksBy cosine rank → SameIds float64 rank h collection vector limit) ↔
      InRankOrder cosine float64 h collection vector limit := by
  let t := (emptyServer : Server F32 P).after h collection
  have hkey : ∀ a ∈ t.rows, ∀ b ∈ t.rows, a.id = b.id → a = b :=
    fun a ha b hb hid => t.eq_of_key_eq ha hb hid
  have hanswers : (∀ answer, IsTop (fun p => cosine vector p.vector) t.rows limit.toNat answer →
      answer.map MockPoint.id = shownIds float64 h vector limit) ↔ _ :=
    forall_isTop_iff_namesTop t.nodup.of_map hkey
  constructor
  · intro hsame
    obtain ⟨answer, htop⟩ :=
      exists_isTop t.nodup.of_map (fun p => cosine vector p.vector) limit.toNat
    obtain ⟨rank, hrank, -⟩ := exists_ranksBy cosine t vector limit.toNat htop
    have hlimit := ((sameIds_iff rank float64 h collection vector limit).mp (hsame rank hrank)).1
    refine (namesTop_iff cosine float64 h collection vector limit hlimit).mp (hanswers.mp ?_)
    intro answer htop
    obtain ⟨rank, hrank, rfl⟩ := exists_ranksBy cosine t vector limit.toNat htop
    exact ((sameIds_iff rank float64 h collection vector limit).mp (hsame rank hrank)).2
  · intro horder rank hrank
    have htop := (namesTop_iff cosine float64 h collection vector limit horder.nonneg).mpr horder
    refine (sameIds_iff rank float64 h collection vector limit).mpr ⟨horder.nonneg, ?_⟩
    exact hanswers.mpr htop _ (hrank t vector limit.toNat)

end Agreement

section Reports

def report (id : String) (vector : List ℚ) : Stored ℚ Unit :=
  ⟨"bad_client_reports", id, vector, ()⟩

/-- The vectors have length 2, so that Newton's method is exact on them. -/
def wanted : List ℚ := [3 / 2, 1, 1 / 2, 1 / 2, 1 / 2]

def nearby : List ℚ := [1, 3 / 2, 1 / 2, 1 / 2, 1 / 2]

def sixReports : List (Stored ℚ Unit) :=
  ["1", "2", "3", "4", "5"].map (report · nearby) ++ [report "6" wanted]

/-- Of six similar reports the first five are shown, and the last one is the best. -/
theorem best_report_left_out :
    ¬ ∀ (h : List (Stored ℚ Unit)) (collection : String) (vector : List ℚ) (limit : ℤ)
      (rank : Ranking ℚ Unit), RanksBy (cosineSimilarity (id : ℚ → ℚ)) rank →
        SameIds (id : ℚ → ℚ) rank h collection vector limit := by
  intro hall
  let t := (emptyServer : Server ℚ Unit).after sixReports "bad_client_reports"
  obtain ⟨answer, htop⟩ := exists_isTop t.nodup.of_map
    (fun p => cosineSimilarity (id : ℚ → ℚ) wanted p.vector) 5
  obtain ⟨rank, hrank, hanswer⟩ :=
    exists_ranksBy (cosineSimilarity (id : ℚ → ℚ)) t wanted 5 htop
  have hshown : shownIds (id : ℚ → ℚ) sixReports wanted 5 = ["1", "2", "3", "4", "5"] := by
    decide +kernel
  have hids : answer.map MockPoint.id = ["1", "2", "3", "4", "5"] := by
    rw [← hanswer, ← hshown]
    exact ((sameIds_iff rank id sixReports "bad_client_reports" wanted 5).mp
      (hall sixReports "bad_client_reports" wanted 5 rank hrank)).2
  have hsixth : (report "6" wanted).point ∈ t.rows :=
    mem_after.mpr ⟨report "6" wanted, rfl, rfl⟩
  have hout : (report "6" wanted).point ∉ answer := by
    intro hin
    have hmem : "6" ∈ answer.map MockPoint.id := List.mem_map_of_mem hin
    rw [hids] at hmem
    revert hmem
    decide
  obtain ⟨a, ha, hid⟩ : ∃ a ∈ answer, a.id = "1" :=
    List.mem_map.mp (hids ▸ List.mem_cons_self)
  have hfirst : (report "1" nearby).point ∈ t.rows :=
    mem_after.mpr ⟨report "1" nearby, rfl, rfl⟩
  obtain rfl := t.eq_of_key_eq (htop.subset ha) hfirst hid
  have hle := htop.best _ ha _ hsixth hout
  revert hle
  decide +kernel

end Reports

end SafetyDao.MockSearch
