import SafetyDao.Program
import SafetyDao.Table
import Mathlib.Data.Int.Notation
import Mathlib.Logic.Function.Iterate

/-!
# The client of the vector database

Live, the client sends points to Qdrant and asks it to search; in mock mode, which it falls
back to when Qdrant cannot be reached, it keeps the points and searches them itself. The
operations of `float32` and `float64` are parameters, of which no law is assumed.
-/
namespace SafetyDao

section Similarity

variable {F32 F64 : Type} [Mul F32] [OfNat F64 0] [OfNat F64 2] [Add F64] [Sub F64] [Mul F64]
  [Div F64] [BEq F64]

/-- Ten steps of Newton's method from half the number. -/
def sqrt (x : F64) : F64 := (fun z => z - (z * z - x) / (2 * z))^[10] (x / 2)

/-- The products are `float32`, the sums `float64`. -/
def cosineSimilarity (float64 : F32 → F64) (a b : List F32) : F64 :=
  if a.length ≠ b.length then 0
  else
    let sum (xs : List F32) : F64 := xs.foldl (fun acc x => acc + float64 x) 0
    let dot := sum (List.zipWith (· * ·) a b)
    let normA := sum (List.zipWith (· * ·) a a)
    let normB := sum (List.zipWith (· * ·) b b)
    if normA == 0 || normB == 0 then 0 else dot / (sqrt normA * sqrt normB)

end Similarity

structure MockPoint (F32 P : Type) where
  id : String
  vector : List F32
  payload : P

structure ScoredPoint (P : Type) where
  id : String
  payload : P

structure QdrantClient (F32 P : Type) where
  mockMode : Bool
  mockData : List (MockPoint F32 P)

structure HttpResponse (α : Type) where
  statusCode : ℕ
  body : String
  decoded : Except String α

/-- How far a request to the server gets. -/
inductive Exchange (α : Type) where
  | unmarshaled (e : String)
  | uncreated (e : String)
  | unavailable (e : String)
  | response (r : HttpResponse α)

inductive QdrantOp (F32 P : Type) where
  | upsert (collection : String) (point : MockPoint F32 P)
  | search (collection : String) (vector : List F32) (limit : ℤ)

abbrev QdrantOp.Res {F32 P : Type} : QdrantOp F32 P → Type
  | .upsert .. => Exchange Unit
  | .search .. => Exchange (List (ScoredPoint P))

abbrev Qdrant (F32 P α : Type) : Type := Program (@QdrantOp.Res F32 P) α

/-- `xs[:limit]` when there are more than `limit`; a negative bound panics. -/
def truncate {α : Type} (limit : ℤ) (xs : List α) : Option (List α) :=
  if limit < xs.length then
    if limit < 0 then none else some (xs.take limit.toNat)
  else some xs

theorem truncate_of_nonneg {α : Type} {limit : ℤ} (h : 0 ≤ limit) (xs : List α) :
    truncate limit xs = some (xs.take limit.toNat) := by
  unfold truncate
  split
  · rw [if_neg (Int.not_lt.mpr h)]
  · rw [List.take_of_length_le (by omega)]

theorem truncate_of_neg {α : Type} {limit : ℤ} (h : limit < 0) (xs : List α) :
    truncate limit xs = none := by
  have hlt : limit < xs.length := by omega
  rw [truncate, if_pos hlt, if_pos h]

namespace QdrantClient

variable {F32 F64 P : Type}

def storeMock (c : QdrantClient F32 P) (id : String) (vector : List F32) (payload : P) :
    QdrantClient F32 P := { c with mockData := c.mockData ++ [⟨id, vector, payload⟩] }

def storeEmbedding (c : QdrantClient F32 P) (collection id : String) (vector : List F32)
    (payload : P) : Qdrant F32 P (QdrantClient F32 P × Except String Unit) :=
  if c.mockMode then return (c.storeMock id vector payload, .ok ())
  else do
    match ← Program.call (QdrantOp.upsert collection ⟨id, vector, payload⟩) with
    | .unmarshaled e => return (c, .error ("marshaling upsert request: " ++ e))
    | .uncreated e => return (c, .error ("creating upsert request: " ++ e))
    | .unavailable _ =>
      return ({ c with mockMode := true }.storeMock id vector payload, .ok ())
    | .response r =>
      if 400 ≤ r.statusCode then
        return (c, .error
          ("qdrant upsert error (status " ++ toString r.statusCode ++ "): " ++ r.body))
      else return (c, .ok ())

variable [Mul F32] [OfNat F64 0] [OfNat F64 2] [OfScientific F64] [Add F64] [Sub F64] [Mul F64]
  [Div F64] [BEq F64] [LT F64] [DecidableLT F64] (float64 : F32 → F64)

/-- Whether the mock mode takes a vector for similar. -/
def similar (vector vector' : List F32) : Bool := 0.7 < cosineSimilarity float64 vector vector'

/-- The answer of the mock mode; there is none when it panics. -/
def searchMock (c : QdrantClient F32 P) (vector : List F32) (limit : ℤ) :
    Option (List (MockPoint F32 P)) :=
  truncate limit (c.mockData.filter fun p => similar float64 vector p.vector)

/-- The mock mode shows points that it has. -/
theorem mem_of_searchMock {float64 : F32 → F64} {c : QdrantClient F32 P} {vector : List F32}
    {limit : ℤ} {ps : List (MockPoint F32 P)} (h : c.searchMock float64 vector limit = some ps)
    {p : MockPoint F32 P} (hp : p ∈ ps) : p ∈ c.mockData := by
  unfold searchMock truncate at h
  split at h
  · split at h
    · cases h
    · rw [← Option.some.inj h] at hp
      exact List.mem_of_mem_filter (List.mem_of_mem_take hp)
  · rw [← Option.some.inj h] at hp
    exact List.mem_of_mem_filter hp

def searchSimilar (c : QdrantClient F32 P) (collection : String) (vector : List F32)
    (limit : ℤ) :
    Qdrant F32 P (QdrantClient F32 P × Option (Except String (List (MockPoint F32 P)))) :=
  if c.mockMode then return (c, (c.searchMock float64 vector limit).map .ok)
  else do
    match ← Program.call (QdrantOp.search collection vector limit) with
    | .unmarshaled e => return (c, some (.error ("marshaling search request: " ++ e)))
    | .uncreated e => return (c, some (.error ("creating search request: " ++ e)))
    | .unavailable _ =>
      let c := { c with mockMode := true }
      return (c, (c.searchMock float64 vector limit).map .ok)
    | .response r =>
      if 400 ≤ r.statusCode then
        return (c, some (.error
          ("qdrant search error (status " ++ toString r.statusCode ++ "): " ++ r.body)))
      else
        match r.decoded with
        | .error e => return (c, some (.error ("decoding search response: " ++ e)))
        | .ok result =>
          return (c, some (.ok (result.map fun sp => ⟨sp.id, [], sp.payload⟩)))

end QdrantClient

end SafetyDao
