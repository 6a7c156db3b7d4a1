import SafetyDao.QdrantClient
import SafetyDao.Text

/-!
# Report deduplication of the analytics service

A report's text is hashed into a vector of 128 numbers. It is stored in Qdrant unless one of the
ten best points that a search returns for it scores at least 0.85. What Julia computes with
`Float32` and its `hash` are parameters, of which no law is assumed.
-/
namespace SafetyDao.Similarity

/-- What the embedding takes from Julia. -/
structure JuliaLibs (F32 : Type) where
  lowercase : Text → Text
  isspace : Char → Bool
  hash : Text → UInt64
  sqrt : F32 → F32

section Embedding

variable {F32 : Type} [OfNat F32 0] [OfNat F32 1] [OfScientific F32] [Add F32] [Mul F32] [Div F32]
  [LT F32] [DecidableLT F32] (libs : JuliaLibs F32)

/-- `split(text)`: the words between white space. -/
def words (text : Text) : List Text := (text.splitOnP libs.isspace).filter (· ≠ [])

def addWord (embedding : List F32) (word : Text) : List F32 :=
  let h := libs.hash word
  let idx1 := (h % 128).toNat
  let idx2 := ((h >>> 32) % 128).toNat
  (embedding.modify idx1 (· + 1)).modify idx2 (· + 0.5)

def computeEmbedding (text : Text) : List F32 :=
  let embedding := (words libs (libs.lowercase text)).foldl (addWord libs) (List.replicate 128 0)
  let norm := libs.sqrt ((embedding.map fun x => x * x).foldl (· + ·) 0)
  if 0 < norm then embedding.map (· / norm) else embedding

/-- `a .* b`: a vector of one component is taken to the length of the other. -/
def broadcastMul : List F32 → List F32 → Option (List F32)
  | [x], b => some (b.map (x * ·))
  | a, [y] => some (a.map (· * y))
  | a, b => if a.length = b.length then some (List.zipWith (· * ·) a b) else none

def cosineSimilarity [BEq F32] (a b : List F32) : Option F32 :=
  (broadcastMul a b).map fun products =>
    let dot := products.foldl (· + ·) 0
    let normA := libs.sqrt ((a.map fun x => x * x).foldl (· + ·) 0)
    let normB := libs.sqrt ((b.map fun x => x * x).foldl (· + ·) 0)
    if normA == 0 || normB == 0 then 0 else dot / (normA * normB)

/-- Every embedding has the size that the collection was created with. -/
theorem length_computeEmbedding (text : Text) : (computeEmbedding libs text).length = 128 := by
  have hwords : ∀ (ws : List Text) (embedding : List F32),
      (ws.foldl (addWord libs) embedding).length = embedding.length := by
    intro ws
    induction ws with
    | nil => exact fun _ => rfl
    | cons w ws ih =>
      intro embedding
      rw [List.foldl_cons, ih]
      simp [addWord]
  unfold computeEmbedding
  dsimp only
  split
  · rw [List.length_map, hwords, List.length_replicate]
  · rw [hwords, List.length_replicate]

end Embedding

/-- A result of a search as the server writes it; what is missing is `none`. -/
structure RawPoint (S P : Type) where
  id : Option String
  score : Option S
  payload : Option P

structure Match (S P : Type) where
  id : String
  score : S
  payload : Option P

/-- The payload of a report's point. -/
structure ReportPayload where
  reportId : String
  timestamp : String

inductive SimilarityOp (F32 P : Type) where
  | search (collection : String) (vector : List F32) (limit : ℕ)
  | upsert (collection : String) (point : MockPoint F32 P)
  | now

/-- An error is what the call throws; `result` may be missing from the answer of a search. -/
abbrev SimilarityOp.Res (S : Type) {F32 P : Type} : SimilarityOp F32 P → Type
  | .search .. => Except String (Option (List (RawPoint S P)))
  | .upsert .. => Except String Unit
  | .now => String

abbrev Deduplicating (S F32 P α : Type) : Type := Program (@SimilarityOp.Res S F32 P) α

structure DedupResult (S P : Type) where
  isDuplicate : Bool
  reportId : String
  found : List (Match S P)
  bestMatchId : Option String
  bestScore : Option S
  stored : Bool
  error : Option String

variable {S F32 P : Type} [OfScientific S]

def RawPoint.read (r : RawPoint S P) : Match S P := ⟨r.id.getD "", r.score.getD 0.0, r.payload⟩

def searchPoints (collection : String) (vector : List F32) (limit : ℕ) :
    Deduplicating S F32 P (Except String (List (Match S P))) := do
  match ← Program.call (SimilarityOp.search collection vector limit) with
  | .error e => return .error e
  | .ok result => return .ok ((result.getD []).map RawPoint.read)

/-- A search that fails is thrown on; an upsert that fails is reported. -/
def deduplicateReport [OfNat F32 0] [OfNat F32 1] [OfScientific F32] [Add F32] [Mul F32] [Div F32]
    [LT F32] [DecidableLT F32] [LE S] [DecidableLE S] (libs : JuliaLibs F32) (reportId : String)
    (reportText : Text) :
    Deduplicating S F32 ReportPayload (Except String (DedupResult S ReportPayload)) := do
  let embedding := computeEmbedding libs reportText
  match ← searchPoints "reports" embedding 10 with
  | .error e => return .error e
  | .ok searchResults =>
    match searchResults.filter (fun r => 0.85 ≤ r.score) with
    | best :: rest =>
      return .ok ⟨true, reportId, best :: rest, some best.id, some best.score, false, none⟩
    | [] => do
      let now ← Program.call SimilarityOp.now
      let point := ⟨reportId, embedding, ⟨reportId, now⟩⟩
      match ← Program.call (SimilarityOp.upsert "reports" point) with
      | .error e => return .ok ⟨false, reportId, [], none, none, false, some e⟩
      | .ok _ => return .ok ⟨false, reportId, [], none, none, true, none⟩

end SafetyDao.Similarity
