import SafetyDao.MockSearch
import SafetyDao.Similarity

/-!
# What deduplication keeps apart

The server answers a search with the points of highest score and replaces a point by its
identifier; a request may fail, and then nothing is written. Each report that is stored has been
compared, through the ten best, with every point of the collection, so the stored points stay
apart whatever fails and whatever is replaced.
-/
namespace SafetyDao.DedupRuns
open MockSearch (Server Ranking RanksBy)
open Similarity

/-- The score of a point for a vector, as the server computes it. -/
structure Scoring (F32 S : Type) where
  cosine : List F32 → List F32 → S
  symm : ∀ a b, cosine a b = cosine b a

variable {F32 S : Type} [LinearOrder S] [OfScientific S]

/-- How a request goes: how the server ranks, whether the request fails, and the clock. -/
structure DedupEnv (scoring : Scoring F32 S) where
  ranking : Ranking F32 ReportPayload
  ranks : RanksBy scoring.cosine ranking
  failure : Option String
  now : String

variable (scoring : Scoring F32 S)

def exec (s : Server F32 ReportPayload) (op : SimilarityOp F32 ReportPayload)
    (env : DedupEnv scoring) : Server F32 ReportPayload × op.Res S :=
  match op with
  | .search collection vector limit =>
    match env.failure with
    | some e => (s, .error e)
    | none => (s, .ok (some ((env.ranking (s collection) vector limit).map fun p =>
        ⟨some p.id, some (scoring.cosine vector p.vector), some p.payload⟩)))
  | .upsert collection point =>
    match env.failure with
    | some e => (s, .error e)
    | none => (s.upsert collection point, .ok ())
  | .now => (s, env.now)

/-- Different points of the collection score below 0.85 against each other. -/
def Apart (s : Server F32 ReportPayload) : Prop :=
  ∀ p ∈ (s "reports").rows, ∀ q ∈ (s "reports").rows, p ≠ q →
    scoring.cosine p.vector q.vector < 0.85

variable {scoring}

theorem mem_upsert {s : Server F32 ReportPayload} {point p : MockPoint F32 ReportPayload}
    (h : p ∈ ((s.upsert "reports" point) "reports").rows) :
    p = point ∨ p ∈ (s "reports").rows := by
  rw [Server.upsert, Function.update_self, Table.upsert, List.mem_append, List.mem_singleton] at h
  exact h.symm.imp_right List.mem_of_mem_filter

/-- A point that is apart from all others may take its place among them. -/
theorem Apart.upsert {s : Server F32 ReportPayload} (h : Apart scoring s)
    {point : MockPoint F32 ReportPayload}
    (hpoint : ∀ p ∈ (s "reports").rows, scoring.cosine point.vector p.vector < 0.85) :
    Apart scoring (s.upsert "reports" point) := by
  intro p hp q hq hne
  rcases mem_upsert hp with hp' | hp'
  · rcases mem_upsert hq with hq' | hq'
    · exact absurd (hp'.trans hq'.symm) hne
    · exact hp' ▸ hpoint q hq'
  · rcases mem_upsert hq with hq' | hq'
    · rw [scoring.symm]
      exact hq' ▸ hpoint p hp'
    · exact h p hp' q hq' hne

/-- Reading an answer back leaves the identifiers and the scores. -/
theorem filter_read {vector : List F32} {points : List (MockPoint F32 ReportPayload)} :
    ((points.map fun p => (⟨some p.id, some (scoring.cosine vector p.vector), some p.payload⟩ :
        RawPoint S ReportPayload)).map RawPoint.read).filter (fun r => 0.85 ≤ r.score) =
      (points.filter fun p => 0.85 ≤ scoring.cosine vector p.vector).map fun p =>
        ⟨p.id, scoring.cosine vector p.vector, some p.payload⟩ := by
  rw [List.map_map, List.filter_map]
  rfl

variable [OfNat F32 0] [OfNat F32 1] [OfScientific F32] [Add F32] [Mul F32] [Div F32]
  [LT F32] [DecidableLT F32] (libs : JuliaLibs F32) (scoring)

/-- What a call says of the collection, and what it has done to it. -/
structure Tells (s s' : Server F32 ReportPayload) (reportId : String) (reportText : Text)
    (r : DedupResult S ReportPayload) : Prop where
  stored : r.stored = true ∧ (∃ now, s' = s.upsert "reports"
      ⟨reportId, computeEmbedding libs reportText, ⟨reportId, now⟩⟩) ∨ r.stored = false ∧ s' = s
  isDuplicate : r.isDuplicate = true ↔ ∃ p ∈ (s "reports").rows,
    0.85 ≤ scoring.cosine (computeEmbedding libs reportText) p.vector
  bestMatch : r.isDuplicate = true → ∃ p ∈ (s "reports").rows, r.bestMatchId = some p.id ∧
    ∀ q ∈ (s "reports").rows, scoring.cosine (computeEmbedding libs reportText) q.vector ≤
      scoring.cosine (computeEmbedding libs reportText) p.vector

variable {scoring libs}

theorem ensures_deduplicateReport (reportId : String) (reportText : Text)
    (s : Server F32 ReportPayload) :
    Program.Ensures (exec scoring)
      (fun out s' => (∀ r, out = .ok r → Tells scoring libs s s' reportId reportText r) ∧
        (Apart scoring s → Apart scoring s')) (deduplicateReport libs reportId reportText) s := by
  unfold deduplicateReport searchPoints
  simp only [Program.call_bind, Program.request_bind, Program.pure_eq]
  intro env
  cases hfailure : env.failure with
  | some e =>
    simp only [exec, hfailure, Program.done_bind]
    exact ⟨fun r h => (by cases h), id⟩
  | none =>
  have htop := env.ranks (s "reports") (computeEmbedding libs reportText) 10
  simp only [exec, hfailure, Program.done_bind, Option.getD_some, filter_read]
  generalize env.ranking (s "reports") (computeEmbedding libs reportText) 10 = answer at htop ⊢
  cases hhigh : answer.filter fun p =>
      0.85 ≤ scoring.cosine (computeEmbedding libs reportText) p.vector with
  | cons best rest =>
    obtain ⟨hbest, hscore, hmax⟩ := htop.of_filter_eq_cons hhigh
    refine ⟨fun r hr => ?_, id⟩
    rw [← Except.ok.inj hr]
    exact ⟨.inr ⟨rfl, rfl⟩, ⟨fun _ => ⟨best, hbest, hscore⟩, fun _ => rfl⟩,
      fun _ => ⟨best, hbest, rfl, hmax⟩⟩
  | nil =>
    have hlow : ∀ p ∈ (s "reports").rows,
        scoring.cosine (computeEmbedding libs reportText) p.vector < 0.85 :=
      fun p hp => htop.lt_of_filter_eq_nil (by omega) hhigh hp
    have hnone : ¬ ∃ p ∈ (s "reports").rows,
        0.85 ≤ scoring.cosine (computeEmbedding libs reportText) p.vector :=
      fun hex => hex.elim fun p hp => (hlow p hp.1).not_ge hp.2
    intro clock upsert
    cases hupsert : upsert.failure with
    | some e =>
      simp only [exec, hupsert]
      refine ⟨fun r hr => ?_, id⟩
      rw [← Except.ok.inj hr]
      exact ⟨.inr ⟨rfl, rfl⟩, ⟨fun h => (by cases h), fun h => absurd h hnone⟩, fun h => by cases h⟩
    | none =>
      simp only [exec, hupsert]
      refine ⟨fun r hr => ?_, fun h => h.upsert hlow⟩
      rw [← Except.ok.inj hr]
      exact ⟨.inl ⟨rfl, clock.now, rfl⟩, ⟨fun h => (by cases h), fun h => absurd h hnone⟩,
        fun h => by cases h⟩

variable (scoring libs)

/-- The states after some calls, one after another, on a collection that was empty. -/
inductive Reached : Server F32 ReportPayload → Prop where
  | start {s : Server F32 ReportPayload} (h : (s "reports").rows = []) : Reached s
  | call {s s' : Server F32 ReportPayload} {reportId : String} {reportText : Text}
      {out : Except String (DedupResult S ReportPayload)} (h : Reached s)
      (hcall : (deduplicateReport libs reportId reportText).Completes (exec scoring) s out s') :
      Reached s'

variable {scoring libs}

theorem Reached.apart {s : Server F32 ReportPayload} (h : Reached scoring libs s) :
    Apart scoring s := by
  induction h with
  | start h =>
    intro p hp
    rw [h] at hp
    cases hp
  | call h hcall ih => exact ((ensures_deduplicateReport _ _ _).completes hcall).2 ih

section ThreeReports

variable (libs) in
/-- The point that a call stores. -/
def storedPoint (reportId : String) (reportText : Text) (now : String) :
    MockPoint F32 ReportPayload :=
  ⟨reportId, computeEmbedding libs reportText, ⟨reportId, now⟩⟩

/-- A call that finds nothing similar stores its point. -/
theorem completes_stored {s : Server F32 ReportPayload} (env : DedupEnv scoring)
    (hfailure : env.failure = none) {reportId : String} {reportText : Text}
    (hlow : ∀ p ∈ (s "reports").rows,
      scoring.cosine (computeEmbedding libs reportText) p.vector < 0.85) :
    (deduplicateReport libs reportId reportText).Completes (exec scoring) s
      (.ok ⟨false, reportId, [], none, none, true, none⟩)
      (s.upsert "reports" (storedPoint libs reportId reportText env.now)) := by
  have hnone : (env.ranking (s "reports") (computeEmbedding libs reportText) 10).filter
      (fun p => 0.85 ≤ scoring.cosine (computeEmbedding libs reportText) p.vector) = [] := by
    refine List.filter_eq_nil_iff.mpr fun p hp => ?_
    have hlt := hlow p ((env.ranks _ _ 10).subset hp)
    simpa using hlt
  refine ⟨[env, env, env], ?_⟩
  simp only [deduplicateReport, searchPoints, Program.call_bind, Program.request_bind,
    Program.pure_eq, Program.run, exec, hfailure, Program.done_bind, Option.getD_some,
    filter_read, hnone, List.map_nil]
  rfl

/-- A call that finds something similar answers with it and stores nothing. -/
theorem completes_similar {s : Server F32 ReportPayload} (env : DedupEnv scoring)
    (hfailure : env.failure = none) {reportId : String} {reportText : Text}
    {best : MockPoint F32 ReportPayload} {rest : List (MockPoint F32 ReportPayload)}
    (hsimilar : (env.ranking (s "reports") (computeEmbedding libs reportText) 10).filter
      (fun p => 0.85 ≤ scoring.cosine (computeEmbedding libs reportText) p.vector) =
        best :: rest) :
    (deduplicateReport libs reportId reportText).Completes (exec scoring) s
      (.ok ⟨true, reportId, (best :: rest).map fun p =>
          ⟨p.id, scoring.cosine (computeEmbedding libs reportText) p.vector, some p.payload⟩,
        some best.id, some (scoring.cosine (computeEmbedding libs reportText) best.vector),
        false, none⟩) s := by
  refine ⟨[env], ?_⟩
  simp only [deduplicateReport, searchPoints, Program.call_bind, Program.request_bind,
    Program.pure_eq, Program.run, exec, hfailure, Program.done_bind, Option.getD_some,
    filter_read, hsimilar, List.map_cons]

/-- So it is if one of two points is similar. -/
theorem completes_found {s : Server F32 ReportPayload} (env : DedupEnv scoring)
    (hfailure : env.failure = none) {reportId : String} {reportText : Text}
    {best other : MockPoint F32 ReportPayload} {score : S}
    (hrows : (s "reports").rows = [best, other])
    (hbest : scoring.cosine (computeEmbedding libs reportText) best.vector = score)
    (hscore : 0.85 ≤ score)
    (hother : scoring.cosine (computeEmbedding libs reportText) other.vector < 0.85) :
    (deduplicateReport libs reportId reportText).Completes (exec scoring) s
      (.ok ⟨true, reportId, [⟨best.id, score, some best.payload⟩], some best.id, some score,
        false, none⟩) s := by
  subst hbest
  have htop := env.ranks (s "reports") (computeEmbedding libs reportText) 10
  have hrow : (s "reports").rows.filter
      (fun p => 0.85 ≤ scoring.cosine (computeEmbedding libs reportText) p.vector) = [best] := by
    rw [hrows, List.filter_cons_of_pos (by simpa using hscore),
      List.filter_cons_of_neg (by simpa using hother), List.filter_nil]
  have hroom : (s "reports").rows.length ≤ 10 := by simp [hrows]
  have hperm := (htop.perm hroom).filter fun p =>
    decide (0.85 ≤ scoring.cosine (computeEmbedding libs reportText) p.vector)
  rw [hrow, List.perm_singleton] at hperm
  exact completes_similar env hfailure hperm

/-- The cosine of vectors of length 1. -/
def dot (a b : List ℚ) : ℚ := (List.zipWith (· * ·) a b).sum

def dotScoring : Scoring ℚ ℚ :=
  ⟨dot, fun a b => by rw [dot, dot, List.zipWith_comm_of_comm mul_comm]⟩

/-- Words are hashed by their lengths, and the only root that the texts below need is that of
9: each has four words of different lengths. -/
def lengthHash : JuliaLibs ℚ where
  lowercase := id
  isspace := (· = ' ')
  hash w := UInt64.ofNat (w.length + w.length * 2 ^ 32)
  sqrt q := if q = 9 then 3 else 0

def lateClient : MockPoint ℚ ReportPayload :=
  storedPoint lengthHash "r1" "a bad late client".toList "2025-01-01T00:00:00"

def angryClient : MockPoint ℚ ReportPayload :=
  storedPoint lengthHash "r2" "a rude angry client".toList "2025-01-01T00:00:00"

/-- Two reports that have three words of their lengths in common. -/
def twoReports : Server ℚ ReportPayload :=
  (MockSearch.emptyServer.upsert "reports" lateClient).upsert "reports" angryClient

theorem rows_twoReports : (twoReports "reports").rows = [lateClient, angryClient] := rfl

end ThreeReports

end SafetyDao.DedupRuns
