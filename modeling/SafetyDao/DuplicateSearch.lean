import SafetyDao.DedupRuns

/-!
# Looking for duplicates

`find_duplicates` lists what is similar to a text, and `deduplicate_report` decides whether to
store a report. They ask the server for different numbers of points, and the server may order
points of equal score differently each time. Still the decision and the list agree.
-/
namespace SafetyDao.DuplicateSearch
open DedupRuns (DedupEnv Scoring exec)
open MockSearch (Server)
open Similarity

variable {F32 S : Type} [LinearOrder S] [OfScientific S] [OfNat F32 0] [OfNat F32 1]
  [OfScientific F32] [Add F32] [Mul F32] [Div F32] [LT F32] [DecidableLT F32]
  (scoring : Scoring F32 S) (libs : JuliaLibs F32)

/-- An error of the search is thrown on. -/
def findDuplicates {P : Type} (text : Text) (threshold : S) :
    Deduplicating S F32 P (Except String (List (Match S P))) := do
  let embedding := computeEmbedding libs text
  match ← searchPoints "reports" embedding 20 with
  | .error e => return .error e
  | .ok results => return .ok (results.filter fun r => threshold ≤ r.score)

/-- A point as a search for a vector returns it. -/
def found (vector : List F32) (p : MockPoint F32 ReportPayload) : Match S ReportPayload :=
  ⟨p.id, scoring.cosine vector p.vector, some p.payload⟩

/-- The stored points that reach a threshold for a text. -/
def similar (s : Server F32 ReportPayload) (text : Text) (threshold : S) :
    List (MockPoint F32 ReportPayload) :=
  (s "reports").rows.filter fun p =>
    threshold ≤ scoring.cosine (computeEmbedding libs text) p.vector

/-- A list has the best of the similar points, best first. -/
def ListsBest (s : Server F32 ReportPayload) (text : Text) (threshold : S) (limit : ℕ)
    (listed : List (Match S ReportPayload)) : Prop :=
  ∃ points, IsTop (fun p => scoring.cosine (computeEmbedding libs text) p.vector)
    (similar scoring libs s text threshold) limit points ∧
      listed = points.map (found scoring (computeEmbedding libs text))

variable {scoring libs} {s : Server F32 ReportPayload} {text : Text} {threshold : S}

omit [OfScientific S] in
theorem nodup_similar : (similar scoring libs s text threshold).Nodup :=
  ((s "reports").nodup.of_map _).filter _

/-- What a search answers, once it is cut at a threshold. -/
theorem listsBest_search (env : DedupEnv scoring) (limit : ℕ) :
    ListsBest scoring libs s text threshold limit
      ((((env.ranking (s "reports") (computeEmbedding libs text) limit).map fun p =>
        (⟨some p.id, some (scoring.cosine (computeEmbedding libs text) p.vector),
          some p.payload⟩ : RawPoint S ReportPayload)).map RawPoint.read).filter
            fun r => threshold ≤ r.score) := by
  have htop := env.ranks (s "reports") (computeEmbedding libs text) limit
  refine ⟨_, htop.filter ((s "reports").nodup.of_map _) threshold, ?_⟩
  rw [List.map_map, List.filter_map]
  rfl

theorem ensures_findDuplicates : Program.Ensures (exec scoring)
    (fun out s' => s' = s ∧ ∀ listed, out = .ok listed →
      ListsBest scoring libs s text threshold 20 listed)
    (findDuplicates libs text threshold) s := by
  unfold findDuplicates searchPoints
  simp only [Program.call_bind, Program.request_bind, Program.pure_eq]
  intro env
  cases hfailure : env.failure with
  | some e =>
    simp only [exec, hfailure, Program.done_bind]
    exact ⟨rfl, fun _ h => by cases h⟩
  | none =>
    simp only [exec, hfailure, Program.done_bind, Option.getD_some]
    refine ⟨rfl, ?_⟩
    rintro listed ⟨⟩
    exact listsBest_search env 20

/-- The list of a decision: empty, or the first ten. -/
theorem ensures_deduplicateReport (reportId : String) : Program.Ensures (exec scoring)
    (fun out _ => ∀ r, out = .ok r → ListsBest scoring libs s text 0.85 10 r.found ∧
      (r.isDuplicate = true ↔ r.found ≠ []) ∧ r.bestScore = r.found.head?.map Match.score)
    (deduplicateReport libs reportId text) s := by
  unfold deduplicateReport searchPoints
  simp only [Program.call_bind, Program.request_bind, Program.pure_eq]
  intro env
  cases hfailure : env.failure with
  | some e =>
    simp only [exec, hfailure, Program.done_bind]
    exact fun r h => by cases h
  | none =>
  have hbest : ListsBest scoring libs s text 0.85 10 _ := listsBest_search env 10
  simp only [exec, hfailure, Program.done_bind, Option.getD_some]
  revert hbest
  generalize List.filter _ _ = listed
  intro hbest
  cases listed with
  | cons best rest =>
    rintro r ⟨⟩
    exact ⟨hbest, by simp, rfl⟩
  | nil =>
    intro clock upsert
    cases hupsert : upsert.failure with
    | some e =>
      simp only [exec, hupsert]
      rintro r ⟨⟩
      exact ⟨hbest, by simp, rfl⟩
    | none =>
      simp only [exec, hupsert]
      rintro r ⟨⟩
      exact ⟨hbest, by simp, rfl⟩

omit [OfScientific S] in
/-- Two lists of the best, one of ten and one of twenty, have the same scores as far as they go,
and the same matches if they are all there are. -/
theorem ListsBest.agree {few many : List (Match S ReportPayload)}
    (hfew : ListsBest scoring libs s text threshold 10 few)
    (hmany : ListsBest scoring libs s text threshold 20 many) :
    few.map Match.score = (many.map Match.score).take 10 ∧ (many.length ≤ 10 → few.Perm many) := by
  obtain ⟨ps, hps, rfl⟩ := hfew
  obtain ⟨qs, hqs, rfl⟩ := hmany
  have hscore : ∀ ps : List (MockPoint F32 ReportPayload),
      (ps.map (found scoring (computeEmbedding libs text))).map Match.score =
        ps.map fun p => scoring.cosine (computeEmbedding libs text) p.vector :=
    fun ps => List.map_map
  refine ⟨?_, fun hlength => ?_⟩
  · rw [hscore, hscore, hps.map_score nodup_similar, hqs.map_score nodup_similar, List.take_take]
    rfl
  · have hroom : (similar scoring libs s text threshold).length ≤ 10 := by
      have hmin := hqs.length_eq
      rw [List.length_map] at hlength
      omega
    exact ((hps.perm hroom).trans (hqs.perm (by omega)).symm).map _

variable (scoring libs s text) in
/-- A list of duplicates has the best of the similar points and leaves the collection as it is,
and the decision on a report goes with the list. -/
structure Agree (s' : Server F32 ReportPayload) (r : DedupResult S ReportPayload)
    (listed : List (Match S ReportPayload)) : Prop where
  unchanged : s' = s
  best : ListsBest scoring libs s text 0.85 20 listed
  decision : r.isDuplicate = true ↔ listed ≠ []
  scores : r.found.map Match.score = (listed.map Match.score).take 10
  bestScore : r.bestScore = (listed.map Match.score).head?
  all : listed.length ≤ 10 → r.found.Perm listed

/-- So it is whatever the server does with ties. -/
theorem duplicates_agree {reportId : String} {r : DedupResult S ReportPayload}
    {listed : List (Match S ReportPayload)} {s' s'' : Server F32 ReportPayload}
    (hcall : (deduplicateReport libs reportId text).Completes (exec scoring) s (.ok r) s')
    (hfind : (findDuplicates libs text 0.85).Completes (exec scoring) s (.ok listed) s'') :
    Agree scoring libs s text s'' r listed := by
  obtain ⟨hsame, hlisted⟩ := ensures_findDuplicates.completes hfind
  obtain ⟨hfound, hdecision, hscore⟩ := (ensures_deduplicateReport reportId).completes hcall r rfl
  have hmany := hlisted listed rfl
  obtain ⟨hscores, hall⟩ := hfound.agree hmany
  refine ⟨hsame, hmany, hdecision.trans (not_congr ?_), hscores, ?_, hall⟩
  · rw [← List.map_eq_nil_iff (f := Match.score), hscores]
    simp
  · rw [hscore, ← List.head?_map, hscores, List.head?_take]
    rfl

section AlikeReports
open DedupRuns (completes_similar dotScoring lengthHash storedPoint)

/-- A match with a given score. -/
def scored (score : S) (p : MockPoint F32 ReportPayload) : Match S ReportPayload :=
  ⟨p.id, score, some p.payload⟩

/-- Two points of one score may be found in one order by the one search and in the opposite
order by the other. -/
theorem completes_pair {a b : MockPoint F32 ReportPayload} {score : S} (reportId now : String)
    (hrows : (s "reports").rows = [a, b]) (hne : a ≠ b)
    (ha : scoring.cosine (computeEmbedding libs text) a.vector = score)
    (hb : scoring.cosine (computeEmbedding libs text) b.vector = score) (hscore : 0.85 ≤ score) :
    (deduplicateReport libs reportId text).Completes (exec scoring) s
      (.ok ⟨true, reportId, [scored score a, scored score b], some a.id, some score, false, none⟩)
      s ∧
    (findDuplicates libs text 0.85).Completes (exec scoring) s
      (.ok [scored score b, scored score a]) s := by
  have hstoring : IsTop (fun p => scoring.cosine (computeEmbedding libs text) p.vector)
      (s "reports").rows 10 [a, b] := by
    rw [hrows]
    exact isTop_pair hne (ha.trans hb.symm) (by decide)
  have hopposite : IsTop (fun p => scoring.cosine (computeEmbedding libs text) p.vector)
      (s "reports").rows 20 [b, a] := by
    rw [hrows]
    exact (isTop_pair hne.symm (hb.trans ha.symm) (by decide)).of_perm (.swap _ _ _)
  obtain ⟨rank, hrank, hfew⟩ := MockSearch.exists_ranksBy _ _ _ _ hstoring
  obtain ⟨rank', hrank', hmany⟩ := MockSearch.exists_ranksBy _ _ _ _ hopposite
  constructor
  · have hsimilar : (rank (s "reports") (computeEmbedding libs text) 10).filter
        (fun p => 0.85 ≤ scoring.cosine (computeEmbedding libs text) p.vector) = [a, b] := by
      simp [hfew, ha, hb, hscore]
    have hlisted : [scored score a, scored score b] = [a, b].map fun p =>
        ⟨p.id, scoring.cosine (computeEmbedding libs text) p.vector, some p.payload⟩ := by
      simp [scored, ha, hb]
    rw [hlisted, ← ha]
    exact completes_similar ⟨rank, hrank, none, now⟩ rfl hsimilar
  · refine ⟨[⟨rank', hrank', none, now⟩], ?_⟩
    simp only [findDuplicates, searchPoints, Program.call_bind, Program.request_bind,
      Program.pure_eq, Program.run, exec, Program.done_bind, Option.getD_some, hmany]
    simp [RawPoint.read, scored, ha, hb, hscore]

/-- Two reports whose words have the same lengths. -/
def lateClient : MockPoint ℚ ReportPayload :=
  storedPoint lengthHash "r1" "a bad late client".toList "2025-01-01T00:00:00"

def coldPerson : MockPoint ℚ ReportPayload :=
  storedPoint lengthHash "r2" "a mad cold person".toList "2025-01-01T00:00:00"

def alikeReports : Server ℚ ReportPayload :=
  (MockSearch.emptyServer.upsert "reports" lateClient).upsert "reports" coldPerson

theorem duplicates_agree_alike :
    Agree dotScoring lengthHash alikeReports "a sly mean person".toList alikeReports
      ⟨true, "r3", [scored 1 lateClient, scored 1 coldPerson], some "r1", some 1, false, none⟩
      [scored 1 coldPerson, scored 1 lateClient] := by
  have hlate : dotScoring.cosine (computeEmbedding lengthHash "a sly mean person".toList)
      lateClient.vector = 1 := by decide +kernel
  have hcold : dotScoring.cosine (computeEmbedding lengthHash "a sly mean person".toList)
      coldPerson.vector = 1 := by decide +kernel
  have hne : lateClient ≠ coldPerson := fun h => absurd (congrArg MockPoint.id h) (by decide)
  have hrows : (alikeReports "reports").rows = [lateClient, coldPerson] := rfl
  have hreaches : (0.85 : ℚ) ≤ 1 := by decide +kernel
  obtain ⟨hcall, hfind⟩ := completes_pair "r3" "2025-01-02T00:00:00" hrows hne hlate hcold hreaches
  exact duplicates_agree hcall hfind

end AlikeReports

end SafetyDao.DuplicateSearch
